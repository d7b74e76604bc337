import LayoutCompletion.Completion.Complete
import LayoutCompletion.Proofs.Document.Scoping
import LayoutCompletion.Proofs.Styleable.Groups
import Mathlib.Data.List.Perm.Basic

/-!
# What a search finds

`Searched` says which packages a request searches, behind which prefix, and how well a name
matches there; `searched_iff` ties it to the search that a typed text stands for. Whatever a
search finds, in whatever order, comes from a group of a package that it searches
(`mem_candidatesBy`), is written with a declared prefix, and has the quality of its name
(`isPrefix_of_mem`, `quality_of_mem`).
-/

namespace LayoutCompletion

variable {matcher : Matcher} {d : Document} {node : Nat} {r : ResourceRegistry} {typed : List Char}

/--
A package that is searched behind a prefix, and how well a name matches there.

* `bound`: the typed text has a prefix that stands for a namespace, and only its rest is matched.
* `unbound`: it has none, so that every prefix is tried, and a name matches with or without it.
-/
inductive Searched (matcher : Matcher) (d : Document) (node : Nat) (r : ResourceRegistry)
    (typed : List Char) : String → Package → String → Quality → Prop
  | bound {space base : List Char} {uri : String} {package : Package} (name : String) :
    typed = space ++ ':' :: base → ':' ∉ space → d.Binds (String.ofList space) uri node →
      package ∈ r.packagesFor uri →
      Searched matcher d node r typed (String.ofList space) package name
        (matcher.classify name (String.ofList base))
  | unbound {space uri : String} {package : Package} (name : String) :
    (∀ front base, typed = front ++ ':' :: base → ':' ∉ front →
      ∀ uri, ¬d.Binds (String.ofList front) uri node) →
      d.Binds space uri node → package ∈ r.packagesFor uri →
      Searched matcher d node r typed space package name
        ((matcher.classify (space ++ ":" ++ name) (String.ofList typed)).best
          (matcher.classify name (String.ofList typed)))

theorem qualify_of_isPrefix {space : String} (h : Document.IsPrefix space) (name : String) :
    qualify space name = space ++ ":" ++ name := by
  rw [qualify, h.1]
  rfl

theorem mem_targetsFor {uri space : String} {target : SearchTarget} :
    target ∈ targetsFor r uri space ↔
      target.package ∈ r.packagesFor uri ∧ target.space = space := by
  unfold targetsFor
  rw [List.mem_map]
  constructor
  · rintro ⟨package, hp, rfl⟩
    exact ⟨hp, rfl⟩
  · rintro ⟨hp, rfl⟩
    exact ⟨target.package, hp, rfl⟩

theorem mem_fanOut (hd : d.Sound) {target : SearchTarget} :
    target ∈ fanOut d node r ↔
      ∃ uri, d.Binds target.space uri node ∧ target.package ∈ r.packagesFor uri := by
  unfold fanOut
  rw [List.mem_flatMap]
  constructor
  · rintro ⟨⟨space, uri⟩, hmem, htarget⟩
    obtain ⟨hp, rfl⟩ := mem_targetsFor.mp htarget
    exact ⟨uri, (Document.mem_namespaceDeclarations hd).mp hmem, hp⟩
  · rintro ⟨uri, hbinds, hp⟩
    exact ⟨(target.space, uri), (Document.mem_namespaceDeclarations hd).mpr hbinds,
      mem_targetsFor.mpr ⟨hp, rfl⟩⟩

theorem boundSearch?_eq_some (hd : d.Sound) {s : Search} :
    boundSearch? d node r typed = some s ↔
      ∃ space base uri, typed = space ++ ':' :: base ∧ ':' ∉ space ∧
        d.Binds (String.ofList space) uri node ∧
        s = ⟨targetsFor r uri (String.ofList space), .bare (String.ofList base)⟩ := by
  unfold boundSearch?
  simp only [Option.bind_eq_bind, Option.pure_def, Option.bind_eq_some_iff, Prod.exists,
    Text.splitFirst?_eq_some, Document.namespaceUri?_eq_some hd, Option.some.injEq]
  constructor
  · rintro ⟨space, base, ⟨htyped, hspace⟩, uri, hbinds, rfl⟩
    exact ⟨space, base, uri, htyped, hspace, hbinds, rfl⟩
  · rintro ⟨space, base, uri, htyped, hspace, hbinds, rfl⟩
    exact ⟨space, base, ⟨htyped, hspace⟩, uri, hbinds, rfl⟩

/-- A text is cut at its first colon in one way only. -/
theorem split_unique {front front' base base' : List Char} (h : ':' ∉ front) (h' : ':' ∉ front')
    (heq : front ++ ':' :: base = front' ++ ':' :: base') : front = front' ∧ base = base' := by
  have hsplit := Text.splitFirst?_eq_some.mpr ⟨heq, h'⟩
  rw [Text.splitFirst?_eq_some.mpr ⟨rfl, h⟩] at hsplit
  exact Prod.mk.inj (Option.some.inj hsplit)

theorem Document.Binds.unique {space uri uri' : String} (hd : d.Sound)
    (h : d.Binds space uri node) (h' : d.Binds space uri' node) : uri = uri' :=
  Option.some.inj (((Document.namespaceUri?_eq_some hd).mpr h).symm.trans
    ((Document.namespaceUri?_eq_some hd).mpr h'))

/-- What is searched for a typed text. -/
theorem searched_iff (hd : d.Sound) {space : String} {package : Package} {name : String}
    {quality : Quality} :
    Searched matcher d node r typed space package name quality ↔
      (⟨package, space⟩ : SearchTarget) ∈ (Search.ofTyped d node r typed).targets ∧
        quality = (Search.ofTyped d node r typed).needle.quality matcher space name := by
  unfold Search.ofTyped
  cases hsearch : boundSearch? d node r typed with
  | some s =>
    obtain ⟨front, base, uri, rfl, hfront, hbinds, rfl⟩ := (boundSearch?_eq_some hd).mp hsearch
    rw [Option.getD_some, mem_targetsFor]
    constructor
    · intro h
      cases h with
      | bound _ htyped hspace hbinds' hp =>
        obtain ⟨rfl, rfl⟩ := split_unique hfront hspace htyped
        rw [hbinds.unique hd hbinds']
        exact ⟨⟨hp, rfl⟩, rfl⟩
      | unbound _ hnone _ _ => exact absurd hbinds (hnone front base rfl hfront uri)
    · rintro ⟨⟨hp, rfl⟩, rfl⟩
      exact .bound name rfl hfront hbinds hp
  | none =>
    have hnone : ∀ front base, typed = front ++ ':' :: base → ':' ∉ front →
        ∀ uri, ¬d.Binds (String.ofList front) uri node := by
      intro front base htyped hfront uri hbinds
      rw [(boundSearch?_eq_some hd).mpr ⟨front, base, uri, htyped, hfront, hbinds, rfl⟩] at hsearch
      cases hsearch
    rw [Option.getD_none, mem_fanOut hd]
    constructor
    · intro h
      cases h with
      | bound _ htyped hspace hbinds _ => exact absurd hbinds (hnone _ _ htyped hspace _)
      | unbound _ _ hbinds hp =>
        refine ⟨⟨_, hbinds, hp⟩, ?_⟩
        rw [Needle.quality, qualify_of_isPrefix (hbinds.isPrefix hd)]
    · rintro ⟨⟨uri, hbinds, hp⟩, rfl⟩
      rw [Needle.quality, qualify_of_isPrefix (hbinds.isPrefix hd)]
      exact .unbound name hnone hbinds hp

/-- Every prefix behind which something is searched is declared. -/
theorem Searched.isPrefix (hd : d.Sound) {space name : String} {package : Package}
    {quality : Quality} (h : Searched matcher d node r typed space package name quality) :
    Document.IsPrefix space := by
  cases h with
  | bound _ _ _ hbinds _ => exact hbinds.isPrefix hd
  | unbound _ _ hbinds _ => exact hbinds.isPrefix hd

/-! ## Candidates -/

theorem Needle.candidate?_eq_some {needle : Needle} {space : String} {a : AttributeEntry}
    {c : Candidate} :
    needle.candidate? matcher space a = some c ↔ needle.quality matcher space a.name ≠ .unmatched ∧
      c = ⟨a.name, space, a.package, a.format, needle.quality matcher space a.name⟩ := by
  unfold Needle.candidate?
  split
  · next h => simp [h]
  · next h =>
    rw [Option.some.injEq, eq_comm]
    exact ⟨fun hc => ⟨h, hc⟩, And.right⟩

section
variable {s : Search} {widgets : WidgetIndex} {order : Enumeration} {c : Candidate}

/-- In any order the same is found, as often. -/
theorem Search.candidatesBy_perm_flatMap (order : Enumeration) (s : Search) (matcher : Matcher)
    (widgets : WidgetIndex) (d : Document) (node : Nat) :
    (s.candidatesBy order matcher widgets d node).Perm
      (s.targets.flatMap fun target =>
        assemble (widgets.resolve d node target.package) s.needle target.space matcher) := by
  rw [← List.zipIdx_map_fst 0 s.targets, List.flatMap_map]
  refine List.Perm.flatMap_left _ fun ⟨target, place⟩ _ => ?_
  exact ((order.perm place _).map Prod.snd).flatMap_right _

/-- What a search finds are the matching attributes of the groups of the packages it searches. -/
theorem Search.mem_candidatesBy :
    c ∈ s.candidatesBy order matcher widgets d node ↔
      ∃ package styleable group, ∃ a ∈ group.attributes,
        (⟨package, c.space⟩ : SearchTarget) ∈ s.targets ∧
        (widgets.resolve d node package).get? styleable = some group ∧
        c.name = a.name ∧ c.package = a.package ∧ c.format = a.format ∧
        c.quality = s.needle.quality matcher c.space a.name ∧ c.quality ≠ .unmatched := by
  rw [(candidatesBy_perm_flatMap order s matcher widgets d node).mem_iff]
  unfold assemble
  simp only [List.mem_flatMap, List.mem_filterMap, Needle.candidate?_eq_some,
    WidgetIndex.mem_values_resolve]
  constructor
  · rintro ⟨⟨package, space⟩, htarget, group, ⟨styleable, hgroup⟩, a, ha, hquality, rfl⟩
    exact ⟨package, styleable, group, a, ha, htarget, hgroup, rfl, rfl, rfl, rfl, hquality⟩
  · obtain ⟨name, space, package, format, quality⟩ := c
    rintro ⟨package, styleable, group, a, ha, htarget, hgroup, rfl, rfl, rfl, hq, hquality⟩
    obtain rfl : quality = s.needle.quality matcher space a.name := hq
    exact ⟨⟨package, space⟩, htarget, group, ⟨styleable, hgroup⟩, a, ha, hquality, rfl⟩

/-- How good a candidate is depends on its prefix and its name only. -/
theorem Search.quality_of_mem (h : c ∈ s.candidatesBy order matcher widgets d node) :
    c.quality = s.needle.quality matcher c.space c.name := by
  obtain ⟨_, _, _, a, -, -, -, hname, -, -, hquality, -⟩ := Search.mem_candidatesBy.mp h
  rw [hquality, hname]

/-- Every candidate is written with a declared prefix. -/
theorem Search.isPrefix_of_mem (hd : d.Sound)
    (h : c ∈ (Search.ofTyped d node r typed).candidatesBy order matcher widgets d node) :
    Document.IsPrefix c.space := by
  obtain ⟨package, _, _, a, -, htarget, -, -, -, -, hquality, -⟩ := Search.mem_candidatesBy.mp h
  exact ((searched_iff hd).mpr ⟨htarget, hquality⟩).isPrefix hd

end

end LayoutCompletion
