import LayoutCompletion.Namespaces
import LayoutCompletion.Proofs.Document.Nesting

/-!
# The declarations that hold at an element

An element has the declarations of its start tag, of each prefix the first one, and those of the
element around it that they do not override (`namespaceDeclarations_eq_overriding`). So the list of
all that hold there is told from the nearest element outwards, has each prefix once, and gives a
prefix the namespace that a search for it alone finds (`lookup_namespaceDeclarations`). What is
searched behind a prefix is therefore the same whether the prefix is known or all of them are tried.
-/

namespace LayoutCompletion

/-- Of the declarations of each prefix the first one. -/
def firstDeclarations : List (String × String) → List (String × String)
  | [] => []
  | b :: rest => b :: (firstDeclarations rest).filter fun later => later.1 ≠ b.1

/-- Own declarations, and outer ones of other prefixes behind them. -/
def overriding (own outer : List (String × String)) : List (String × String) :=
  firstDeclarations own ++ outer.filter fun b => b.1 ∉ own.map Prod.fst

section
variable {own outer l known bindings : List (String × String)} {b : String × String}
  {space uri : String}

/-! ## First declarations -/

theorem lookup_filter_keys {p : String → Bool} (hspace : p space = true)
    (l : List (String × String)) :
    (l.filter fun b => p b.1).lookup space = l.lookup space := by
  induction l with
  | nil => rfl
  | cons b l ih =>
    by_cases hsame : space = b.1
    · subst hsame
      rw [List.filter_cons, if_pos hspace, List.lookup_cons, List.lookup_cons, BEq.rfl]
    · rw [List.filter_cons, List.lookup_cons, beq_eq_false_iff_ne.mpr hsame]
      split
      · rw [List.lookup_cons, beq_eq_false_iff_ne.mpr hsame, ih]
      · exact ih

theorem lookup_firstDeclarations (l : List (String × String)) :
    (firstDeclarations l).lookup space = l.lookup space := by
  induction l with
  | nil => rfl
  | cons b l ih =>
    rw [firstDeclarations, List.lookup_cons, List.lookup_cons]
    by_cases hsame : space = b.1
    · rw [hsame, BEq.rfl]
    · have hkeep : decide (space ≠ b.1) = true := decide_eq_true hsame
      rw [beq_eq_false_iff_ne.mpr hsame,
        lookup_filter_keys (p := fun key => key ≠ b.1) hkeep, ih]

theorem nodup_firstDeclarations (l : List (String × String)) :
    ((firstDeclarations l).map Prod.fst).Nodup := by
  induction l with
  | nil => exact List.nodup_nil
  | cons b l ih =>
    rw [firstDeclarations, List.map_cons, List.nodup_cons]
    refine ⟨fun hmem => ?_, ih.sublist (List.filter_sublist.map Prod.fst)⟩
    obtain ⟨later, hlater, hsame⟩ := List.mem_map.mp hmem
    exact of_decide_eq_true (List.mem_filter.mp hlater).2 hsame

theorem mem_keys_iff_lookup : space ∈ l.map Prod.fst ↔ ∃ uri, l.lookup space = some uri := by
  induction l with
  | nil => simp
  | cons b l ih =>
    rw [List.map_cons, List.mem_cons, List.lookup_cons]
    by_cases hsame : space = b.1
    · simp [hsame]
    · simp only [hsame, false_or, beq_eq_false_iff_ne.mpr hsame, ih]

theorem mem_keys_firstDeclarations :
    space ∈ (firstDeclarations l).map Prod.fst ↔ space ∈ l.map Prod.fst := by
  rw [mem_keys_iff_lookup, mem_keys_iff_lookup, lookup_firstDeclarations]

theorem lookup_overriding :
    (overriding own outer).lookup space = (own.lookup space).or (outer.lookup space) := by
  rw [overriding, List.lookup_append, lookup_firstDeclarations]
  cases hown : own.lookup space with
  | some uri => rfl
  | none =>
    have hnew : decide (space ∉ own.map Prod.fst) = true := by
      rw [decide_eq_true_iff, mem_keys_iff_lookup, hown]
      simp
    rw [lookup_filter_keys (p := fun key => key ∉ own.map Prod.fst) hnew]

namespace Document

/-- Declarations that come in are those of new prefixes, of each the first one. -/
theorem foldl_addDeclaration (l known : List (String × String)) :
    l.foldl addDeclaration known =
      known ++ (firstDeclarations l).filter fun b => b.1 ∉ known.map Prod.fst := by
  induction l generalizing known with
  | nil => exact (List.append_nil known).symm
  | cons b l ih =>
    rw [List.foldl_cons, ih, addDeclaration_eq, firstDeclarations, List.filter_cons,
      List.filter_filter]
    split
    · next hknown =>
      rw [if_neg (by simpa using hknown)]
      congr 1
      refine List.filter_congr fun later _ => ?_
      by_cases hsame : later.1 = b.1
      · simp [hsame, hknown]
      · simp [hsame]
    · next hnew =>
      rw [if_pos (by simpa using hnew), List.append_assoc, List.singleton_append]
      congr 2
      refine List.filter_congr fun later _ => ?_
      rw [Bool.eq_iff_iff]
      simp only [List.map_append, List.mem_append, List.map_cons, List.map_nil,
        List.mem_singleton, Bool.and_eq_true, decide_eq_true_eq]
      exact not_or

theorem foldl_addDeclaration_nil (l : List (String × String)) :
    l.foldl addDeclaration [] = firstDeclarations l := by
  rw [foldl_addDeclaration]
  simp

theorem firstDeclarations_append (own l : List (String × String)) :
    firstDeclarations (own ++ l) = overriding own (firstDeclarations l) := by
  rw [← foldl_addDeclaration_nil, List.foldl_append, foldl_addDeclaration_nil,
    foldl_addDeclaration, overriding]
  congr 1
  refine List.filter_congr fun b _ => ?_
  simp only [mem_keys_firstDeclarations]

end Document

end

namespace Document

variable {d : Document} {node owner : Nat} {space uri : String}

/-! ## The element that decides -/

/-- The nearest element that declares the prefix, going outwards from an element. -/
inductive DeclaredBy (d : Document) (space : String) : Nat → Nat → Prop
  | here {node : Nat} {uri : String} : (d.declarations node).lookup space = some uri →
    DeclaredBy d space node node
  | outer {node parent owner : Nat} : (d.declarations node).lookup space = none →
    d.parent? node = some parent → DeclaredBy d space parent owner → DeclaredBy d space node owner

theorem Binds.exists_declaredBy (h : d.Binds space uri node) :
    ∃ owner, d.DeclaredBy space node owner := by
  induction h with
  | here hlookup => exact ⟨_, .here hlookup⟩
  | outer hnone hparent _ ih =>
    obtain ⟨owner, howner⟩ := ih
    exact ⟨owner, .outer hnone hparent howner⟩

theorem DeclaredBy.mem_ancestors (hd : d.Sound) (h : d.DeclaredBy space node owner) :
    owner ∈ d.ancestors node := by
  induction h with
  | here => exact self_mem_ancestors hd _
  | outer _ hparent _ ih =>
    rw [ancestors_of_parent? hd hparent]
    exact .tail _ ih

theorem DeclaredBy.eq_self (h : d.DeclaredBy space node owner)
    (hown : space ∈ (d.declarations node).map Prod.fst) : owner = node := by
  cases h with
  | here => rfl
  | outer hnone =>
    obtain ⟨uri, huri⟩ := mem_keys_iff_lookup.mp hown
    rw [hnone] at huri
    cases huri

theorem DeclaredBy.of_not_mem (h : d.DeclaredBy space node owner)
    (hnew : space ∉ (d.declarations node).map Prod.fst) :
    ∃ parent, d.parent? node = some parent ∧ d.DeclaredBy space parent owner := by
  cases h with
  | here hlookup => exact absurd (mem_keys_iff_lookup.mpr ⟨_, hlookup⟩) hnew
  | outer _ hparent howner => exact ⟨_, hparent, howner⟩

/-! ## Declarations from the element outwards -/

/-- The declarations that hold around an element, none if there is nothing around it. -/
def outerDeclarations (d : Document) (node : Nat) : List (String × String) :=
  (d.parent? node).elim [] d.namespaceDeclarations

/-- What an element declares overrides what holds around it. -/
theorem namespaceDeclarations_eq_overriding (hd : d.Sound) (node : Nat) :
    d.namespaceDeclarations node =
      overriding (d.declarations node) (d.outerDeclarations node) := by
  unfold outerDeclarations
  cases hparent : d.parent? node with
  | none =>
    rw [namespaceDeclarations, ancestors_of_root hparent, List.flatMap_singleton,
      foldl_addDeclaration_nil, overriding, Option.elim_none, List.filter_nil, List.append_nil]
  | some parent =>
    rw [namespaceDeclarations, ancestors_of_parent? hd hparent, List.flatMap_cons,
      foldl_addDeclaration_nil, firstDeclarations_append, Option.elim_some, namespaceDeclarations,
      foldl_addDeclaration_nil]

theorem nodup_namespaceDeclarations (d : Document) (node : Nat) :
    ((d.namespaceDeclarations node).map Prod.fst).Nodup := by
  rw [namespaceDeclarations, foldl_addDeclaration_nil]
  exact nodup_firstDeclarations _

/-- The declarations that hold at an element give each prefix what a search for it finds. -/
theorem lookup_namespaceDeclarations (hd : d.Sound) (node : Nat) (space : String) :
    (d.namespaceDeclarations node).lookup space = d.namespaceUri? node space := by
  refine Option.ext fun uri => ?_
  rw [namespaceUri?_eq_some hd, ← findSome?_ancestors hd, namespaceDeclarations,
    foldl_addDeclaration_nil, lookup_firstDeclarations, lookup_flatMap]

/-- Declarations of nearer elements stand before those of outer ones. -/
theorem nearest_first_namespaceDeclarations (hd : d.Sound) (node : Nat) :
    (d.namespaceDeclarations node).Pairwise fun near far => ∀ owner owner',
      d.DeclaredBy near.1 node owner → d.DeclaredBy far.1 node owner' →
        owner' ∈ d.ancestors owner := by
  induction node using Nat.strongRecOn with
  | ind node ih =>
    have hbehind : ∀ near ∈ firstDeclarations (d.declarations node), ∀ far owner owner',
        d.DeclaredBy near.1 node owner → d.DeclaredBy far node owner' →
          owner' ∈ d.ancestors owner := by
      intro near hnear far owner owner' howner howner'
      have hnode := howner.eq_self (mem_keys_firstDeclarations.mp (List.mem_map_of_mem hnear))
      rw [hnode]
      exact howner'.mem_ancestors hd
    rw [namespaceDeclarations_eq_overriding hd, overriding, List.pairwise_append]
    refine ⟨?_, ?_, fun near hnear far _ => hbehind near hnear far.1⟩
    · exact List.Pairwise.imp_of_mem (fun hnear _ _ => hbehind _ hnear _)
        (List.pairwise_of_forall fun _ _ => trivial)
    · unfold outerDeclarations
      cases hparent : d.parent? node with
      | none => exact .nil
      | some parent =>
        -- prefixes that the element does not declare are declared by the same elements as around it
        refine List.Pairwise.imp_of_mem ?_
          ((ih parent (hd.parent_lt node parent hparent)).filter _)
        intro near far hnear hfar hpair owner owner' howner howner'
        have hnew := of_decide_eq_true (List.mem_filter.mp hnear).2
        have hnew' := of_decide_eq_true (List.mem_filter.mp hfar).2
        obtain ⟨_, hsame, howner⟩ := howner.of_not_mem hnew
        obtain rfl := Option.some.inj (hparent.symm.trans hsame)
        obtain ⟨_, hsame, howner'⟩ := howner'.of_not_mem hnew'
        obtain rfl := Option.some.inj (hparent.symm.trans hsame)
        exact hpair owner owner' howner howner'

/-! ## Targets behind a prefix -/

/-- What is searched behind every prefix is searched behind each of them with its namespace. -/
theorem filter_flatMap_targetsFor {bindings : List (String × String)}
    (hnodup : (bindings.map Prod.fst).Nodup) (r : ResourceRegistry) (space : String) :
    (bindings.flatMap fun (declared, uri) => targetsFor r uri declared).filter
        (·.space = space) =
      (bindings.lookup space).elim [] fun uri => targetsFor r uri space := by
  induction bindings with
  | nil => rfl
  | cons b bindings ih =>
    obtain ⟨declared, uri⟩ := b
    rw [List.map_cons, List.nodup_cons] at hnodup
    rw [List.flatMap_cons, List.filter_append, ih hnodup.2, List.lookup_cons]
    by_cases hsame : space = declared
    · subst hsame
      have hrest : bindings.lookup space = none := by
        rw [Option.eq_none_iff_forall_ne_some]
        exact fun uri huri => hnodup.1 (mem_keys_iff_lookup.mpr ⟨uri, huri⟩)
      have hall : (targetsFor r uri space).filter (·.space = space) = targetsFor r uri space := by
        simp [targetsFor]
      rw [hall, hrest, BEq.rfl, Option.elim_none, List.append_nil]
      rfl
    · have hnone : (targetsFor r uri declared).filter (·.space = space) = [] := by
        simp [targetsFor, Ne.symm hsame]
      rw [hnone, List.nil_append, beq_eq_false_iff_ne.mpr hsame]

theorem filter_fanOut (hd : d.Sound) (node : Nat) (r : ResourceRegistry) (space : String) :
    (fanOut d node r).filter (·.space = space) =
      (d.namespaceUri? node space).elim [] fun uri => targetsFor r uri space := by
  rw [fanOut, filter_flatMap_targetsFor (nodup_namespaceDeclarations d node),
    lookup_namespaceDeclarations hd]

/-! ## Documents that were parsed -/

/--
The prefixes at an element and what they stand for.

* `distinct`: the declarations that hold there have each prefix once.
* `declared`, `nearest_first`: each is made by an element, which is the nearest one with that
  prefix, and those of nearer elements come first.
* `mem_iff`, `binds`: they are exactly the namespaces that are found for a single prefix, and these
  are what the nearest declarations say.
* `overrides`, `overrides_uri`: what the element declares, of each prefix the first declaration,
  overrides what holds around it.
* `targets`: what is searched for attributes with a prefix, if all prefixes are tried, is what is
  searched if the attribute has it.
-/
structure Scoped (d : Document) (node : Nat) : Prop where
  distinct : ((d.namespaceDeclarations node).map Prod.fst).Nodup
  declared : ∀ b ∈ d.namespaceDeclarations node, ∃ owner, d.DeclaredBy b.1 node owner
  nearest_first : (d.namespaceDeclarations node).Pairwise fun near far => ∀ owner owner',
    d.DeclaredBy near.1 node owner → d.DeclaredBy far.1 node owner' →
      owner' ∈ d.ancestors owner
  mem_iff : ∀ space uri,
    (space, uri) ∈ d.namespaceDeclarations node ↔ d.namespaceUri? node space = some uri
  binds : ∀ space uri, d.namespaceUri? node space = some uri ↔ d.Binds space uri node
  overrides : d.namespaceDeclarations node =
    overriding (d.declarations node) (d.outerDeclarations node)
  overrides_uri : ∀ space, d.namespaceUri? node space =
    ((d.declarations node).lookup space).or
      ((d.parent? node).bind fun parent => d.namespaceUri? parent space)
  targets : ∀ r space, (fanOut d node r).filter (·.space = space) =
    (d.namespaceUri? node space).elim [] fun uri => targetsFor r uri space

/-- **All declarations together say what a search for each prefix says**, at every element of a
document that was parsed. -/
theorem scoped_of_parse {text : String} (h : parse text = .ok d) (node : Nat) : d.Scoped node := by
  have hd := sound_of_parse h
  have hmem : ∀ space uri,
      (space, uri) ∈ d.namespaceDeclarations node ↔ d.namespaceUri? node space = some uri :=
    fun _ _ => (mem_namespaceDeclarations hd).trans (namespaceUri?_eq_some hd).symm
  constructor
  case distinct => exact nodup_namespaceDeclarations d node
  case declared =>
    intro b hb
    exact ((mem_namespaceDeclarations hd).mp hb).exists_declaredBy
  case nearest_first => exact nearest_first_namespaceDeclarations hd node
  case mem_iff => exact hmem
  case binds => exact fun _ _ => namespaceUri?_eq_some hd
  case overrides => exact namespaceDeclarations_eq_overriding hd node
  case overrides_uri =>
    intro space
    rw [← lookup_namespaceDeclarations hd, namespaceDeclarations_eq_overriding hd,
      lookup_overriding, outerDeclarations]
    cases d.parent? node with
    | none => rfl
    | some parent => rw [Option.elim_some, lookup_namespaceDeclarations hd, Option.bind_some]
  case targets => exact filter_fanOut hd node

/-- Prefixes are declared again, twice at one element, and with an empty namespace. -/
def shadowingText : String :=
  "<a xmlns:p='1' xmlns:q='2'><b xmlns:p='' xmlns:r='3' xmlns:p='4'/></a>"

theorem scoped_of_parse_shadowing : ∃ d, parse shadowingText = .ok d ∧
    d.namespaceDeclarations 1 = [("p", ""), ("r", "3"), ("q", "2")] ∧ d.Scoped 1 := by
  have hdeclarations : (parse shadowingText).toOption.map (·.namespaceDeclarations 1) =
      some [("p", ""), ("r", "3"), ("q", "2")] := by
    decide +kernel
  obtain ⟨d, hd, hdeclarations⟩ := Option.map_eq_some_iff.mp hdeclarations
  have hparse := eq_ok_of_toOption hd
  exact ⟨d, hparse, hdeclarations, scoped_of_parse hparse 1⟩

end Document

end LayoutCompletion
