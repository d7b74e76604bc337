import LayoutCompletion.Proofs.Completion.OrderIndependence
import Mathlib.Data.List.Nodup

/-!
# The format that is shown

Candidates that insert the same attribute of the same package are merged into one. They are the same
but for formats, and the one that is left is the one found first (`find?_ranked`): the sort leaves
candidates that tie as they were found, and of neighbours that repeat the first is kept.

So the format of a completion is one that a styleable lists first for the attribute
(`Search.shows_of_find?`). In which order things are found matters only where two styleables do not
list it alike (`completeInBy_formats`).
-/

namespace LayoutCompletion

open Candidate

variable {matcher : Matcher} {widgets : WidgetIndex} {d : Document} {node offset : Nat}
  {s s' : Search} {order order' : Enumeration} {ctx ctx' : CompletionContext} {cursor : Cursor}
  {a b c : Candidate}

/-! ## The first of its kind -/

theorem sameAttribute_congr (h : a.sameAttribute b = true) (c : Candidate) :
    a.sameAttribute c = b.sameAttribute c := by
  obtain ⟨hspace, hname, hpackage⟩ := sameAttribute_iff.mp h
  unfold sameAttribute
  rw [hspace, hname, hpackage]

/-- The sort leaves candidates that tie as they were found. -/
theorem filter_sort {l : List Candidate} {p : Candidate → Bool}
    (hties : ∀ a ∈ l.filter p, ∀ b ∈ l.filter p, precedes a b = true) :
    (l.mergeSort precedes).filter p = l.filter p := by
  have hsorted : (l.filter p).Pairwise fun a b => precedes a b = true :=
    List.pairwise_of_forall_mem_list hties
  have hkept : (l.filter p).Sublist (l.mergeSort precedes) :=
    List.sublist_mergeSort (fun a b c => precedes_trans (a := a) (b := b) (c := c)) precedes_total
      hsorted List.filter_sublist
  have hfiltered := hkept.filter p
  simp only [List.filter_filter, Bool.and_self] at hfiltered
  exact (hfiltered.eq_of_length ((List.mergeSort_perm l _).filter p).length_eq.symm).symm

/-- Of candidates that repeat, the first is kept. -/
theorem find?_dropRepeats (l : List Candidate) (c : Candidate) :
    (dropRepeats l).find? (·.sameAttribute c) = l.find? (·.sameAttribute c) := by
  induction l with
  | nil => rfl
  | cons first rest ih =>
    rw [dropRepeats, List.find?_cons, ← ih]
    cases dropRepeats rest with
    | nil => rfl
    | cons next kept =>
      dsimp only
      split
      · next hsame =>
        rw [List.find?_cons, List.find?_cons, sameAttribute_congr hsame c]
        cases first.sameAttribute c <;> rfl
      · rw [List.find?_cons]

/-- What is left of candidates that insert the same attribute is the one found first. -/
theorem find?_ranked (hd : d.Sound) (settings : CompletionSettings) (c : Candidate) :
    (ranked settings (unskippedBy order ctx matcher d cursor)).find? (·.sameAttribute c) =
      (unskippedBy order ctx matcher d cursor).find? (·.sameAttribute c) := by
  have hsorted : ((unskippedBy order ctx matcher d cursor).mergeSort precedes).find?
      (·.sameAttribute c) = (unskippedBy order ctx matcher d cursor).find? (·.sameAttribute c) := by
    rw [← List.head?_filter, ← List.head?_filter, filter_sort]
    intro a ha b hb
    obtain ⟨ha, hac⟩ := List.mem_filter.mp ha
    obtain ⟨hb, hbc⟩ := List.mem_filter.mp hb
    have hsame : b.sameAttribute a = true := by
      rw [sameAttribute_congr hbc, ← sameAttribute_congr hac]
      exact sameAttribute_self a
    exact precedes_iff.mpr fun hbefore =>
      hbefore.not_ties ((sameAttribute_iff_ties hd hb ha).mp hsame)
  unfold ranked
  dsimp only
  split
  · rw [find?_dropRepeats, hsorted]
  · exact hsorted

/-! ## What a styleable shows -/

/-- The first format that a styleable lists for an attribute of a package. -/
def AttributeGroup.firstFormat? (group : AttributeGroup) (name : String) (package : PackageName) :
    Option AttrFormat :=
  (group.attributes.find? fun a => a.name = name && a.package = package).map (·.format)

/-- A styleable that is searched behind the prefix lists the attribute, first with this format. -/
def Search.Shows (s : Search) (widgets : WidgetIndex) (d : Document) (node : Nat) (space : String)
    (name : String) (package : PackageName) (format : AttrFormat) : Prop :=
  ∃ target ∈ s.targets, target.space = space ∧
    ∃ styleable group, (widgets.resolve d node target.package).get? styleable = some group ∧
      group.firstFormat? name package = some format

/-- All styleables that show a format for the attribute show the same. -/
def Search.Agrees (s : Search) (widgets : WidgetIndex) (d : Document) (node : Nat) (space : String)
    (name : String) (package : PackageName) : Prop :=
  ∀ format format', s.Shows widgets d node space name package format →
    s.Shows widgets d node space name package format' → format = format'

/-- The completions are the same but for formats, and the same if the styleables agree. -/
def Search.Alike (s : Search) (widgets : WidgetIndex) (d : Document) (node : Nat)
    (c c' : Candidate) : Prop :=
  c.bare = c'.bare ∧ (s.Agrees widgets d node c.space c.name c.package → c = c')

theorem Search.Shows.of_perm (htargets : s.targets.Perm s'.targets) {space name : String}
    {package : PackageName} {format : AttrFormat}
    (h : s.Shows widgets d node space name package format) :
    s'.Shows widgets d node space name package format := by
  obtain ⟨target, htarget, hshows⟩ := h
  exact ⟨target, htargets.mem_iff.mp htarget, hshows⟩

/-- Behind the prefix of a candidate, an attribute is of its kind if it has its name and package. -/
theorem any_candidate? {needle : Needle}
    (hmatch : needle.quality matcher c.space c.name ≠ .unmatched) (a : AttributeEntry) :
    (needle.candidate? matcher c.space a).any (·.sameAttribute c) =
      (a.name = c.name && a.package = c.package) := by
  by_cases hname : a.name = c.name
  · rw [Needle.candidate?_eq_some.mpr ⟨hname ▸ hmatch, rfl⟩]
    simp [sameAttribute, hname]
  · simp only [hname, decide_false, Bool.false_and, Option.any_eq_false]
    intro c' hc'
    obtain ⟨-, rfl⟩ := Needle.candidate?_eq_some.mp hc'
    simp [sameAttribute, hname]

/-- The first candidate of its kind in a styleable has the first format that is listed. -/
theorem firstFormat?_of_find? {group : AttributeGroup} {needle : Needle} {space : String}
    (h : (group.attributes.filterMap (needle.candidate? matcher space)).find?
      (·.sameAttribute c) = some c) :
    space = c.space ∧ group.firstFormat? c.name c.package = some c.format := by
  rw [List.find?_filterMap] at h
  obtain ⟨a, ha, hc⟩ := Option.bind_eq_some_iff.mp h
  obtain ⟨hmatch, rfl⟩ := Needle.candidate?_eq_some.mp hc
  refine ⟨rfl, ?_⟩
  simp only [any_candidate? (c := ⟨a.name, space, a.package, a.format, _⟩) hmatch] at ha
  rw [AttributeGroup.firstFormat?, ha]
  rfl

/-- The format of the candidate of its kind that is found first is one that a styleable shows. -/
theorem Search.shows_of_find?
    (h : (s.candidatesBy order matcher widgets d node).find? (·.sameAttribute c) = some c) :
    s.Shows widgets d node c.space c.name c.package c.format := by
  unfold candidatesBy at h
  rw [List.find?_flatMap] at h
  obtain ⟨⟨target, place⟩, hplace, h⟩ := List.exists_of_findSome?_eq_some h
  unfold assemble at h
  rw [List.find?_flatMap] at h
  obtain ⟨group, hgroup, h⟩ := List.exists_of_findSome?_eq_some h
  obtain ⟨hspace, hformat⟩ := firstFormat?_of_find? h
  have htarget : target ∈ s.targets := by
    rw [← List.zipIdx_map_fst 0 s.targets]
    exact List.mem_map_of_mem hplace
  have hgroup : group ∈ (widgets.resolve d node target.package).groups.values :=
    ((order.perm place _).map Prod.snd).mem_iff.mp hgroup
  obtain ⟨styleable, hstyleable⟩ := WidgetIndex.mem_values_resolve.mp hgroup
  exact ⟨target, htarget, hspace, styleable, group, hstyleable, hformat⟩

/-- Leaving out what the element has already leaves out all of one kind, or none. -/
theorem find?_of_find?_withoutPresent {settings : CompletionSettings}
    {attributes : List Attribute} {current : Nat} {l : List Candidate}
    (h : (withoutPresent settings attributes current l).find? (·.sameAttribute c) = some c) :
    l.find? (·.sameAttribute c) = some c := by
  unfold withoutPresent at h
  split at h
  · rw [List.find?_filter] at h
    have hkept := List.find?_some h
    rw [decide_eq_true_eq] at hkept
    rw [← h]
    congr 1
    funext a
    cases hsame : a.sameAttribute c with
    | false => simp
    | true =>
      obtain ⟨hspace, hname, -⟩ := sameAttribute_iff.mp hsame
      have hlabel : a.label = c.label := by rw [label, label, hspace, hname]
      rw [hlabel, decide_eq_true ⟨hkept.1, rfl⟩]
  · exact h

/-! ## The list -/

/-- With repetitions dropped, what is ranked is the first of its kind. -/
theorem find?_of_mem_ranked (hd : d.Sound) {settings : CompletionSettings}
    (hdedup : settings.dedup = true)
    (hc : c ∈ ranked settings (unskippedBy order ctx matcher d cursor)) :
    (unskippedBy order ctx matcher d cursor).find? (·.sameAttribute c) = some c := by
  obtain ⟨k, hk⟩ : ∃ k, (ranked settings (unskippedBy order ctx matcher d cursor)).find?
      (·.sameAttribute c) = some k :=
    Option.isSome_iff_exists.mp (List.find?_isSome.mpr ⟨c, hc, sameAttribute_self c⟩)
  have hkc : k = c := by
    have hsame := List.find?_some hk
    obtain ⟨hspace, hname, hpackage⟩ := sameAttribute_iff.mp hsame
    refine List.inj_on_of_nodup_map (nodup_ranked hd hdedup) (List.mem_of_find?_eq_some hk) hc ?_
    rw [hspace, hname, hpackage]
  rw [← find?_ranked hd settings, hk, hkc]

/-- Every completion has a format that a styleable shows. -/
theorem shows_of_mem_ranked (hd : d.Sound) {settings : CompletionSettings}
    (hdedup : settings.dedup = true)
    (hc : c ∈ ranked settings (unskippedBy order ctx matcher d cursor)) :
    (Search.ofTyped d cursor.node ctx.resources cursor.typed).Shows ctx.widgets d cursor.node
      c.space c.name c.package c.format :=
  Search.shows_of_find? (find?_of_find?_withoutPresent (find?_of_mem_ranked hd hdedup hc))

theorem eq_of_bare_eq (h : a.bare = b.bare) (hformat : a.format = b.format) : a = b := by
  cases a
  cases b
  simp_all [bare]

/-- Candidates that are the same but for formats insert the same attribute. -/
theorem sameAttribute_of_bare_eq (h : a.bare = b.bare) : a.sameAttribute b = true := by
  have hbare : a.bare.sameAttribute b.bare = true := by
    rw [h]
    exact sameAttribute_self b.bare
  exact hbare

/-- Lists that are the same but for formats are so item by item. -/
theorem forall₂_of_map_bare_eq {l l' : List Candidate} {R : Candidate → Candidate → Prop}
    (h : l.map bare = l'.map bare)
    (hR : ∀ c ∈ l, ∀ c' ∈ l', c.bare = c'.bare → R c c') : List.Forall₂ R l l' := by
  rw [← List.forall₂_eq_eq_eq, List.forall₂_map_left_iff, List.forall₂_map_right_iff] at h
  obtain ⟨hlength, hzip⟩ := List.forall₂_iff_zip.mp h
  refine List.forall₂_iff_zip.mpr ⟨hlength, fun {c c'} hpair => ?_⟩
  obtain ⟨hc, hc'⟩ := List.of_mem_zip hpair
  exact hR c hc c' hc' (hzip hpair)

/-- Ranked, what was found in one order and in another is alike. -/
theorem forall₂_ranked (order order' : Enumeration) (matcher : Matcher) (cursor : Cursor)
    (hd : d.Sound) (h : ctx.Reorders ctx') {settings : CompletionSettings}
    (hdedup : settings.dedup = true) :
    List.Forall₂
      ((Search.ofTyped d cursor.node ctx.resources cursor.typed).Alike ctx.widgets d cursor.node)
      (ranked settings (unskippedBy order ctx matcher d cursor))
      (ranked settings (unskippedBy order' ctx' matcher d cursor)) := by
  have hbare := ranked_map_bare_eq hd h settings order order' matcher cursor
  refine forall₂_of_map_bare_eq hbare fun c hc c' hc' hsame => ⟨hsame, fun hagrees => ?_⟩
  -- what is searched in the other context is the same, so its styleables show the same
  have hshows := (shows_of_mem_ranked hd hdedup hc').of_perm
    (Search.ofTyped_perm (d := d) h.resources cursor.node cursor.typed).2.symm
  rw [← h.widgets] at hshows
  obtain ⟨hspace, hname, hpackage⟩ := sameAttribute_iff.mp (sameAttribute_of_bare_eq hsame)
  rw [← hspace, ← hname, ← hpackage] at hshows
  exact eq_of_bare_eq hsame (hagrees _ _ (shows_of_mem_ranked hd hdedup hc) hshows)

/--
**Merging drops what is the same but for formats, and keeps what was found first.**

Whatever the order in which tables are registered, packages are listed and styleables are gone
through, the lists have the same completions in the same order, apart from formats; a format is the
same, too, if all styleables that list the attribute behind this prefix show the same one first. The
request that is made is one of these.
-/
theorem completeInBy_formats {text : String} (hparse : Document.parse text = .ok d)
    (h : ctx.Reorders ctx') (hdedup : ctx.settings.dedup = true) (order order' : Enumeration)
    (offset : Nat) (matcher : Matcher) :
    completeInBy .asFound ctx d offset matcher = completeIn ctx d offset matcher ∧
      ((completeInBy order ctx d offset matcher = .error (.invalidRequest offset) ∧
          completeInBy order' ctx' d offset matcher = .error (.invalidRequest offset)) ∨
        ∃ (cursor : Cursor) (list list' : CompletionList), d.cursor? offset = some cursor ∧
          completeInBy order ctx d offset matcher = .ok list ∧
          completeInBy order' ctx' d offset matcher = .ok list' ∧
          (∀ a ∈ unskippedBy order ctx matcher d cursor,
            ∀ b ∈ unskippedBy order ctx matcher d cursor,
              a.sameAttribute b = true → a.bare = b.bare) ∧
          (∀ c ∈ list.items,
            (unskippedBy order ctx matcher d cursor).find? (·.sameAttribute c) = some c) ∧
          list.isIncomplete = list'.isIncomplete ∧
          List.Forall₂
            ((Search.ofTyped d cursor.node ctx.resources cursor.typed).Alike ctx.widgets d
              cursor.node) list.items list'.items) := by
  refine ⟨rfl, ?_⟩
  have hd := Document.sound_of_parse hparse
  cases hcursor : d.cursor? offset with
  | none =>
    exact Or.inl ⟨completeInBy_of_cursor?_eq_none hcursor, completeInBy_of_cursor?_eq_none hcursor⟩
  | some cursor =>
    have hranked := forall₂_ranked order order' matcher cursor hd h hdedup
    refine Or.inr ⟨cursor, _, _, rfl, completeInBy_of_cursor? hcursor,
      completeInBy_of_cursor? hcursor, fun a ha b hb hsame => ?_, fun c hc => ?_, ?_, ?_⟩
    · exact bare_eq_of_sameAttribute hd ha hb hsame
    · exact find?_of_mem_ranked hd hdedup (List.mem_of_mem_take hc)
    · rw [← h.settings, hranked.length_eq]
    · rw [← h.settings]
      exact List.forall₂_take _ hranked

/-! ## Two tables and one attribute -/

/-- A package that declares one attribute. -/
def iconPackage (format : AttrFormat) : Package :=
  (Package.empty ⟨"lib"⟩).insertStyleable "View" [("icon", format)]

/-- Two tables that hold the package, each with another format. -/
def iconTables : List ResourceTable :=
  [.ofPackages autoUri [iconPackage ⟨1⟩], .ofPackages autoUri [iconPackage ⟨4⟩]]

def iconContext (tables : List ResourceTable) : CompletionContext :=
  ⟨.empty, .ofTables tables, .default⟩

def iconCandidate (format : AttrFormat) : Candidate :=
  ⟨"icon", "a", ⟨"lib"⟩, format, .leading⟩

theorem reorders_iconContext {tables tables' : List ResourceTable} (h : tables.Perm tables') :
    (iconContext tables).Reorders (iconContext tables') where
  widgets := rfl
  settings := rfl
  resources := ResourceRegistry.reorders_of_perm h

/-- Which table comes first does not matter, apart from the format. -/
theorem completeInBy_formats_iconTables :
    ∃ list list' : CompletionList,
      completeInBy .backwards (iconContext iconTables) sampleDocument 71 .camelHumps = .ok list ∧
        completeInBy .asFound (iconContext iconTables.reverse) sampleDocument 71 .camelHumps =
          .ok list' ∧
        List.Forall₂ (fun c c' => c.bare = c'.bare) list.items list'.items := by
  have hcursor := cursor?_sampleDocument
  obtain ⟨-, hnone | ⟨_, list, list', -, hlist, hlist', -, -, -, hsame⟩⟩ :=
    completeInBy_formats parse_sampleText (reorders_iconContext (List.reverse_perm iconTables).symm)
      rfl .backwards .asFound 71 .camelHumps
  · rw [completeInBy_of_cursor? hcursor] at hnone
    cases hnone.1
  · exact ⟨list, list', hlist, hlist', hsame.imp fun _ _ => And.left⟩

/-- If the attribute is found twice, then the first is kept. -/
theorem completeInBy_of_twice {format format' : AttrFormat}
    (hcursor : d.cursor? offset = some cursor) (hsettings : ctx.settings = .default)
    (h : unskippedBy order ctx .camelHumps d cursor =
      [iconCandidate format, iconCandidate format']) :
    completeInBy order ctx d offset = .ok ⟨[iconCandidate format], false⟩ := by
  have hties : precedes (iconCandidate format) (iconCandidate format') = true := by
    have horder : Candidate.order (iconCandidate format) (iconCandidate format') = .eq :=
      order_eq_eq.mpr ⟨rfl, rfl, rfl⟩
    rw [precedes, horder]
    rfl
  have hsorted : [iconCandidate format, iconCandidate format'].Pairwise
      fun a b => precedes a b = true := List.pairwise_pair.mpr hties
  rw [completeInBy_of_cursor? hcursor, h, hsettings, ranked, List.mergeSort_of_pairwise hsorted]
  rfl

/-- Both formats are found, one is kept, and which one depends on the order of the tables. -/
theorem completeIn_iconTables :
    Document.parse sampleText = .ok sampleDocument ∧
      (iconContext iconTables).Reorders (iconContext iconTables.reverse) ∧
      (iconContext iconTables).settings.dedup = true ∧
      unskippedBy .asFound (iconContext iconTables) .camelHumps sampleDocument
        ⟨0, 2, ['a', ':', 'i']⟩ = [iconCandidate ⟨1⟩, iconCandidate ⟨4⟩] ∧
      (iconCandidate ⟨1⟩).sameAttribute (iconCandidate ⟨4⟩) = true ∧
      iconCandidate ⟨1⟩ ≠ iconCandidate ⟨4⟩ ∧
      completeIn (iconContext iconTables) sampleDocument 71 = .ok ⟨[iconCandidate ⟨1⟩], false⟩ ∧
      completeIn (iconContext iconTables.reverse) sampleDocument 71 =
        .ok ⟨[iconCandidate ⟨4⟩], false⟩ := by
  have hfound : unskippedBy .asFound (iconContext iconTables) .camelHumps sampleDocument
      ⟨0, 2, ['a', ':', 'i']⟩ = [iconCandidate ⟨1⟩, iconCandidate ⟨4⟩] := by
    rw [sampleDocument_eq]
    decide +kernel
  have hfound' : unskippedBy .asFound (iconContext iconTables.reverse) .camelHumps sampleDocument
      ⟨0, 2, ['a', ':', 'i']⟩ = [iconCandidate ⟨4⟩, iconCandidate ⟨1⟩] := by
    rw [sampleDocument_eq]
    decide +kernel
  have hcursor := cursor?_sampleDocument
  exact ⟨parse_sampleText, reorders_iconContext (List.reverse_perm _).symm, rfl, hfound, by decide,
    by decide, completeInBy_of_twice hcursor rfl hfound, completeInBy_of_twice hcursor rfl hfound'⟩

end LayoutCompletion
