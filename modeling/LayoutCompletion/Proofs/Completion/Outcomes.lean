import LayoutCompletion.Proofs.Completion.Formats

/-!
# One request in two orders

A request may go through styleables in any order, and when it is made again, in another one. Both
times it fails with the same error, or gives lists that are the same but for formats
(`completeInBy_alike`, `completeBy_alike`). A format is the same, too, if the styleables that list
its attribute leave no choice (`Search.Settles`); else it may differ (`not_completeInBy_eq`).
-/

namespace LayoutCompletion

open Candidate

variable {order : Enumeration} {ctx : CompletionContext} {matcher : Matcher} {d : Document}
  {node : Nat} {s : Search} {widgets : WidgetIndex} {cursor : Cursor} {c : Candidate}

/-! ## Formats that are settled -/

/-- A styleable that is searched behind the prefix lists the attribute with this format. -/
def Search.Lists (s : Search) (widgets : WidgetIndex) (d : Document) (node : Nat) (space : String)
    (name : String) (package : PackageName) (format : AttrFormat) : Prop :=
  ∃ target ∈ s.targets, target.space = space ∧
    ∃ styleable group, (widgets.resolve d node target.package).get? styleable = some group ∧
      ⟨name, package, format⟩ ∈ group.attributes

/--
The attribute comes with the same formats, whatever the order of the styleables.

With repetitions dropped, the styleables that list it all show the same format first. With them, it
is listed with one format only.
-/
def Search.Settles (s : Search) (dedup : Bool) (widgets : WidgetIndex) (d : Document) (node : Nat)
    (space : String) (name : String) (package : PackageName) : Prop :=
  match dedup with
  | true => s.Agrees widgets d node space name package
  | false => ∀ format format', s.Lists widgets d node space name package format →
      s.Lists widgets d node space name package format' → format = format'

theorem Search.lists_of_mem (h : c ∈ s.candidatesBy order matcher widgets d node) :
    s.Lists widgets d node c.space c.name c.package c.format := by
  obtain ⟨package, styleable, group, a, ha, htarget, hgroup, hname, hpackage, hformat, -, -⟩ :=
    Search.mem_candidatesBy.mp h
  rw [hname, hpackage, hformat]
  exact ⟨_, htarget, rfl, styleable, group, hgroup, ha⟩

/-- At the cursor, the two are the same completion but for the format, and the same if the format
is settled. -/
def Cursor.Alike (cursor : Cursor) (ctx : CompletionContext) (d : Document)
    (c c' : Candidate) : Prop :=
  c.bare = c'.bare ∧
    ((Search.ofTyped d cursor.node ctx.resources cursor.typed).Settles ctx.settings.dedup
      ctx.widgets d cursor.node c.space c.name c.package → c = c')

/-- Ranked, what was found in two orders is alike. -/
theorem forall₂_alike_ranked (hd : d.Sound) (order order' : Enumeration) (ctx : CompletionContext)
    (matcher : Matcher) (cursor : Cursor) :
    List.Forall₂ (cursor.Alike ctx d)
      (ranked ctx.settings (unskippedBy order ctx matcher d cursor))
      (ranked ctx.settings (unskippedBy order' ctx matcher d cursor)) := by
  have hsame := CompletionContext.Reorders.refl ctx
  unfold Cursor.Alike
  cases hdedup : ctx.settings.dedup with
  | true => exact forall₂_ranked order order' matcher cursor hd hsame hdedup
  | false =>
    have hlists {order : Enumeration} {c : Candidate}
        (hc : c ∈ ranked ctx.settings (unskippedBy order ctx matcher d cursor)) :=
      Search.lists_of_mem (mem_of_mem_unskippedBy (mem_of_mem_ranked hc))
    refine forall₂_of_map_bare_eq (ranked_map_bare_eq hd hsame _ order order' matcher cursor)
      fun c hc c' hc' hbare => ⟨hbare, fun hsettled => eq_of_bare_eq hbare ?_⟩
    have hlists' := hlists hc'
    obtain ⟨hspace, hname, hpackage⟩ := sameAttribute_iff.mp (sameAttribute_of_bare_eq hbare)
    rw [← hspace, ← hname, ← hpackage] at hlists'
    exact hsettled _ _ (hlists hc) hlists'

/-! ## Outcomes -/

/--
Two requests at one place of a document have the same outcome but for formats.

* `failed`: both fail with one error.
* `listed`: the lists have the same completions in the same order, apart from formats that are not
  settled, and tell the same about what the limit cut off.
-/
inductive AlikeAt (ctx : CompletionContext) (d : Document) (offset : Nat) :
    Except CompletionError CompletionList → Except CompletionError CompletionList → Prop
  | failed (e : CompletionError) : AlikeAt ctx d offset (.error e) (.error e)
  | listed {cursor : Cursor} {list list' : CompletionList} :
    d.cursor? offset = some cursor → list.isIncomplete = list'.isIncomplete →
      List.Forall₂ (cursor.Alike ctx d) list.items list'.items →
      AlikeAt ctx d offset (.ok list) (.ok list')

/--
Two requests at one place of a text have the same outcome but for formats.

* `failed`: both fail with one error.
* `read`: they are made for the same document, which is read with the marker in the text.
-/
inductive AlikeIn (ctx : CompletionContext) (text : String) (offset : Nat) :
    Except CompletionError CompletionList → Except CompletionError CompletionList → Prop
  | failed (e : CompletionError) : AlikeIn ctx text offset (.error e) (.error e)
  | read {request : CompletionRequest} {d : Document}
      {outcome outcome' : Except CompletionError CompletionList} :
    CompletionRequest.prepare text offset = .ok request →
      Document.parseChars request.text = .ok d → AlikeAt ctx d request.offset outcome outcome' →
      AlikeIn ctx text offset outcome outcome'

/-- In any two orders, a request for a document has the same outcome but for formats. -/
theorem completeInBy_alike (hd : d.Sound) (order order' : Enumeration) (ctx : CompletionContext)
    (offset : Nat) (matcher : Matcher) :
    AlikeAt ctx d offset (completeInBy order ctx d offset matcher)
      (completeInBy order' ctx d offset matcher) := by
  cases hcursor : d.cursor? offset with
  | none =>
    rw [completeInBy_of_cursor?_eq_none hcursor, completeInBy_of_cursor?_eq_none hcursor]
    exact .failed _
  | some cursor =>
    have hranked := forall₂_alike_ranked hd order order' ctx matcher cursor
    rw [completeInBy_of_cursor? hcursor, completeInBy_of_cursor? hcursor]
    refine .listed hcursor ?_ (List.forall₂_take _ hranked)
    rw [hranked.length_eq]

/-- An element of a class that no table knows, with the first letter of an attribute. -/
def unknownView : Document where
  elements := #[{
    tag := "lib.Icon"
    span := ⟨0, 68⟩
    attributes := [⟨"xmlns", "a", autoUri, ⟨10, 17⟩, ⟨10, 59⟩⟩,
      ⟨"a", "i", "", ⟨60, 63⟩, ⟨60, 66⟩⟩]
    parent := none
    children := [] }]

/-- Two styleables that apply to it list one attribute, each with a format of its own. -/
def clashingContext : CompletionContext where
  widgets := .empty
  resources := .ofTables [.ofPackages autoUri
    [((Package.empty ⟨"lib"⟩).insertStyleable "View" [("icon", ⟨1⟩)]).insertStyleable "Icon"
      [("icon", ⟨4⟩)]]]
  settings := .default

/-- The format that is shown may be another one in another order. -/
theorem not_completeInBy_eq :
    ¬∀ (order order' : Enumeration) (ctx : CompletionContext) (d : Document) (offset : Nat),
      completeInBy order ctx d offset = completeInBy order' ctx d offset := by
  intro hall
  have hcursor : unknownView.cursor? 63 = some ⟨0, 1, ['a', ':', 'i']⟩ := by decide
  have hfound : unskippedBy .asFound clashingContext .camelHumps unknownView
      ⟨0, 1, ['a', ':', 'i']⟩ = [iconCandidate ⟨1⟩, iconCandidate ⟨4⟩] := by
    decide +kernel
  have hfound' : unskippedBy .backwards clashingContext .camelHumps unknownView
      ⟨0, 1, ['a', ':', 'i']⟩ = [iconCandidate ⟨4⟩, iconCandidate ⟨1⟩] := by
    decide +kernel
  have hsame := hall .asFound .backwards clashingContext unknownView 63
  rw [completeInBy_of_twice hcursor rfl hfound, completeInBy_of_twice hcursor rfl hfound'] at hsame
  exact absurd hsame (by decide)

/-- In any two orders, a request for a text has the same outcome but for formats. -/
theorem completeBy_alike (order order' : Enumeration) (ctx : CompletionContext) (text : String)
    (offset : Nat) (matcher : Matcher) :
    AlikeIn ctx text offset (completeBy order ctx text offset matcher)
      (completeBy order' ctx text offset matcher) := by
  unfold completeBy completeCharsBy
  cases hprepare : CompletionRequest.prepareChars text.toList offset with
  | error e => exact .failed _
  | ok request =>
    dsimp only
    cases hparse : Document.parseChars request.text with
    | error e => exact .failed _
    | ok d =>
      have hd := Document.sound_of_parse ((Document.parse_ofList _).trans hparse)
      exact .read hprepare hparse (completeInBy_alike hd order order' ctx _ matcher)

end LayoutCompletion
