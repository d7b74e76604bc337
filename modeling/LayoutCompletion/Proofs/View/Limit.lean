import LayoutCompletion.Proofs.View.Recursion
import Mathlib.Logic.Relation

/-!
# Includes up to the limit

However layouts include one another, the view of a document has no more than `maxIncludeDepth` of
them in one another, and no include is left in it that could have been replaced
(`Document.view?_finishes`). Whether the limit can be reached at all is a matter of the rows in
which layouts include one another, and these can be checked (`Layouts.chainsBelow_iff`).

To say so of each element in a view, `Layouts.PartAt` goes down in the view and in the documents at
the same time. The part that it finds at a site is the view there (`Layouts.Shows`) apart from
attributes, for an include that is replaced sets its own on the root of its layout, over any number
of layouts.
-/

namespace LayoutCompletion

open Relation (ReflTransGen)

/-! ## Views in one another -/

namespace View

variable {view : View} {views : List View} {bound : Nat}

mutual

/-- How many views are in one another that stand for layouts. -/
def nesting : View → Nat
  | .element _ _ children => nestingAll children
  | .included root => root.nesting + 1

/-- How many views are in one another that stand for layouts, in any of the views. -/
def nestingAll : List View → Nat
  | [] => 0
  | view :: views => max view.nesting (nestingAll views)

end

theorem nestingAll_le (h : ∀ view ∈ views, view.nesting ≤ bound) : nestingAll views ≤ bound := by
  induction views with
  | nil => exact Nat.zero_le bound
  | cons view views ih =>
    have hrest := ih fun v hv => h v (List.mem_cons_of_mem view hv)
    exact max_le (h view List.mem_cons_self) hrest

/-- The view without the attributes of the element that it shows. -/
def bare : View → View
  | .element tag _ children => .element tag [] children
  | .included root => .included root.bare

theorem bare_applyAttribute (name value : String) (view : View) :
    (view.applyAttribute name value).bare = view.bare := by
  induction view using bare.induct with
  | case1 tag attributes children => rfl
  | case2 root ih => rw [applyAttribute, bare, bare, ih]

/-- Whatever is set on a view, the rest of it stays. -/
theorem bare_applyAll (view : View) (p : Attribute → Bool) (attributes : List Attribute) :
    (view.applyAll p attributes).bare = view.bare := by
  unfold applyAll
  induction (attributes.filter fun a => !a.isNamespaceDeclaration && p a) generalizing view with
  | nil => rfl
  | cons a rest ih => rw [List.foldl_cons, ih, bare_applyAttribute]

theorem nesting_bare (view : View) : view.bare.nesting = view.nesting := by
  induction view using bare.induct with
  | case1 tag attributes children => rw [bare, nesting, nesting]
  | case2 root ih => rw [bare, nesting, nesting, ih]

theorem nesting_applyAll (view : View) (p : Attribute → Bool) (attributes : List Attribute) :
    (view.applyAll p attributes).nesting = view.nesting := by
  rw [← nesting_bare, bare_applyAll, nesting_bare]

end View

/-! ## Includes that stay -/

/-- The first attribute of the element that may name a layout has this value. -/
def Document.RefersTo (d : Document) (node : Nat) (value : String) : Prop :=
  ∃ before a after, d.attributes node = before ++ a :: after ∧
    (∀ b ∈ before, b.name ≠ layoutAttribute) ∧ a.name = layoutAttribute ∧ a.value = value

theorem Document.refersTo_or_unnamed (d : Document) (node : Nat) :
    (∃ value, d.RefersTo node value) ∨ ∀ a ∈ d.attributes node, a.name ≠ layoutAttribute := by
  cases hfind : (d.attributes node).find? (·.name = layoutAttribute) with
  | none =>
    right
    simpa using hfind
  | some a =>
    left
    obtain ⟨hname, before, after, hsplit, hbefore⟩ := List.find?_eq_some_iff_append.mp hfind
    exact ⟨a.value, before, a, after, hsplit, by simpa using hbefore, by simpa using hname, rfl⟩

namespace Layouts

variable {layouts : Layouts} {s t : Site} {d inner : Document} {depth node root : Nat}
  {view part : View}

/--
Why an include is not replaced.

* `unnamed`, `noReference`: it has no attribute for a layout, or the first one refers to none.
* `unknown`, `empty`: no layout has the name, or the one that has it is without a root.
* `tooDeep`: as many includes around it were replaced as may be.
-/
inductive Stays (layouts : Layouts) : Site → Prop
  | unnamed {depth node : Nat} {d : Document} :
    (∀ a ∈ d.attributes node, a.name ≠ layoutAttribute) → Stays layouts ⟨depth, d, node⟩
  | noReference {depth node : Nat} {d : Document} {value : String} :
    d.RefersTo node value → (∀ name, value ≠ layoutReference ++ name) →
      Stays layouts ⟨depth, d, node⟩
  | unknown {depth node : Nat} {d : Document} {name : String} :
    d.RefersTo node (layoutReference ++ name) → layouts.get? name = none →
      Stays layouts ⟨depth, d, node⟩
  | empty {depth node : Nat} {d inner : Document} {name : String} :
    d.RefersTo node (layoutReference ++ name) → layouts.get? name = some inner → inner.size = 0 →
      Stays layouts ⟨depth, d, node⟩
  | tooDeep {node : Nat} {d : Document} : Stays layouts ⟨maxIncludeDepth, d, node⟩

theorem stays_of_not_replaces (hdepth : depth ≤ maxIncludeDepth) (htag : d.tag node = includeTag)
    (h : ∀ inner root, ¬layouts.Replaces depth d node inner root) :
    layouts.Stays ⟨depth, d, node⟩ := by
  rcases Nat.eq_or_lt_of_le hdepth with rfl | hdepth
  · exact .tooDeep
  rcases d.refersTo_or_unnamed node with ⟨value, hvalue⟩ | hnone
  · by_cases hreference : ∃ name, value = layoutReference ++ name
    · obtain ⟨name, rfl⟩ := hreference
      cases hinner : layouts.get? name with
      | none => exact .unknown hvalue hinner
      | some inner =>
        refine .empty hvalue hinner (Nat.eq_zero_of_not_pos fun hsize => ?_)
        have hroot := Document.root?_eq_some.mpr ⟨rfl, hsize⟩
        exact h inner 0 ⟨hdepth, name, ⟨htag, hvalue⟩, hinner, hroot⟩
    · exact .noReference hvalue fun name hname => hreference ⟨name, hname⟩
  · exact .unnamed hnone

/-- From the document, includes lead through so many layouts in a row, each in the one before. -/
inductive Chain (layouts : Layouts) : Document → Nat → Prop
  | nil {d : Document} : Chain layouts d 0
  | cons {d inner : Document} {node root length : Nat} :
    layouts.Resolves d node inner root → Chain layouts inner length →
      Chain layouts d (length + 1)

/-- The layout of which the root is to replace the element, none if the element is no include or the
layout is not there. -/
def resolved? (layouts : Layouts) (d : Document) (node : Nat) : Option Document :=
  if d.tag node = includeTag then
    ((includedName? (d.attributes node)).bind layouts.get?).filter (!·.isEmpty)
  else none

theorem resolved?_eq_some : layouts.resolved? d node = some inner ↔
    ∃ root, layouts.Resolves d node inner root := by
  have hroot : inner.isEmpty = false ↔ ∃ root, inner.root? = some root := by
    simp [Document.root?]
  unfold resolved?
  split
  · next htag =>
    rw [Option.filter_eq_some_iff, Option.bind_eq_some_iff, Bool.not_eq_true', hroot]
    constructor
    · rintro ⟨⟨name, hname, hinner⟩, root, hroot⟩
      exact ⟨root, name, Document.includes_iff.mpr ⟨htag, hname⟩, hinner, hroot⟩
    · rintro ⟨root, name, hincludes, hinner, hroot⟩
      exact ⟨⟨name, (Document.includes_iff.mp hincludes).2, hinner⟩, root, hroot⟩
  · next htag =>
    refine ⟨nofun, ?_⟩
    rintro ⟨root, name, hincludes, -, -⟩
    exact absurd hincludes.1 htag

/-- Are rows of layouts from the document shorter than the bound? -/
def chainsBelow (layouts : Layouts) : Nat → Document → Bool
  | 0, _ => false
  | bound + 1, d => d.nodes.all fun node =>
    (layouts.resolved? d node).all (layouts.chainsBelow bound)

theorem Resolves.mem_nodes (h : layouts.Resolves d node inner root) : node ∈ d.nodes := by
  obtain ⟨name, ⟨htag, -⟩, -, -⟩ := h
  rw [Document.nodes, List.mem_range]
  by_contra hnode
  have hnone : d.elements[node]? = none := Array.getElem?_eq_none (Nat.le_of_not_lt hnode)
  rw [Document.tag, hnone] at htag
  exact absurd htag (by decide)

theorem chainsBelow_iff {bound : Nat} : layouts.chainsBelow bound d = true ↔
    ∀ length, layouts.Chain d length → length < bound := by
  induction bound generalizing d with
  | zero => exact ⟨nofun, fun h => absurd (h 0 .nil) (Nat.lt_irrefl 0)⟩
  | succ bound ih =>
    rw [chainsBelow, List.all_eq_true]
    constructor
    · intro h length hchain
      cases hchain with
      | nil => exact Nat.succ_pos bound
      | cons hresolves hrest =>
        have hall := h _ hresolves.mem_nodes
        rw [resolved?_eq_some.mpr ⟨_, hresolves⟩] at hall
        exact Nat.succ_lt_succ (ih.mp hall _ hrest)
    · intro h node _
      cases hinner : layouts.resolved? d node with
      | none => rfl
      | some inner =>
        obtain ⟨root, hresolves⟩ := resolved?_eq_some.mp hinner
        exact ih.mpr fun length hrest => Nat.lt_of_succ_lt_succ (h _ (.cons hresolves hrest))

instance {bound : Nat} : Decidable (∀ length, layouts.Chain d length → length ≤ bound) :=
  decidable_of_iff (layouts.chainsBelow (bound + 1) d = true)
    (chainsBelow_iff.trans (forall₂_congr fun _ _ => Nat.lt_succ_iff))

/-- A layout that includes itself is in rows of any length. -/
example : ¬∀ length, nestedLayouts.Chain (documentOf outerText) length →
    length ≤ maxIncludeDepth := by
  decide +kernel

/-! ## Parts of a view -/

/--
A part of the view of the first site, and the site of the element that it shows.

* `whole`: the view itself shows the element of the first site.
* `inside`: what stands for a layout has in it the part that shows the root of the layout.
* `child`: what shows an element has in it parts that show the children, in the same order.
-/
inductive PartAt (layouts : Layouts) (start : Site) (view : View) : Site → View → Prop
  | whole : PartAt layouts start view start view
  | inside {depth node root : Nat} {d inner : Document} {part : View} :
    PartAt layouts start view ⟨depth, d, node⟩ (.included part) →
      layouts.Resolves d node inner root →
      PartAt layouts start view ⟨depth + 1, inner, root⟩ part
  | child {depth node child : Nat} {d : Document} {tag : String}
      {attributes : List (String × String)} {views : List View} {part : View} :
    PartAt layouts start view ⟨depth, d, node⟩ (.element tag attributes views) →
      (child, part) ∈ (d.children node).zip views →
      PartAt layouts start view ⟨depth, d, child⟩ part

/-- The view is that of the element, apart from what has been set on it. -/
structure Shows (layouts : Layouts) (s : Site) (part : View) : Prop where
  sound : s.Sound
  bare : ∃ view, layouts.viewAt? s = some view ∧ part.bare = view.bare

/-- What stands for a layout shows an include that was replaced, and has the view of its root in
it. -/
theorem Shows.included (hlayouts : layouts.AreTrees)
    (h : layouts.Shows ⟨depth, d, node⟩ (.included part)) :
    ∃ inner root, layouts.Replaces depth d node inner root ∧
      layouts.Shows ⟨depth + 1, inner, root⟩ part := by
  obtain ⟨view, hview, hbare⟩ := h.bare
  rcases viewAt?_cases hlayouts h.sound hview with
    ⟨inner, root, shown, hreplaces, hshown, rfl⟩ | ⟨-, views, -, rfl⟩
  · rw [View.bare_applyAll] at hbare
    exact ⟨inner, root, hreplaces, hreplaces.sound hlayouts, shown, hshown,
      View.included.inj hbare⟩
  · rw [View.bare_applyAll] at hbare
    cases hbare

/-- What shows an element shows one that is not replaced, and has the views of its children in
it. -/
theorem Shows.element {tag : String} {attributes : List (String × String)} {views : List View}
    (hlayouts : layouts.AreTrees)
    (h : layouts.Shows ⟨depth, d, node⟩ (.element tag attributes views)) :
    (∀ inner root, ¬layouts.Replaces depth d node inner root) ∧ tag = d.tag node ∧
      List.Forall₂ (fun child part => layouts.Shows ⟨depth, d, child⟩ part) (d.children node)
        views := by
  obtain ⟨view, hview, hbare⟩ := h.bare
  rcases viewAt?_cases hlayouts h.sound hview with
    ⟨inner, root, shown, -, -, rfl⟩ | ⟨hnot, shown, hshown, rfl⟩
  · rw [View.bare_applyAll] at hbare
    cases hbare
  · rw [View.bare_applyAll] at hbare
    obtain ⟨htag, -, rfl⟩ := View.element.inj hbare
    refine ⟨hnot, htag, List.forall₂_iff_zip.mpr ⟨hshown.length_eq, fun {child part} hmem => ?_⟩⟩
    have hleads := Leads.child hnot (List.of_mem_zip hmem).1
    have hpart := (List.forall₂_iff_zip.mp hshown).2 hmem
    exact ⟨hleads.sound hlayouts h.sound, part, hpart, rfl⟩

theorem PartAt.shows {start : Site} (hlayouts : layouts.AreTrees)
    (h : layouts.PartAt start view s part) (hstart : layouts.Shows start view) :
    layouts.Shows s part := by
  induction h with
  | whole => exact hstart
  | inside _ hresolves ih =>
    obtain ⟨inner, root, hreplaces, hshows⟩ := ih.included hlayouts
    have hreplaces' := replaces_iff.mpr ⟨hreplaces.1, hresolves⟩
    obtain ⟨rfl, rfl⟩ := hreplaces.unique hreplaces'
    exact hshows
  | child _ hmem ih =>
    obtain ⟨-, -, hviews⟩ := ih.element hlayouts
    exact (List.forall₂_iff_zip.mp hviews).2 hmem

/-- Each part is at a site to which the recursion comes. -/
theorem PartAt.reached {start : Site} (hlayouts : layouts.AreTrees)
    (h : layouts.PartAt start view s part) (hstart : layouts.Shows start view) :
    ReflTransGen layouts.Leads start s := by
  induction h with
  | whole => exact .refl
  | inside hpart hresolves ih =>
    obtain ⟨inner, root, hreplaces, -⟩ := (hpart.shows hlayouts hstart).included hlayouts
    exact ih.tail (.into (replaces_iff.mpr ⟨hreplaces.1, hresolves⟩))
  | child hpart hmem ih =>
    obtain ⟨hnot, -, -⟩ := (hpart.shows hlayouts hstart).element hlayouts
    exact ih.tail (.child hnot (List.of_mem_zip hmem).1)

theorem exists_mem_zip_of_mem_left {α β : Type} {xs : List α} {ys : List β} {x : α}
    (h : xs.length = ys.length) (hx : x ∈ xs) : ∃ y, (x, y) ∈ xs.zip ys := by
  rw [← List.map_fst_zip (Nat.le_of_eq h)] at hx
  simpa using hx

theorem exists_mem_zip_of_mem_right {α β : Type} {xs : List α} {ys : List β} {y : β}
    (h : xs.length = ys.length) (hy : y ∈ ys) : ∃ x, (x, y) ∈ xs.zip ys := by
  rw [← List.map_snd_zip (Nat.le_of_eq h.symm)] at hy
  simpa using hy

/-- Wherever the recursion comes, there is a part for it. -/
theorem exists_partAt {start : Site} (hlayouts : layouts.AreTrees)
    (hstart : layouts.Shows start view) (h : ReflTransGen layouts.Leads start s) :
    ∃ part, layouts.PartAt start view s part := by
  induction h with
  | refl => exact ⟨view, .whole⟩
  | tail _ hleads ih =>
    obtain ⟨part, hpart⟩ := ih
    have hshows := hpart.shows hlayouts hstart
    cases hleads with
    | into hreplaces =>
      cases part with
      | included part => exact ⟨part, hpart.inside hreplaces.2⟩
      | element tag attributes views =>
        obtain ⟨hnot, -, -⟩ := hshows.element hlayouts
        exact absurd hreplaces (hnot _ _)
    | child hnot hchild =>
      cases part with
      | included part =>
        obtain ⟨inner, root, hreplaces, -⟩ := hshows.included hlayouts
        exact absurd hreplaces (hnot inner root)
      | element tag attributes views =>
        obtain ⟨-, -, hviews⟩ := hshows.element hlayouts
        obtain ⟨part, hmem⟩ := exists_mem_zip_of_mem_left hviews.length_eq hchild
        exact ⟨part, hpart.child hmem⟩

/-- Includes that were replaced around a part are in a row with those that come behind it. -/
theorem PartAt.chain {start : Site} {length : Nat} (h : layouts.PartAt start view s part)
    (hstart : start.depth = 0) (hchain : layouts.Chain s.document length) :
    layouts.Chain start.document (s.depth + length) := by
  induction h generalizing length with
  | whole => rwa [hstart, Nat.zero_add]
  | inside _ hresolves ih =>
    rw [Nat.add_assoc, Nat.add_comm 1]
    exact ih (.cons hresolves hchain)
  | child _ _ ih => exact ih hchain

/-- Around a view there are so many replaced includes that with those in it they do not exceed the
limit. -/
theorem nesting_viewAt?_le (hlayouts : layouts.AreTrees) (hs : s.Sound)
    (h : layouts.viewAt? s = some view) : s.depth + view.nesting ≤ maxIncludeDepth := by
  -- the view is made from those at the sites to which this one leads
  have hacc := acc_leads hlayouts hs
  induction hacc generalizing view with
  | intro s _ ih =>
    obtain ⟨depth, d, node⟩ := s
    rcases viewAt?_cases hlayouts hs h with
      ⟨inner, root, shown, hreplaces, hshown, rfl⟩ | ⟨hnot, views, hviews, rfl⟩
    · have hinside : depth + 1 + shown.nesting ≤ maxIncludeDepth :=
        ih _ (.into hreplaces) (hreplaces.sound hlayouts) hshown
      rw [View.nesting_applyAll, View.nesting]
      show depth + (shown.nesting + 1) ≤ maxIncludeDepth
      omega
    · have hdepth : depth ≤ maxIncludeDepth := hs.depth_le
      have hinside : View.nestingAll views ≤ maxIncludeDepth - depth := by
        refine View.nestingAll_le fun part hpart => ?_
        obtain ⟨child, hmem⟩ := exists_mem_zip_of_mem_right hviews.length_eq hpart
        have hleads := Leads.child hnot (List.of_mem_zip hmem).1
        have hchild : depth + part.nesting ≤ maxIncludeDepth :=
          ih _ hleads (hleads.sound hlayouts hs) ((List.forall₂_iff_zip.mp hviews).2 hmem)
        omega
      rw [View.nesting_applyAll, View.nesting]
      show depth + View.nestingAll views ≤ maxIncludeDepth
      omega

/-! ## The view of a document -/

/-- The view is finished, with all includes replaced that may be. -/
structure Finishes (layouts : Layouts) (start : Site) (view : View) : Prop where
  /-- Wherever the recursion comes, it goes on to sites of smaller measure. -/
  measure_lt : ∀ s t, ReflTransGen layouts.Leads start s → layouts.Leads s t →
    Prod.Lex (· < ·) (· < ·) t.measure s.measure
  accessible : Acc (fun t s => layouts.Leads s t) start
  reached_iff : ∀ s, ReflTransGen layouts.Leads start s ↔ ∃ part, layouts.PartAt start view s part
  nesting_le : view.nesting ≤ maxIncludeDepth
  depth_le : ∀ s part, layouts.PartAt start view s part → s.depth ≤ maxIncludeDepth
  included : ∀ s part, layouts.PartAt start view s (.included part) →
    ∃ inner root, layouts.Replaces s.depth s.document s.node inner root
  element : ∀ s tag attributes views,
    layouts.PartAt start view s (.element tag attributes views) →
      tag = s.document.tag s.node ∧ views.length = (s.document.children s.node).length
  /-- An include that is left has a reason to stay. -/
  stays : ∀ s attributes views,
    layouts.PartAt start view s (.element includeTag attributes views) → layouts.Stays s
  /-- None is left for which there is a layout, if layouts are not in longer rows than the limit. -/
  none_left : (∀ length, layouts.Chain start.document length → length ≤ maxIncludeDepth) →
    ∀ s tag attributes views, layouts.PartAt start view s (.element tag attributes views) →
      ∀ inner root, ¬layouts.Resolves s.document s.node inner root

theorem finishes_of_viewAt? (hlayouts : layouts.AreTrees) (hs : s.Sound) (hdepth : s.depth = 0)
    (h : layouts.viewAt? s = some view) : layouts.Finishes s view := by
  have hstart : layouts.Shows s view := ⟨hs, view, h, rfl⟩
  have hsound : ∀ t, ReflTransGen layouts.Leads s t → t.Sound := by
    intro t hreached
    induction hreached with
    | refl => exact hs
    | tail _ hleads ih => exact hleads.sound hlayouts ih
  have helement : ∀ t tag attributes views,
      layouts.PartAt s view t (.element tag attributes views) →
        (∀ inner root, ¬layouts.Replaces t.depth t.document t.node inner root) ∧
        tag = t.document.tag t.node ∧ views.length = (t.document.children t.node).length := by
    intro t tag attributes views hpart
    obtain ⟨hnot, htag, hviews⟩ := (hpart.shows hlayouts hstart).element hlayouts
    exact ⟨hnot, htag, hviews.length_eq.symm⟩
  have hdepth_le : ∀ t part, layouts.PartAt s view t part → t.depth ≤ maxIncludeDepth :=
    fun t part hpart => (hpart.shows hlayouts hstart).sound.depth_le
  constructor
  case measure_lt => exact fun t u hreached hleads => hleads.measure_lt (hsound t hreached)
  case accessible => exact acc_leads hlayouts hs
  case reached_iff =>
    intro t
    constructor
    · exact exists_partAt hlayouts hstart
    · rintro ⟨part, hpart⟩
      exact hpart.reached hlayouts hstart
  case nesting_le =>
    have hnesting := nesting_viewAt?_le hlayouts hs h
    omega
  case depth_le => exact hdepth_le
  case included =>
    intro t part hpart
    obtain ⟨inner, root, hreplaces, -⟩ := (hpart.shows hlayouts hstart).included hlayouts
    exact ⟨inner, root, hreplaces⟩
  case element => exact fun t tag attributes views hpart => (helement t _ _ _ hpart).2
  case stays =>
    intro t attributes views hpart
    obtain ⟨hnot, htag, -⟩ := helement t _ _ _ hpart
    exact stays_of_not_replaces (hdepth_le t _ hpart) htag.symm hnot
  case none_left =>
    intro hchains t tag attributes views hpart inner root hresolves
    obtain ⟨hnot, -, -⟩ := helement t _ _ _ hpart
    -- at the limit, this include would make the row longer by one
    have hlonger := hchains _ (hpart.chain hdepth (.cons hresolves .nil))
    exact hnot inner root (replaces_iff.mpr ⟨hlonger, hresolves⟩)

end Layouts

/--
**Includes are replaced up to the limit, which is eight, and there is an end to it**, for every
document and all layouts, which may include themselves and one another any number of times.
-/
theorem Document.view?_finishes {layouts : Layouts} {d : Document} {text : String}
    (hparse : parse text = .ok d)
    (hlayouts : ∀ name inner, layouts.get? name = some inner → ∃ text, parse text = .ok inner) :
    maxIncludeDepth = 8 ∧ (d.view? layouts = none ↔ d.size = 0) ∧
      ∀ root, d.root? = some root →
        ∃ view, d.view? layouts = some view ∧ layouts.Finishes ⟨0, d, root⟩ view := by
  have htrees : layouts.AreTrees := by
    intro name inner hinner
    obtain ⟨text, htext⟩ := hlayouts name inner hinner
    exact isTree_of_parse htext
  refine ⟨rfl, ?_, ?_⟩
  · rw [view?, Option.map_eq_none_iff, tree?_eq_none]
  · intro root hroot
    have hs : (Site.mk 0 d root).Sound :=
      ⟨isTree_of_parse hparse, lt_size_of_root? hroot, Nat.zero_le _⟩
    obtain ⟨view, hview⟩ := Layouts.exists_viewAt? layouts hs
    obtain ⟨tree, htree, rfl⟩ := Option.map_eq_some_iff.mp hview
    refine ⟨_, ?_, Layouts.finishes_of_viewAt? htrees hs rfl hview⟩
    rw [view?, tree?_eq_some.mpr ⟨root, hroot, htree⟩]
    rfl

/-- A layout of which the include names no layout. -/
def leafText : String :=
  "<Frame><include/></Frame>"

/-- The layouts of the sample, with none that includes itself. -/
def straightLayouts : Layouts :=
  ⟨[("bar", documentOf barText), ("loop", documentOf leafText)], by decide⟩

theorem parse_straightLayouts {name : String} {inner : Document}
    (h : straightLayouts.get? name = some inner) : ∃ text, Document.parse text = .ok inner := by
  have hentries : straightLayouts.entries =
      [("bar", barText), ("loop", leafText)].map fun t => (t.1, documentOf t.2) := rfl
  exact parse_of_get? hentries (by decide +kernel) h

theorem view?_finishes_nested :
    (∃ view, (documentOf outerText).view? nestedLayouts = some view ∧
      nestedLayouts.Finishes ⟨0, documentOf outerText, 0⟩ view) ∧
    ∃ view, (documentOf outerText).view? straightLayouts = some view ∧
      ∀ s tag attributes views,
        straightLayouts.PartAt ⟨0, documentOf outerText, 0⟩ view s (.element tag attributes views) →
          ∀ inner root, ¬straightLayouts.Resolves s.document s.node inner root := by
  have hparse : Document.parse outerText = .ok (documentOf outerText) :=
    parse_documentOf (by decide +kernel)
  have hroot : (documentOf outerText).root? = some 0 := by decide +kernel
  obtain ⟨-, -, hnested⟩ := Document.view?_finishes hparse fun _ _ => parse_nestedLayouts
  obtain ⟨-, -, hstraight⟩ := Document.view?_finishes hparse fun _ _ => parse_straightLayouts
  obtain ⟨view, hview, hfinishes⟩ := hstraight 0 hroot
  have hchains : ∀ length, straightLayouts.Chain (documentOf outerText) length →
      length ≤ maxIncludeDepth := by
    decide +kernel
  exact ⟨hnested 0 hroot, view, hview, hfinishes.none_left hchains⟩

end LayoutCompletion
