import LayoutCompletion.Proofs.View.Expansion
import Mathlib.Data.List.Forall2
import Mathlib.Data.Set.Card

/-!
# From element to element

A view is made from those of the children of an element or, for an include that is replaced, from
the view of the root of its layout. This root may have more below it than all that is left of the
document, and a layout may include itself. There is an end to it all the same
(`Layouts.acc_leads`), because each step lowers the measure of the site: how many includes may still
be replaced and, among sites where that is the same, how large the subtree is
(`Layouts.Leads.measure_lt`).

In the definition of views this recursion is taken apart into one on trees and one on how often
layouts may be included. Together they make the view at a site from the views at the sites to which
it leads (`Layouts.viewAt?_cases`).
-/

namespace LayoutCompletion

namespace Document

variable {d : Document} {node child n : Nat}

/-- The element and all in it. -/
def subtree (d : Document) (node : Nat) : Set Nat :=
  {n | n = node ∨ d.Inside node n}

theorem finite_subtree (d : Document) (node : Nat) : (d.subtree node).Finite := by
  refine ((Set.finite_lt_nat d.size).insert node).subset ?_
  rintro n (rfl | hin)
  · exact .inl rfl
  · exact .inr hin.lt_size

/-- What is in a child is in the element. -/
theorem Inside.of_child (h : d.Inside child n) (hchild : d.parent? child = some node) :
    d.Inside node n := by
  induction h with
  | child hparent => exact .deeper hparent (.child hchild)
  | deeper hparent _ ih => exact .deeper hparent ih

theorem IsTree.lt_of_inside (hd : d.IsTree) (hnode : node < d.size) (h : d.Inside node n) :
    node < n := by
  obtain ⟨stop, -, -, hinside⟩ := hd.inside node hnode
  exact ((hinside n).mp h).1

/-- The subtree of a child lacks the element itself. -/
theorem ncard_subtree_lt (hd : d.IsTree) (hchild : d.parent? child = some node) :
    (d.subtree child).ncard < (d.subtree node).ncard := by
  have hlt := (hd.parent child node hchild).1
  refine Set.ncard_lt_ncard ?_ (d.finite_subtree node)
  rw [Set.ssubset_iff_of_subset]
  · refine ⟨node, .inl rfl, ?_⟩
    rintro (rfl | hin)
    · exact Nat.lt_irrefl _ hlt
    · exact Nat.lt_asymm hlt (hd.lt_of_inside (lt_size_of_parent? hchild) hin)
  · rintro n (rfl | hin)
    · exact .inr (.child hchild)
    · exact .inr (hin.of_child hchild)

end Document

/-! ## Sites -/

/-- An element that is to be shown, with so many includes around it that were replaced. -/
structure Site where
  /-- How many includes around the element were replaced. -/
  depth : Nat
  document : Document
  node : Nat

namespace Site

/-- How many includes may be replaced from here on, and how many elements are left here. -/
noncomputable def measure (s : Site) : Nat × Nat :=
  (maxIncludeDepth - s.depth, (s.document.subtree s.node).ncard)

/-- There is such an element, in a tree, and the limit is kept. -/
structure Sound (s : Site) : Prop where
  isTree : s.document.IsTree
  lt_size : s.node < s.document.size
  depth_le : s.depth ≤ maxIncludeDepth

end Site

namespace Layouts

/-- All layouts are trees. -/
def AreTrees (layouts : Layouts) : Prop :=
  ∀ name inner, layouts.get? name = some inner → inner.IsTree

/-- The element is an include of a layout that has this root. -/
def Resolves (layouts : Layouts) (d : Document) (node : Nat) (inner : Document) (root : Nat) :
    Prop :=
  ∃ name, d.Includes node name ∧ layouts.get? name = some inner ∧ inner.root? = some root

/--
For the view at the first site, that at the second one is needed.

* `into`: an include that is replaced leads to the root of its layout.
* `child`: any other element leads to its children.
-/
inductive Leads (layouts : Layouts) : Site → Site → Prop
  | into {depth node root : Nat} {d inner : Document} :
    layouts.Replaces depth d node inner root →
      Leads layouts ⟨depth, d, node⟩ ⟨depth + 1, inner, root⟩
  | child {depth node child : Nat} {d : Document} :
    (∀ inner root, ¬layouts.Replaces depth d node inner root) → child ∈ d.children node →
      Leads layouts ⟨depth, d, node⟩ ⟨depth, d, child⟩

variable {layouts : Layouts} {s t : Site} {d inner : Document} {depth node root : Nat}
  {view : View}

theorem replaces_iff : layouts.Replaces depth d node inner root ↔
    depth < maxIncludeDepth ∧ layouts.Resolves d node inner root :=
  Iff.rfl

theorem Replaces.sound (h : layouts.Replaces depth d node inner root)
    (hlayouts : layouts.AreTrees) : (Site.mk (depth + 1) inner root).Sound := by
  obtain ⟨hdepth, name, -, hinner, hroot⟩ := h
  exact ⟨hlayouts name inner hinner, Document.lt_size_of_root? hroot, hdepth⟩

theorem Leads.sound (h : layouts.Leads s t) (hlayouts : layouts.AreTrees) (hs : s.Sound) :
    t.Sound := by
  cases h with
  | into hreplaces => exact hreplaces.sound hlayouts
  | child _ hchild =>
    have hparent := (hs.isTree.mem_children _ _).mp hchild
    exact ⟨hs.isTree, Document.lt_size_of_parent? hparent, hs.depth_le⟩

/-- An include takes one from the number that may still be replaced, and a child leaves this number
and has a smaller subtree. -/
theorem Leads.measure_lt (h : layouts.Leads s t) (hs : s.Sound) :
    Prod.Lex (· < ·) (· < ·) t.measure s.measure := by
  cases h with
  | into hreplaces =>
    have hdepth := hreplaces.1
    exact .left _ _ (Nat.sub_succ_lt_self _ _ hdepth)
  | child _ hchild =>
    have hparent := (hs.isTree.mem_children _ _).mp hchild
    exact .right _ (Document.ncard_subtree_lt hs.isTree hparent)

/-- No way from site to site is endless. -/
theorem acc_leads (hlayouts : layouts.AreTrees) (hs : s.Sound) :
    Acc (fun t s => layouts.Leads s t) s := by
  have hwf : WellFounded (Prod.Lex (· < · : Nat → Nat → Prop) (· < · : Nat → Nat → Prop)) :=
    WellFounded.prod_lex Nat.lt_wfRel.wf Nat.lt_wfRel.wf
  induction hmeasure : s.measure using hwf.induction generalizing s with
  | _ _ ih =>
    subst hmeasure
    constructor
    intro t hleads
    exact ih t.measure (hleads.measure_lt hs) (hleads.sound hlayouts hs) rfl

/-! ## The view at a site -/

/-- The view of an element, with so many includes around it that were replaced. -/
def viewAt? (layouts : Layouts) (s : Site) : Option View :=
  (s.document.treeAt? s.node).map (·.view (layouts.expand (maxIncludeDepth - s.depth)))

theorem exists_viewAt? (layouts : Layouts) (hs : s.Sound) :
    ∃ view, layouts.viewAt? s = some view := by
  rw [viewAt?, Document.treeAt?_eq hs.isTree hs.lt_size]
  exact ⟨_, rfl⟩

/-- An include that is replaced has the view of the root of its layout, with its own attributes set
on it. -/
theorem viewAt?_of_replaces (hs : (Site.mk depth d node).Sound) (hlayouts : layouts.AreTrees)
    (h : layouts.Replaces depth d node inner root) :
    ∃ view, layouts.viewAt? ⟨depth + 1, inner, root⟩ = some view ∧
      layouts.viewAt? ⟨depth, d, node⟩ =
        some ((View.included view).applyAll (·.name ≠ layoutAttribute) (d.attributes node)) := by
  obtain ⟨view, hview⟩ := exists_viewAt? layouts (h.sound hlayouts)
  obtain ⟨tree, htree, hshown⟩ := Option.map_eq_some_iff.mp hview
  obtain ⟨hdepth, name, hincludes, hinner, hroot⟩ := h
  obtain ⟨htag, hname⟩ := Document.includes_iff.mp hincludes
  have hleft : maxIncludeDepth - depth = maxIncludeDepth - (depth + 1) + 1 := by omega
  have hexpand : layouts.expand (maxIncludeDepth - depth) name = some view := by
    rw [hleft]
    exact expand_succ_eq_some.mpr ⟨inner, root, tree, hinner, hroot, htree, hshown⟩
  refine ⟨view, hview, ?_⟩
  rw [viewAt?, Document.treeAt?_eq hs.isTree hs.lt_size, Option.map_some, ElementTree.view,
    ElementTree.included?_eq_some.mpr ⟨htag, name, view, hname, hexpand, rfl⟩]

/-- What is shown for an include is the root of a layout. -/
theorem replaces_of_included? (h : ElementTree.included? (layouts.expand (maxIncludeDepth - depth))
      (d.tag node) (d.attributes node) = some view) :
    ∃ inner root, layouts.Replaces depth d node inner root := by
  obtain ⟨htag, name, shown, hname, hexpand, -⟩ := ElementTree.included?_eq_some.mp h
  cases hleft : maxIncludeDepth - depth with
  | zero =>
    rw [hleft] at hexpand
    cases hexpand
  | succ left =>
    rw [hleft] at hexpand
    obtain ⟨inner, root, tree, hinner, hroot, -, -⟩ := expand_succ_eq_some.mp hexpand
    exact ⟨inner, root, by omega, name, Document.includes_iff.mpr ⟨htag, hname⟩, hinner, hroot⟩

theorem forall₂_filterMap {α β : Type} {f : α → Option β} {xs : List α}
    (h : ∀ x ∈ xs, ∃ y, f x = some y) :
    List.Forall₂ (fun x y => f x = some y) xs (xs.filterMap f) := by
  induction xs with
  | nil => exact .nil
  | cons x xs ih =>
    obtain ⟨y, hy⟩ := h x List.mem_cons_self
    rw [List.filterMap_cons_some hy]
    exact .cons hy (ih fun x hx => h x (List.mem_cons_of_mem _ hx))

/-- Any other element has a view with its tag, those of its children and all its attributes. -/
theorem viewAt?_of_not_replaces (hs : (Site.mk depth d node).Sound)
    (h : ∀ inner root, ¬layouts.Replaces depth d node inner root) :
    ∃ views, List.Forall₂ (fun child view => layouts.viewAt? ⟨depth, d, child⟩ = some view)
        (d.children node) views ∧
      layouts.viewAt? ⟨depth, d, node⟩ =
        some ((View.element (d.tag node) [] views).applyAll (fun _ => true)
          (d.attributes node)) := by
  refine ⟨(d.children node).filterMap fun child => layouts.viewAt? ⟨depth, d, child⟩, ?_, ?_⟩
  · refine forall₂_filterMap fun child hchild => ?_
    have hparent := (hs.isTree.mem_children _ _).mp hchild
    exact exists_viewAt? layouts ⟨hs.isTree, Document.lt_size_of_parent? hparent, hs.depth_le⟩
  · rw [viewAt?, Document.treeAt?_eq hs.isTree hs.lt_size, Option.map_some, ElementTree.view]
    cases hincluded : ElementTree.included? (layouts.expand (maxIncludeDepth - depth)) (d.tag node)
        (d.attributes node) with
    | some shown =>
      obtain ⟨inner, root, hreplaces⟩ := replaces_of_included? hincluded
      exact absurd hreplaces (h inner root)
    | none =>
      dsimp only
      rw [ElementTree.viewAll_eq_map, List.map_filterMap]
      rfl

/-- The view at a site is made in one of these two ways. -/
theorem viewAt?_cases (hlayouts : layouts.AreTrees) (hs : (Site.mk depth d node).Sound)
    (h : layouts.viewAt? ⟨depth, d, node⟩ = some view) :
    (∃ inner root shown, layouts.Replaces depth d node inner root ∧
      layouts.viewAt? ⟨depth + 1, inner, root⟩ = some shown ∧
      view = (View.included shown).applyAll (·.name ≠ layoutAttribute) (d.attributes node)) ∨
    ((∀ inner root, ¬layouts.Replaces depth d node inner root) ∧
      ∃ views, List.Forall₂ (fun child view => layouts.viewAt? ⟨depth, d, child⟩ = some view)
          (d.children node) views ∧
        view = (View.element (d.tag node) [] views).applyAll (fun _ => true)
          (d.attributes node)) := by
  by_cases hreplaces : ∃ inner root, layouts.Replaces depth d node inner root
  · obtain ⟨inner, root, hreplaces⟩ := hreplaces
    obtain ⟨shown, hshown, hall⟩ := viewAt?_of_replaces hs hlayouts hreplaces
    exact .inl ⟨inner, root, shown, hreplaces, hshown, Option.some.inj (h.symm.trans hall)⟩
  · have hnot : ∀ inner root, ¬layouts.Replaces depth d node inner root :=
      fun inner root hr => hreplaces ⟨inner, root, hr⟩
    obtain ⟨views, hviews, hall⟩ := viewAt?_of_not_replaces hs hnot
    exact .inr ⟨hnot, views, hviews, Option.some.inj (h.symm.trans hall)⟩

end Layouts

end LayoutCompletion
