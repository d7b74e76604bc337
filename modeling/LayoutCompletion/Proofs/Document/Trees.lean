import LayoutCompletion.Document.Tree
import LayoutCompletion.Proofs.Document.Nesting
import Mathlib.Data.List.Basic

/-!
# The trees of a document

Trees are made from the last element to the first, each from those behind it. In a document whose
elements are the nodes of one tree, every element has a tree of its own, made from the trees of its
children (`treeAt?_eq`).
-/

namespace LayoutCompletion.Document

variable {d : Document} {node : Nat}

/-- Each tree is made from its element and the trees behind it. -/
theorem getElem?_treesFrom (number node : Nat) (es : List Element) :
    (treesFrom number es)[node]? =
      es[node]?.map fun e => treeOf (number + node) e ((treesFrom number es).drop (node + 1)) := by
  induction es generalizing number node with
  | nil => rfl
  | cons e es ih =>
    cases node with
    | zero => rfl
    | succ node =>
      have hnumber : number + 1 + node = number + (node + 1) := by omega
      rw [treesFrom, List.getElem?_cons_succ, ih, hnumber]
      rfl

/-- The tree of an element, if there is such an element. -/
def treeAt? (d : Document) (node : Nat) : Option ElementTree :=
  (treesFrom 0 d.elements.toList)[node]?

/-- The tree of an element is made from those of its children. -/
theorem treeAt?_eq (hd : d.IsTree) (hnode : node < d.size) :
    d.treeAt? node =
      some (.node (d.tag node) (d.attributes node) ((d.children node).filterMap d.treeAt?)) := by
  have helement : d.elements[node]? = some d.elements[node] := Array.getElem?_eq_getElem hnode
  have hchild : ∀ child ∈ d.children node,
      ((treesFrom 0 d.elements.toList).drop (node + 1))[child - (node + 1)]? = d.treeAt? child := by
    intro child hchild
    have hlt := (hd.parent child node ((hd.mem_children node child).mp hchild)).1
    rw [List.getElem?_drop, treeAt?, show node + 1 + (child - (node + 1)) = child by omega]
  rw [treeAt?, getElem?_treesFrom, Array.getElem?_toList, helement, Option.map_some, treeOf,
    Nat.zero_add, ← List.filterMap_congr hchild]
  simp only [children, tag, attributes, helement, Option.map_some, Option.getD_some]

/-- Only an element has a tree. -/
theorem lt_size_of_treeAt? {tree : ElementTree} (h : d.treeAt? node = some tree) :
    node < d.size := by
  rw [treeAt?, getElem?_treesFrom, Option.map_eq_some_iff] at h
  obtain ⟨e, he, -⟩ := h
  exact (List.getElem?_eq_some_iff.mp he).1

/-! ## The root -/

theorem root?_eq_some {root : Nat} : d.root? = some root ↔ root = 0 ∧ 0 < d.size := by
  have hempty : d.isEmpty = true ↔ ¬0 < d.size := by simp [isEmpty, size]
  unfold root?
  split
  · next h => simp [hempty.mp h]
  · next h => simp [not_not.mp (mt hempty.mpr h), eq_comm]

theorem lt_size_of_root? {root : Nat} (h : d.root? = some root) : root < d.size := by
  obtain ⟨rfl, hsize⟩ := root?_eq_some.mp h
  exact hsize

theorem tree?_eq_none : d.tree? = none ↔ d.size = 0 := by
  obtain ⟨⟨es⟩⟩ := d
  cases es with
  | nil => exact iff_of_true rfl rfl
  | cons e es => exact iff_of_false nofun nofun

/-- The tree of a document is that of its root. -/
theorem tree?_eq_some {tree : ElementTree} :
    d.tree? = some tree ↔ ∃ root, d.root? = some root ∧ d.treeAt? root = some tree := by
  have htree : d.tree? = d.treeAt? 0 := List.head?_eq_getElem?
  rw [htree]
  constructor
  · exact fun h => ⟨0, root?_eq_some.mpr ⟨rfl, lt_size_of_treeAt? h⟩, h⟩
  · rintro ⟨root, hroot, h⟩
    obtain ⟨rfl, -⟩ := root?_eq_some.mp hroot
    exact h

end LayoutCompletion.Document
