import LayoutCompletion.Proofs.Document.Trees
import LayoutCompletion.Proofs.View.Plain
import LayoutCompletion.Text.Split

/-!
# Expanding includes

`Layouts.Expands` says what an element comes to if every include is replaced by the root of the
layout that it names: an element tree without anything that stands for something else. An include
that is not replaced stays an element like any other. The relation gives each element one outcome
(`Expands.unique`).

The views of a document show this outcome (`view?_expands`). The proof goes down from the layouts
that may not include anything more: if what the names of layouts stand for has been expanded
(`Layouts.Knows`), then so has every tree that includes them, element by element from the last one
to the first (`Layouts.Knows.expands`).
-/

namespace LayoutCompletion

namespace Document

/-- The element is an include of the layout: its first attribute for that refers to it. -/
def Includes (d : Document) (node : Nat) (layout : String) : Prop :=
  d.tag node = includeTag ∧ ∃ before a after, d.attributes node = before ++ a :: after ∧
    (∀ b ∈ before, b.name ≠ layoutAttribute) ∧ a.name = layoutAttribute ∧
    a.value = layoutReference ++ layout

/-- The attributes of an element that are shown, which are all that declare no namespace. -/
def shown (d : Document) (node : Nat) : List (String × String) :=
  ((d.attributes node).filter fun a => !a.isNamespaceDeclaration).map fun a => (a.name, a.value)

/-- The attributes that an include sets on what it is replaced by. -/
def overrides (d : Document) (node : Nat) : List (String × String) :=
  (d.shown node).filter fun a => a.1 ≠ layoutAttribute

end Document

namespace Layouts

/-- The element is an include that is replaced by the root of the document, with so many includes
around it that were replaced. -/
def Replaces (layouts : Layouts) (depth : Nat) (d : Document) (node : Nat) (inner : Document)
    (root : Nat) : Prop :=
  depth < maxIncludeDepth ∧ ∃ name, d.Includes node name ∧ layouts.get? name = some inner ∧
    inner.root? = some root

/--
What an element comes to when includes are replaced.

* `included`: an include that is replaced comes to what the root of its layout comes to, with the
  attributes of the include in place of those of the root or behind them.
* `plain`: any other element keeps its tag and its attributes, and has in it what its children come
  to.
-/
inductive Expands (layouts : Layouts) : Nat → Document → Nat → View → Prop
  | included {depth node root : Nat} {d inner : Document} {tag : String}
      {attributes : List (String × String)} {children : List View} :
    layouts.Replaces depth d node inner root →
      Expands layouts (depth + 1) inner root (.element tag attributes children) →
      Expands layouts depth d node
        (.element tag (overridden attributes (d.overrides node)) children)
  | plain {depth node : Nat} {d : Document} (view : Nat → View) :
    (∀ inner root, ¬layouts.Replaces depth d node inner root) →
      (∀ child ∈ d.children node, Expands layouts depth d child (view child)) →
      Expands layouts depth d node
        (.element (d.tag node) (settled (d.shown node)) ((d.children node).map view))

end Layouts

/-! ## One outcome -/

variable {layouts : Layouts} {d inner : Document} {depth node root : Nat} {name : String}
  {view other : View}

theorem includedName?_eq_some {attributes : List Attribute} :
    includedName? attributes = some name ↔
      ∃ before a after, attributes = before ++ a :: after ∧
        (∀ b ∈ before, b.name ≠ layoutAttribute) ∧ a.name = layoutAttribute ∧
        a.value = layoutReference ++ name := by
  simp only [includedName?, Option.bind_eq_bind, Option.bind_eq_some_iff,
    List.find?_eq_some_iff_append, Text.behindMarker_eq_some, decide_eq_true_eq,
    Bool.not_eq_true', decide_eq_false_iff_not]
  constructor
  · rintro ⟨a, ⟨hname, before, after, hsplit, hbefore⟩, hvalue⟩
    exact ⟨before, a, after, hsplit, hbefore, hname, hvalue⟩
  · rintro ⟨before, a, after, hsplit, hbefore, hname, hvalue⟩
    exact ⟨a, ⟨hname, before, after, hsplit, hbefore⟩, hvalue⟩

theorem Document.includes_iff :
    d.Includes node name ↔ d.tag node = includeTag ∧
      includedName? (d.attributes node) = some name := by
  rw [includedName?_eq_some, Includes]

/-- No element is an include of two layouts. -/
theorem Document.Includes.unique {name' : String} (h : d.Includes node name)
    (h' : d.Includes node name') : name = name' :=
  Option.some.inj ((includes_iff.mp h).2.symm.trans (includes_iff.mp h').2)

theorem Layouts.Replaces.unique {inner' : Document} {root' : Nat}
    (h : layouts.Replaces depth d node inner root)
    (h' : layouts.Replaces depth d node inner' root') : inner = inner' ∧ root = root' := by
  obtain ⟨-, name, hname, hinner, hroot⟩ := h
  obtain ⟨-, name', hname', hinner', hroot'⟩ := h'
  obtain rfl := hname.unique hname'
  obtain rfl := Option.some.inj (hinner.symm.trans hinner')
  exact ⟨rfl, Option.some.inj (hroot.symm.trans hroot')⟩

/-- An element comes to one thing only. -/
theorem Layouts.Expands.unique (h : layouts.Expands depth d node view)
    (h' : layouts.Expands depth d node other) : other = view := by
  induction h generalizing other with
  | included hreplaces _ ih =>
    cases h' with
    | included hreplaces' hroot' =>
      obtain ⟨rfl, rfl⟩ := hreplaces.unique hreplaces'
      obtain ⟨rfl, rfl, rfl⟩ := View.element.inj (ih hroot')
      rfl
    | plain _ hnot _ => exact absurd hreplaces (hnot _ _)
  | plain view hnot _ ih =>
    cases h' with
    | included hreplaces' _ => exact absurd hreplaces' (hnot _ _)
    | plain view' _ hchildren' =>
      rw [List.map_congr_left fun child hchild => ih child hchild (hchildren' child hchild)]

theorem Layouts.Expands.exists_element (h : layouts.Expands depth d node view) :
    ∃ tag attributes children, view = .element tag attributes children := by
  cases h with
  | included => exact ⟨_, _, _, rfl⟩
  | plain => exact ⟨_, _, _, rfl⟩

/-! ## Views of trees -/

theorem ElementTree.viewAll_eq_map (expand : String → Option View) (trees : List ElementTree) :
    viewAll expand trees = trees.map (·.view expand) := by
  induction trees with
  | nil => rfl
  | cons tree trees ih => rw [viewAll, List.map_cons, ih]

theorem ElementTree.included?_eq_some {expand : String → Option View} {tag : String}
    {attributes : List Attribute} :
    included? expand tag attributes = some view ↔
      tag = includeTag ∧ ∃ name root, includedName? attributes = some name ∧
        expand name = some root ∧
        view = (View.included root).applyAll (·.name ≠ layoutAttribute) attributes := by
  unfold included?
  split
  · next htag =>
    simp only [Option.bind_eq_bind, Option.bind_eq_some_iff, Option.some.injEq, htag, true_and,
      eq_comm (a := view)]
    constructor
    · rintro ⟨name, hname, root, hroot, hview⟩
      exact ⟨name, root, hname, hroot, hview⟩
    · rintro ⟨name, root, hname, hroot, hview⟩
      exact ⟨name, hname, root, hroot, hview⟩
  · next htag => simp [htag]

/-- What an element without attributes shows when all attributes are set on it. -/
theorem plain_applyAll_element (d : Document) (node : Nat) (tag : String) (children : List View) :
    ((View.element tag [] children).applyAll (fun _ => true) (d.attributes node)).plain =
      .element tag (settled (d.shown node)) (children.map View.plain) := by
  rw [View.applyAll_element, overridden_nil, View.plain, View.plainAll_eq_map]
  simp only [Bool.and_true]
  rfl

/-- What an include shows when its attributes are set on what it is replaced by. -/
theorem plain_applyAll_included (d : Document) (node : Nat) {tag : String}
    {attributes : List (String × String)} {children : List View}
    (h : view.plain = .element tag attributes children) :
    ((View.included view).applyAll (·.name ≠ layoutAttribute) (d.attributes node)).plain =
      .element tag (overridden attributes (d.overrides node)) children := by
  have hoverrides : d.overrides node = ((d.attributes node).filter fun a =>
      !a.isNamespaceDeclaration && decide (a.name ≠ layoutAttribute)).map
        fun a => (a.name, a.value) := by
    rw [Document.overrides, Document.shown, List.filter_map, List.filter_filter]
    simp only [Function.comp_def, Bool.and_comm]
  rw [View.plain_applyAll, View.plain, h, View.applyAll_element, hoverrides]

/-! ## What names stand for -/

namespace Layouts

/-- With so many includes replaced around them, names stand for what the roots of their layouts come
to, as long as includes are replaced. -/
structure Knows (layouts : Layouts) (depth : Nat) (expand : String → Option View) : Prop where
  sound : ∀ name view, expand name = some view → depth < maxIncludeDepth ∧
    ∃ inner root, layouts.get? name = some inner ∧ inner.root? = some root ∧
      layouts.Expands (depth + 1) inner root view.plain
  complete : ∀ name inner root, depth < maxIncludeDepth → layouts.get? name = some inner →
    inner.root? = some root → ∃ view, expand name = some view

variable {expand : String → Option View}

/-- An include for which the layout is known comes to what it shows. -/
theorem Knows.expands_included (h : layouts.Knows depth expand)
    (hincluded : ElementTree.included? expand (d.tag node) (d.attributes node) = some view) :
    layouts.Expands depth d node view.plain := by
  obtain ⟨htag, name, shown, hname, hshown, rfl⟩ := ElementTree.included?_eq_some.mp hincluded
  obtain ⟨hdepth, inner, root, hinner, hroot, hexpands⟩ := h.sound name shown hshown
  obtain ⟨tag, attributes, children, hplain⟩ := hexpands.exists_element
  rw [hplain] at hexpands
  rw [plain_applyAll_included d node hplain]
  exact .included ⟨hdepth, name, Document.includes_iff.mpr ⟨htag, hname⟩, hinner, hroot⟩ hexpands

/-- An include that is not replaced is one for which no layout is known. -/
theorem Knows.not_replaces (h : layouts.Knows depth expand)
    (hincluded : ElementTree.included? expand (d.tag node) (d.attributes node) = none)
    (inner : Document) (root : Nat) : ¬layouts.Replaces depth d node inner root := by
  rintro ⟨hdepth, name, hincludes, hinner, hroot⟩
  obtain ⟨htag, hname⟩ := Document.includes_iff.mp hincludes
  obtain ⟨view, hview⟩ := h.complete name inner root hdepth hinner hroot
  rw [ElementTree.included?_eq_some.mpr ⟨htag, name, view, hname, hview, rfl⟩] at hincluded
  cases hincluded

/-- An element that is not replaced has in it what the trees of its children show. -/
theorem expands_of_children (hnot : ∀ inner root, ¬layouts.Replaces depth d node inner root)
    (hchildren : ∀ child ∈ d.children node, ∃ tree, d.treeAt? child = some tree ∧
      layouts.Expands depth d child (tree.view expand).plain) :
    layouts.Expands depth d node (.element (d.tag node) (settled (d.shown node))
      (((d.children node).filterMap d.treeAt?).map fun tree => (tree.view expand).plain)) := by
  let viewOf (child : Nat) : View :=
    ((d.treeAt? child).map fun tree => (tree.view expand).plain).getD (.ofTag "")
  have hviews : ((d.children node).filterMap d.treeAt?).map
      (fun tree => (tree.view expand).plain) = (d.children node).map viewOf := by
    rw [List.map_filterMap, ← List.filterMap_eq_map]
    refine List.filterMap_congr fun child hchild => ?_
    obtain ⟨tree, htree, -⟩ := hchildren child hchild
    simp [viewOf, htree]
  rw [hviews]
  refine .plain viewOf hnot fun child hchild => ?_
  obtain ⟨tree, htree, hexpands⟩ := hchildren child hchild
  simpa [viewOf, htree] using hexpands

/-- If names stand for what they should, every tree of a document shows what its element comes
to. -/
theorem Knows.expands (h : layouts.Knows depth expand) (hd : d.IsTree) (hnode : node < d.size) :
    ∃ tree, d.treeAt? node = some tree ∧
      layouts.Expands depth d node (tree.view expand).plain := by
  -- every child stands behind its element, so the induction goes from the last element to the first
  induction hrest : d.size - node using Nat.strongRecOn generalizing node with
  | ind rest ih =>
    refine ⟨_, Document.treeAt?_eq hd hnode, ?_⟩
    rw [ElementTree.view]
    cases hincluded : ElementTree.included? expand (d.tag node) (d.attributes node) with
    | some shown => exact h.expands_included hincluded
    | none =>
      dsimp only
      rw [plain_applyAll_element, ElementTree.viewAll_eq_map, List.map_map]
      refine expands_of_children (h.not_replaces hincluded) fun child hchild => ?_
      have hparent := (hd.mem_children node child).mp hchild
      have hlt := (hd.parent child node hparent).1
      exact ih (d.size - child) (by omega) (Document.lt_size_of_parent? hparent) rfl

theorem expand_succ_eq_some {left : Nat} :
    layouts.expand (left + 1) name = some view ↔
      ∃ inner root tree, layouts.get? name = some inner ∧ inner.root? = some root ∧
        inner.treeAt? root = some tree ∧ tree.view (layouts.expand left) = view := by
  simp only [expand, Option.bind_eq_bind, Option.bind_eq_some_iff, Option.some.injEq]
  constructor
  · rintro ⟨inner, hinner, tree, htree, hview⟩
    obtain ⟨root, hroot, htree⟩ := Document.tree?_eq_some.mp htree
    exact ⟨inner, root, tree, hinner, hroot, htree, hview⟩
  · rintro ⟨inner, root, tree, hinner, hroot, htree, hview⟩
    exact ⟨inner, hinner, tree, Document.tree?_eq_some.mpr ⟨root, hroot, htree⟩, hview⟩

/-- What names stand for is found from the inside out. -/
theorem knows_expand (h : ∀ name inner, layouts.get? name = some inner → inner.IsTree)
    (left : Nat) :
    ∀ depth, depth + left = maxIncludeDepth → layouts.Knows depth (layouts.expand left) := by
  induction left with
  | zero =>
    intro depth hdepth
    constructor
    · intro name view hview
      cases hview
    · intro name inner root hlt
      omega
  | succ left ih =>
    intro depth hdepth
    have hknows := ih (depth + 1) (by omega)
    constructor
    · intro name view hview
      obtain ⟨inner, root, tree, hinner, hroot, htree, rfl⟩ := expand_succ_eq_some.mp hview
      obtain ⟨found, hfound, hexpands⟩ :=
        hknows.expands (h name inner hinner) (Document.lt_size_of_root? hroot)
      obtain rfl := Option.some.inj (htree.symm.trans hfound)
      exact ⟨by omega, inner, root, hinner, hroot, hexpands⟩
    · intro name inner root hlt hinner hroot
      obtain ⟨tree, htree, -⟩ :=
        hknows.expands (h name inner hinner) (Document.lt_size_of_root? hroot)
      exact ⟨_, expand_succ_eq_some.mpr ⟨inner, root, tree, hinner, hroot, htree, rfl⟩⟩

end Layouts

/-! ## The view of a document -/

/--
**The view of a document shows it with its includes expanded.**

It is there unless the document has no element, and its lines are those of the one tree that the
root comes to when every include is replaced by the root of its layout, up to the limit.
-/
theorem Document.view?_expands {text : String} (hparse : parse text = .ok d)
    (hlayouts : ∀ name inner, layouts.get? name = some inner →
      ∃ text, parse text = .ok inner) :
    (d.view? layouts = none ↔ d.size = 0) ∧
      ∀ root, d.root? = some root → ∃ view expansion, d.view? layouts = some view ∧
        layouts.Expands 0 d root expansion ∧ view.render = expansion.render ∧
        ∀ other, layouts.Expands 0 d root other → other = expansion := by
  have htrees : ∀ name inner, layouts.get? name = some inner → inner.IsTree := by
    intro name inner hinner
    obtain ⟨text, htext⟩ := hlayouts name inner hinner
    exact isTree_of_parse htext
  have hknows : layouts.Knows 0 (layouts.expand maxIncludeDepth) :=
    Layouts.knows_expand htrees maxIncludeDepth 0 (Nat.zero_add _)
  have hexpands : ∀ root, d.root? = some root → ∃ tree, d.tree? = some tree ∧
      layouts.Expands 0 d root (tree.view (layouts.expand maxIncludeDepth)).plain := by
    intro root hroot
    obtain ⟨tree, htree, hexpands⟩ :=
      hknows.expands (isTree_of_parse hparse) (lt_size_of_root? hroot)
    exact ⟨tree, tree?_eq_some.mpr ⟨root, hroot, htree⟩, hexpands⟩
  constructor
  · rw [view?, Option.map_eq_none_iff, tree?_eq_none]
  · intro root hroot
    obtain ⟨tree, htree, hexpands⟩ := hexpands root hroot
    refine ⟨_, _, by rw [view?, htree, Option.map_some], hexpands, ?_, fun other h => ?_⟩
    · exact (View.render_plain _).symm
    · exact hexpands.unique h

/-! ## A sample with layouts in one another -/

/-- What is read of a text. -/
def documentOf (text : String) : Document :=
  Document.ofTokens (Markup.tokens text.toList).tokens

theorem parse_documentOf {text : String} (h : 0 < (documentOf text).size) :
    Document.parse text = .ok (documentOf text) :=
  Document.parseChars_eq_ok h

/-- Layouts that are what is read of texts were parsed. -/
theorem parse_of_get? {texts : List (String × String)}
    (hentries : layouts.entries = texts.map fun t => (t.1, documentOf t.2))
    (hpos : ∀ t ∈ texts, 0 < (documentOf t.2).size) (h : layouts.get? name = some inner) :
    ∃ text, Document.parse text = .ok inner := by
  have hmem := Dictionary.get?_eq_some.mp h
  rw [hentries] at hmem
  obtain ⟨t, ht, heq⟩ := List.mem_map.mp hmem
  obtain ⟨-, rfl⟩ := Prod.mk.inj heq
  exact ⟨t.2, parse_documentOf (hpos t ht)⟩

/-- A layout that includes another one and sets two attributes on it. -/
def outerText : String :=
  "<List><include layout='@layout/bar' a:id='outer' a:width='1'/></List>"

/-- A layout of which the root is an include itself. -/
def barText : String :=
  "<include layout='@layout/loop' a:id='bar' a:height='2'/>"

/-- A layout that includes itself, and one that is missing. -/
def loopText : String :=
  "<Frame a:id='loop'><include layout='@layout/loop'/><include layout='@layout/none'/></Frame>"

def nestedLayouts : Layouts :=
  ⟨[("bar", documentOf barText), ("loop", documentOf loopText)], by decide⟩

theorem parse_nestedLayouts {name : String} {inner : Document}
    (h : nestedLayouts.get? name = some inner) : ∃ text, Document.parse text = .ok inner := by
  have hentries : nestedLayouts.entries =
      [("bar", barText), ("loop", loopText)].map fun t => (t.1, documentOf t.2) := rfl
  exact parse_of_get? hentries (by decide +kernel) h

theorem view?_expands_nested :
    ∃ view expansion, (documentOf outerText).view? nestedLayouts = some view ∧
      nestedLayouts.Expands 0 (documentOf outerText) 0 expansion ∧
      view.render = expansion.render ∧
      ∀ other, nestedLayouts.Expands 0 (documentOf outerText) 0 other → other = expansion :=
  (Document.view?_expands (parse_documentOf (by decide +kernel))
    fun _ _ => parse_nestedLayouts).2 0 (by decide +kernel)

/-- The attributes of both includes are set on the root of the innermost layout. -/
example : ((documentOf outerText).view? ⟨[("bar", documentOf barText),
      ("loop", documentOf "<Frame a:id='loop'/>")], by decide⟩).map View.render =
    some "List\n  Frame a:id=\x22outer\x22 a:height=\x222\x22 a:width=\x221\x22\n" := by
  decide +kernel

end LayoutCompletion
