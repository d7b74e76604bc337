import LayoutCompletion.Proofs.Document.Lookup
import LayoutCompletion.Proofs.Document.Parsing
import LayoutCompletion.View.Include

/-!
# The names in views

Tags and names of attributes come from the markup, so they are names of markup (`Markup.IsName`).
This holds of the elements of a document behind each token, of the trees of a document and of the
views of these trees, and setting an attribute keeps it. So it holds of every view of a document
whose layouts are documents too (`View.named_of_view?`).
-/

namespace LayoutCompletion

open Markup Markup.Scan

/-- A name as markup has them. Colons may stand anywhere. -/
def Markup.IsName (text : String) : Prop :=
  AllOf QualifiedName.continues text.toList ∧
    ∃ c, text.toList.head? = some c ∧ (isNameStart c = true ∨ c = ':')

theorem Markup.QualifiedName.Valid.isName {name : QualifiedName} (h : name.Valid) :
    IsName (qualify (String.ofList name.space) (String.ofList name.base)) := by
  rw [IsName, Builder.toList_qualify, QualifiedName.shown]
  split
  · obtain ⟨c, base, hbase⟩ := List.exists_cons_of_ne_nil (QualifiedName.base_ne_nil h)
    have hstart := h.wellFormed
    simp only [QualifiedName.wellFormed, Bool.and_eq_true, hbase, List.head?_cons,
      Option.any_some] at hstart
    refine ⟨fun c hc => ?_, c, by rw [hbase]; rfl, .inl hstart.2⟩
    rw [QualifiedName.continues, h.base c hc, Bool.true_or]
  · obtain ⟨c, cs, htext, hstart⟩ := QualifiedName.head_text h
    exact ⟨QualifiedName.allOf_text h, c, by rw [htext]; rfl, hstart⟩

/-! ## Documents -/

namespace Builder

variable {b : Builder} {m n : Mode} {ts : List Token}

/-- Every element that was entered has a name. -/
theorem isName_tag_after (hruns : m.Runs ts n)
    (h : ∀ node < b.document.size, IsName (b.document.tag node)) :
    ∀ node < (b.after ts).document.size, IsName ((b.after ts).document.tag node) := by
  induction hruns generalizing b with
  | nil => exact h
  | @cons _ _ _ t _ _ hwf _ ih =>
    refine ih fun node hnode => ?_
    rw [size_push] at hnode
    rw [tag_push]
    cases t with
    | openTag name =>
      by_cases hnew : node = b.document.size
      · rw [if_pos hnew]
        exact hwf.isName
      · rw [if_neg hnew]
        have hone : node < b.document.size + 1 := hnode
        exact h node (by omega)
    | _ =>
      have hold : node < b.document.size := hnode
      rw [if_neg (Nat.ne_of_lt hold)]
      exact h node hold

end Builder

/-- All elements of the document have names, and so have their attributes. -/
structure Document.Named (d : Document) : Prop where
  tags : ∀ node < d.size, IsName (d.tag node)
  attributes : ∀ node, ∀ a ∈ d.attributes node, IsName a.name

theorem Document.named_of_parse {text : String} {d : Document} (h : parse text = .ok d) :
    d.Named where
  tags := by
    obtain ⟨n, hruns⟩ := runs_tokens text.toList
    rw [eq_of_parseChars h]
    exact Builder.isName_tag_after hruns fun node hnode => absurd hnode (Nat.not_lt_zero node)
  attributes node a ha := by
    obtain ⟨name, hname, hqualifier, hbase⟩ := (sound_of_parse h).named node a ha
    rw [Attribute.name, hqualifier, hbase]
    exact hname.isName

/-! ## Trees -/

/-- The element, its attributes and everything in it have names. -/
inductive ElementTree.Named : ElementTree → Prop
  | node {tag : String} {attributes : List Attribute} {children : List ElementTree}
      (htag : IsName tag) (hattributes : ∀ a ∈ attributes, IsName a.name)
      (hchildren : ∀ child ∈ children, child.Named) : Named (.node tag attributes children)

namespace Document

theorem named_of_mem_treesFrom (number : Nat) (es : List Element)
    (h : ∀ e ∈ es, IsName e.tag ∧ ∀ a ∈ e.attributes, IsName a.name) :
    ∀ tree ∈ treesFrom number es, tree.Named := by
  induction es generalizing number with
  | nil => exact fun _ h => nomatch h
  | cons e es ih =>
    rw [List.forall_mem_cons] at h
    have hlater := ih (number + 1) h.2
    refine List.forall_mem_cons.mpr ⟨.node h.1.1 h.1.2 fun child hchild => ?_, hlater⟩
    obtain ⟨_, -, hget⟩ := List.mem_filterMap.mp hchild
    exact hlater child (List.mem_of_getElem? hget)

theorem Named.tree {d : Document} {tree : ElementTree} (hd : d.Named) (h : d.tree? = some tree) :
    tree.Named := by
  refine named_of_mem_treesFrom 0 d.elements.toList (fun e he => ?_) tree (List.mem_of_head? h)
  obtain ⟨node, hnode⟩ := List.mem_iff_getElem?.mp he
  rw [Array.getElem?_toList] at hnode
  have htag : d.tag node = e.tag := by rw [Document.tag, hnode]
  have hattributes : d.attributes node = e.attributes := by rw [Document.attributes, hnode]
  have hlt : node < d.size := (Array.getElem?_eq_some_iff.mp hnode).1
  exact ⟨htag ▸ hd.tags node hlt, hattributes ▸ hd.attributes node⟩

end Document

/-! ## Views -/

/-- What the view shows has names: the element, its attributes and everything below. -/
inductive View.Named : View → Prop
  | element {tag : String} {attributes : List (String × String)} {children : List View}
      (htag : IsName tag) (hattributes : ∀ a ∈ attributes, IsName a.1)
      (hchildren : ∀ child ∈ children, child.Named) : Named (.element tag attributes children)
  | included {root : View} (hroot : root.Named) : Named (.included root)

namespace View

variable {view : View}

theorem isName_of_mem_setAttribute {name value : String} {attributes : List (String × String)}
    (hname : IsName name) (h : ∀ a ∈ attributes, IsName a.1) :
    ∀ a ∈ setAttribute name value attributes, IsName a.1 := by
  induction attributes with
  | nil => exact List.forall_mem_singleton.mpr hname
  | cons a rest ih =>
    rw [List.forall_mem_cons] at h
    rw [setAttribute]
    split
    · exact List.forall_mem_cons.mpr h
    · exact List.forall_mem_cons.mpr ⟨h.1, ih h.2⟩

theorem Named.applyAttribute {name : String} (value : String) (h : view.Named)
    (hname : IsName name) : (view.applyAttribute name value).Named := by
  induction h with
  | element htag hattributes hchildren =>
    exact .element htag (isName_of_mem_setAttribute hname hattributes) hchildren
  | included _ ih => exact .included ih

theorem Named.applyAll {attributes : List Attribute} (h : view.Named) (p : Attribute → Bool)
    (hattributes : ∀ a ∈ attributes, IsName a.name) : (view.applyAll p attributes).Named := by
  unfold View.applyAll
  have hset : ∀ a ∈ attributes.filter fun a => !a.isNamespaceDeclaration && p a, IsName a.name :=
    fun a ha => hattributes a (List.mem_filter.mp ha).1
  generalize (attributes.filter fun a => !a.isNamespaceDeclaration && p a) = chosen at hset
  induction chosen generalizing view with
  | nil => exact h
  | cons a rest ih =>
    rw [List.forall_mem_cons] at hset
    exact ih (h.applyAttribute a.value hset.1) hset.2

end View

namespace ElementTree

variable {expand : String → Option View}

mutual

/-- The views of trees are named like these, if those of layouts are. -/
theorem named_view (hexpand : ∀ name root, expand name = some root → root.Named) :
    (tree : ElementTree) → tree.Named → (tree.view expand).Named
  | .node tag attributes children, h => by
    obtain ⟨htag, hattributes, hchildren⟩ := h
    rw [view]
    split
    · next v hincluded =>
      unfold included? at hincluded
      split at hincluded
      · obtain ⟨name, -, hname⟩ := Option.bind_eq_some_iff.mp hincluded
        obtain ⟨root, hroot, hview⟩ := Option.bind_eq_some_iff.mp hname
        obtain rfl := Option.some.inj hview
        exact (View.Named.included (hexpand name root hroot)).applyAll _ hattributes
      · cases hincluded
    · exact (View.Named.element htag (fun _ ha => absurd ha List.not_mem_nil)
        (named_viewAll hexpand children hchildren)).applyAll _ hattributes

theorem named_viewAll (hexpand : ∀ name root, expand name = some root → root.Named) :
    (trees : List ElementTree) → (∀ tree ∈ trees, tree.Named) →
      ∀ view ∈ viewAll expand trees, view.Named
  | [], _ => fun _ h => nomatch h
  | tree :: trees, h => by
    rw [List.forall_mem_cons] at h
    exact List.forall_mem_cons.mpr
      ⟨named_view hexpand tree h.1, named_viewAll hexpand trees h.2⟩

end

end ElementTree

theorem Layouts.named_of_expand {layouts : Layouts}
    (hlayouts : ∀ name inner, layouts.get? name = some inner → inner.Named) (depth : Nat) :
    ∀ name root, layouts.expand depth name = some root → root.Named := by
  induction depth with
  | zero => exact fun _ _ h => nomatch h
  | succ depth ih =>
    intro name root h
    obtain ⟨inner, hinner, hroot⟩ := Option.bind_eq_some_iff.mp h
    obtain ⟨tree, htree, hview⟩ := Option.bind_eq_some_iff.mp hroot
    obtain rfl := Option.some.inj hview
    exact tree.named_view ih ((hlayouts name inner hinner).tree htree)

/-- The views of a document are named, if its layouts are documents. -/
theorem View.named_of_view? {text : String} {d : Document} {layouts : Layouts} {view : View}
    (hparse : Document.parse text = .ok d)
    (hlayouts : ∀ name inner, layouts.get? name = some inner →
      ∃ text, Document.parse text = .ok inner)
    (h : d.view? layouts = some view) : view.Named := by
  have hnamed : ∀ name inner, layouts.get? name = some inner → inner.Named := by
    intro name inner hinner
    obtain ⟨text, htext⟩ := hlayouts name inner hinner
    exact Document.named_of_parse htext
  obtain ⟨tree, htree, rfl⟩ := Option.map_eq_some_iff.mp h
  exact tree.named_view (Layouts.named_of_expand hnamed maxIncludeDepth)
    ((Document.named_of_parse hparse).tree htree)

end LayoutCompletion
