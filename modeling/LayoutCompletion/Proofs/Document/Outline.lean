import LayoutCompletion.Proofs.Document.Lookup
import LayoutCompletion.Proofs.Document.Parsing
import LayoutCompletion.Proofs.Markup.Writing

/-!
# Documents of written trees

`Document.outlines` is what a document tells apart from places, and `Tree.outlines` is what it has
to tell of a tree: the elements in document order, with the numbers that they have in it. Tokens
that spell trees add just this to a document (`Builder.gains_of_spells`), whatever was there before.
So a document is the same for all ways of writing a tree, and it gives the tree back
(`Document.outlines_of_writes`).
-/

namespace LayoutCompletion

open Markup Text

/-! ## Outlines -/

/-- What an element tells apart from places. -/
structure Outline where
  tag : String
  /-- Prefix, local name and value. -/
  attributes : List (String × String × String)
  parent : Option Nat
  children : List Nat
deriving DecidableEq, Repr

/-- The element without its places. -/
def Element.outline (e : Element) : Outline where
  tag := e.tag
  attributes := e.attributes.map fun a => (a.qualifier, a.base, a.value)
  parent := e.parent
  children := e.children

/-- The elements in document order. -/
def Document.outlines (d : Document) : List Outline :=
  d.elements.toList.map Element.outline

theorem Document.length_outlines (d : Document) : d.outlines.length = d.size :=
  List.length_map Element.outline

theorem Document.getElem?_outlines (d : Document) (i : Nat) :
    d.outlines[i]? = d.elements[i]?.map Element.outline := by
  rw [outlines, List.getElem?_map, Array.getElem?_toList]

namespace Markup.Tree

mutual

/-- The number of elements of a tree. -/
def size : Tree → Nat
  | .node _ _ children => sizeAll children + 1

/-- The number of elements of trees. -/
def sizeAll : List Tree → Nat
  | [] => 0
  | t :: ts => t.size + sizeAll ts

end

/-- The numbers of the roots if all elements are numbered, one tree after the other. -/
def numbersFrom (first : Nat) : List Tree → List Nat
  | [] => []
  | t :: ts => first :: numbersFrom (first + t.size) ts

/-- Prefix, local name and value of attributes. -/
def attributeOutlines (attributes : List (ProperName × List Char)) :
    List (String × String × String) :=
  attributes.map fun (n, value) =>
    (String.ofList n.name.space, String.ofList n.name.base, String.ofList value)

mutual

/-- The elements of a tree in document order, if the root gets this number and stands in `parent`.
-/
def outlines (parent : Option Nat) (number : Nat) : Tree → List Outline
  | .node tag attributes children =>
    ⟨String.ofList tag.name.text, attributeOutlines attributes, parent,
      numbersFrom (number + 1) children⟩ :: outlinesAll (some number) (number + 1) children

/-- The elements of trees one after the other, of which the first root gets this number. -/
def outlinesAll (parent : Option Nat) (number : Nat) : List Tree → List Outline
  | [] => []
  | t :: ts => t.outlines parent number ++ outlinesAll parent (number + t.size) ts

end

mutual

theorem length_outlines (parent : Option Nat) (number : Nat) :
    ∀ t : Tree, (t.outlines parent number).length = t.size
  | .node _ _ children => by
    rw [outlines, size, List.length_cons, length_outlinesAll]

theorem length_outlinesAll (parent : Option Nat) (number : Nat) :
    ∀ ts : List Tree, (outlinesAll parent number ts).length = sizeAll ts
  | [] => rfl
  | t :: ts => by
    rw [outlinesAll, sizeAll, List.length_append, length_outlines, length_outlinesAll]

end

end Markup.Tree

namespace Outline

/-- Adds children. -/
def adopt (more : List Nat) (o : Outline) : Outline :=
  { o with children := o.children ++ more }

/-- Adds attributes. -/
def gain (more : List (String × String × String)) (o : Outline) : Outline :=
  { o with attributes := o.attributes ++ more }

theorem adopt_nil : adopt [] = id := by
  funext o
  simp [adopt]

theorem adopt_comp (ms ns : List Nat) : adopt ns ∘ adopt ms = adopt (ms ++ ns) := by
  funext o
  simp [adopt]

theorem gain_nil : gain [] = id := by
  funext o
  simp [gain]

theorem gain_comp (as bs : List (String × String × String)) :
    gain bs ∘ gain as = gain (as ++ bs) := by
  funext o
  simp [gain]

/-- Changes one of the outlines, if there is one to be changed. -/
def modifyAt (node? : Option Nat) (f : Outline → Outline) (rows : List Outline) : List Outline :=
  node?.elim rows fun node => rows.modify node f

variable {node? : Option Nat} {f g : Outline → Outline} {rows more : List Outline} {o : Outline}

theorem getElem?_modifyAt (i : Nat) :
    (modifyAt node? f rows)[i]? = if node? = some i then rows[i]?.map f else rows[i]? := by
  cases node? with
  | none => rfl
  | some node =>
    show (rows.modify node f)[i]? = _
    rw [List.getElem?_modify]
    by_cases hi : node = i <;> simp [hi]

theorem length_modifyAt : (modifyAt node? f rows).length = rows.length := by
  cases node? with
  | none => rfl
  | some node => exact List.length_modify f rows node

theorem modifyAt_modifyAt :
    modifyAt node? g (modifyAt node? f rows) = modifyAt node? (g ∘ f) rows := by
  cases node? with
  | none => rfl
  | some node => exact List.modify_modify_eq f g node rows

theorem modifyAt_id : modifyAt node? id rows = rows := by
  cases node? with
  | none => rfl
  | some node => exact List.modify_id node rows

/-- Rows that are added behind have no influence on a change before. -/
theorem modifyAt_append (h : ∀ node ∈ node?, node < rows.length) :
    modifyAt node? f (rows ++ more) = modifyAt node? f rows ++ more := by
  refine List.ext_getElem? fun i => ?_
  rw [getElem?_modifyAt, List.getElem?_append, List.getElem?_append, length_modifyAt,
    getElem?_modifyAt]
  by_cases hi : i < rows.length
  · rw [if_pos hi, if_pos hi]
  · have hne : node? ≠ some i := fun he => hi (h i he)
    rw [if_neg hi, if_neg hi, if_neg hne]

theorem modifyAt_length {node : Nat} (h : rows.length = node) :
    modifyAt (some node) f (rows ++ o :: more) = rows ++ f o :: more := by
  subst h
  show (rows ++ o :: more).modify rows.length f = _
  induction rows with
  | nil => rfl
  | cons row rows ih => exact congrArg (row :: ·) ih

end Outline

namespace Builder

open Outline Tree

variable {b b' b'' : Builder} {trees siblings : List Tree} {tree : Tree} {ts : List Token}

/-! ## Outlines behind a token -/

theorem length_modifyAt_outlines (d : Document) (node? : Option Nat) (f : Outline → Outline) :
    (modifyAt node? f d.outlines).length = d.size := by
  rw [length_modifyAt, Document.length_outlines]

theorem outlines_modifyInnermost (b : Builder) {f : Element → Element} {g : Outline → Outline}
    (h : ∀ e, (f e).outline = g e.outline) :
    (b.modifyInnermost f).document.outlines =
      modifyAt b.openNodes.head? g b.document.outlines := by
  refine List.ext_getElem? fun i => ?_
  have helement : (b.modifyInnermost f).document.elements[i]? =
      if b.openNodes.head? = some i then b.document.elements[i]?.map f
      else b.document.elements[i]? := elements_modifyInnermost b f i
  rw [getElem?_modifyAt, Document.getElem?_outlines, Document.getElem?_outlines, helement]
  split <;> simp [Function.comp_def, h]

theorem qualify_properName (n : ProperName) :
    qualify (String.ofList n.name.space) (String.ofList n.name.base) =
      String.ofList n.name.text := by
  rw [← String.toList_inj, toList_qualify, String.toList_ofList, QualifiedName.shown,
    if_neg n.proper]

theorem outlines_push_openTag (b : Builder) (tag : ProperName) :
    (b.push (.openTag tag.name)).document.outlines =
      modifyAt b.openNodes.head? (adopt [b.document.size]) b.document.outlines ++
        [⟨String.ofList tag.name.text, [], b.openNodes.head?, []⟩] := by
  have hadopted := outlines_modifyInnermost b (f := fun e =>
    { e with children := e.children ++ [b.document.size] }) (g := adopt [b.document.size])
      fun e => rfl
  rw [← hadopted, ← qualify_properName]
  show (Array.push _ _).toList.map Element.outline = _
  rw [Array.toList_push, List.map_append]
  rfl

theorem outlines_push_attribute (b : Builder) (lead : List Char) (name : ProperName)
    (equals : List Char) (q : Char) (value : List Char) :
    (b.push (.attribute lead name.name equals q value)).document.outlines =
      modifyAt b.openNodes.head? (gain (attributeOutlines [(name, value)]))
        b.document.outlines :=
  outlines_modifyInnermost b fun e => by
    simp [Element.outline, gain, endTagAt, attributeAt, attributeOutlines]

theorem outlines_push_tagEnd (b : Builder) (lead : List Char) (selfClosing : Bool) :
    (b.push (.tagEnd lead selfClosing)).document.outlines = b.document.outlines := by
  have h := outlines_modifyInnermost b (f := endTagAt (b.offset +
    utf8Length (Token.tagEnd lead selfClosing).text)) (g := id) fun e => rfl
  rw [modifyAt_id] at h
  cases selfClosing <;> exact h

/-! ## Outlines behind a start tag -/

theorem after_of_spellsParts {attributes : List (ProperName × List Char)}
    (h : SpellsParts attributes ts) (b : Builder) :
    (b.after ts).openNodes = b.openNodes ∧ (b.after ts).document.outlines =
      modifyAt b.openNodes.head? (gain (attributeOutlines attributes)) b.document.outlines := by
  induction h generalizing b with
  | done =>
    refine ⟨rfl, ?_⟩
    show b.document.outlines = modifyAt _ (gain []) _
    rw [gain_nil, modifyAt_id]
  | @part ts name attributes lead equals value q _ ih =>
    obtain ⟨hopen, houtlines⟩ := ih (b.push (.attribute lead name.name equals q value))
    have hsame : (b.push (.attribute lead name.name equals q value)).openNodes = b.openNodes :=
      openNodes_push _ _
    refine ⟨hopen.trans hsame, ?_⟩
    rw [after_cons, houtlines, hsame, outlines_push_attribute, modifyAt_modifyAt, gain_comp]
    rfl

/-- Behind its name and its attributes, an element is the last and the innermost one. -/
theorem after_startTag {attributes : List (ProperName × List Char)} (tag : ProperName)
    (h : SpellsParts attributes ts) (b : Builder) :
    (b.after (.openTag tag.name :: ts)).openNodes = b.document.size :: b.openNodes ∧
      (b.after (.openTag tag.name :: ts)).document.outlines =
        modifyAt b.openNodes.head? (adopt [b.document.size]) b.document.outlines ++
          [⟨String.ofList tag.name.text, attributeOutlines attributes, b.openNodes.head?, []⟩] := by
  obtain ⟨hopen, houtlines⟩ := after_of_spellsParts h (b.push (.openTag tag.name))
  have hnew : (b.push (.openTag tag.name)).openNodes = b.document.size :: b.openNodes :=
    openNodes_push _ _
  refine ⟨hopen.trans hnew, ?_⟩
  rw [after_cons, houtlines, hnew, List.head?_cons, outlines_push_openTag,
    modifyAt_length (length_modifyAt_outlines _ _ _)]
  rfl

/-! ## Outlines behind trees -/

/-- The one builder comes from the other one by adding the trees to the innermost element. -/
structure Gains (b : Builder) (trees : List Tree) (b' : Builder) : Prop where
  openNodes : b'.openNodes = b.openNodes
  outlines : b'.document.outlines =
    modifyAt b.openNodes.head? (adopt (numbersFrom b.document.size trees)) b.document.outlines ++
      outlinesAll b.openNodes.head? b.document.size trees

theorem Gains.size (h : Gains b trees b') :
    b'.document.size = b.document.size + sizeAll trees := by
  rw [← Document.length_outlines, h.outlines, List.length_append, length_modifyAt_outlines,
    length_outlinesAll]

theorem gains_nil (b : Builder) : Gains b [] b where
  openNodes := rfl
  outlines := by
    rw [numbersFrom, adopt_nil, modifyAt_id, outlinesAll, List.append_nil]

theorem Gains.cons (hopen : ∀ n ∈ b.openNodes, n < b.document.size) (h : Gains b [tree] b')
    (hmore : Gains b' siblings b'') : Gains b (tree :: siblings) b'' where
  openNodes := hmore.openNodes.trans h.openNodes
  outlines := by
    have hsize : b'.document.size = b.document.size + tree.size := h.size
    have hlt : ∀ node ∈ b.openNodes.head?, node < (modifyAt b.openNodes.head?
        (adopt (numbersFrom b.document.size [tree])) b.document.outlines).length := by
      intro node hnode
      rw [length_modifyAt_outlines]
      exact hopen node (List.mem_of_head? hnode)
    rw [hmore.outlines, h.openNodes, h.outlines, modifyAt_append hlt, modifyAt_modifyAt, hsize,
      adopt_comp, List.append_assoc]
    simp only [numbersFrom, outlinesAll, List.append_nil, List.singleton_append]

/-- Trees are added to elements that are there. -/
theorem Gains.open_lt (h : Gains b trees b') (hopen : ∀ n ∈ b.openNodes, n < b.document.size) :
    ∀ n ∈ b'.openNodes, n < b'.document.size := by
  intro n hn
  rw [h.openNodes] at hn
  rw [h.size]
  exact Nat.lt_of_lt_of_le (hopen n hn) (Nat.le_add_right _ _)

section
variable {attributes : List (ProperName × List Char)} {parts inner : List Token}

theorem gains_closed (tag : ProperName) (hparts : SpellsParts attributes parts)
    (lead : List Char) (b : Builder) :
    Gains b [.node tag attributes []]
      (b.after (.openTag tag.name :: (parts ++ [.tagEnd lead true]))) := by
  obtain ⟨hopen, houtlines⟩ := after_startTag tag hparts b
  rw [← List.cons_append, after_append, after_cons, after_nil]
  constructor
  · rw [openNodes_push, hopen]
    rfl
  · rw [outlines_push_tagEnd, houtlines]
    rfl

theorem gains_paired {children : List Tree} (tag : ProperName)
    (hparts : SpellsParts attributes parts) (lead trail : List Char)
    (hinner : ∀ b : Builder, (∀ n ∈ b.openNodes, n < b.document.size) →
      Gains b children (b.after inner))
    {b : Builder} (hopen : ∀ n ∈ b.openNodes, n < b.document.size) :
    Gains b [.node tag attributes children] (b.after (.openTag tag.name ::
      (parts ++ .tagEnd lead false :: (inner ++ [.closeTag tag.name trail])))) := by
  obtain ⟨hstart, houtlines⟩ := after_startTag tag hparts b
  rw [← List.cons_append, after_append, after_cons, after_append, after_cons, after_nil]
  -- behind the start tag the element is the innermost one, and the trees go into it
  generalize hb : (b.after (.openTag tag.name :: parts)).push (.tagEnd lead false) = b₁
  have hstart₁ : b₁.openNodes = b.document.size :: b.openNodes := by
    rw [← hb, openNodes_push]
    exact hstart
  have houtlines₁ : b₁.document.outlines =
      modifyAt b.openNodes.head? (adopt [b.document.size]) b.document.outlines ++
        [⟨String.ofList tag.name.text, attributeOutlines attributes, b.openNodes.head?, []⟩] := by
    rw [← hb, outlines_push_tagEnd]
    exact houtlines
  have hsize₁ : b₁.document.size = b.document.size + 1 := by
    rw [← Document.length_outlines, houtlines₁, List.length_append, length_modifyAt_outlines]
    rfl
  have hopen₁ : ∀ n ∈ b₁.openNodes, n < b₁.document.size := by
    rw [hstart₁, hsize₁]
    intro n hn
    rcases List.mem_cons.mp hn with rfl | hn
    · exact Nat.lt_succ_self _
    · exact Nat.lt_succ_of_lt (hopen n hn)
  have hgains := hinner b₁ hopen₁
  constructor
  · rw [openNodes_push, hgains.openNodes, hstart₁]
    rfl
  · show (b₁.after inner).document.outlines = _
    rw [hgains.outlines, hstart₁, houtlines₁, hsize₁, List.head?_cons,
      modifyAt_length (length_modifyAt_outlines _ _ _), List.append_assoc]
    simp only [Tree.outlines, outlinesAll, numbersFrom, adopt, List.nil_append, List.append_nil,
      List.singleton_append]

end

/-- Tokens that spell trees add these trees, whatever was there before. -/
theorem gains_of_spells (h : Spells trees ts) {b : Builder}
    (hopen : ∀ n ∈ b.openNodes, n < b.document.size) : Gains b trees (b.after ts) := by
  induction h generalizing b with
  | done => exact gains_nil b
  | skipped text _ ih =>
    obtain ⟨hopenNodes, houtlines⟩ := ih (b := b.push (.skipped text)) hopen
    exact ⟨hopenNodes, houtlines⟩
  | @closed attributes siblings parts ts tag lead hparts _ ih =>
    have hfirst := gains_closed tag hparts lead b
    have hsplit : Token.openTag tag.name :: (parts ++ .tagEnd lead true :: ts) =
        .openTag tag.name :: (parts ++ [.tagEnd lead true]) ++ ts := by simp
    rw [hsplit, after_append]
    exact hfirst.cons hopen (ih (hfirst.open_lt hopen))
  | @paired attributes children siblings parts inner ts tag lead trail hparts _ _ ihinner ih =>
    have hfirst := gains_paired tag hparts lead trail (fun _ => ihinner) hopen
    have hsplit : Token.openTag tag.name :: (parts ++ .tagEnd lead false ::
          (inner ++ .closeTag tag.name trail :: ts)) =
        .openTag tag.name :: (parts ++ .tagEnd lead false ::
          (inner ++ [.closeTag tag.name trail])) ++ ts := by simp
    rw [hsplit, after_append]
    exact hfirst.cons hopen (ih (hfirst.open_lt hopen))

end Builder

/-! ## Texts -/

/-- Each way of writing a tree is a text of which the document is this tree. -/
theorem Document.outlines_of_writes {tree : Tree} {text : String}
    (h : Writes [tree] text.toList) :
    ∃ d, Document.parse text = .ok d ∧ d.outlines = tree.outlines none 0 := by
  obtain ⟨ts, hspells, hreads⟩ := exists_readsText_of_writes h
  have htokens : tokens text.toList = ⟨ts, none⟩ := by
    rw [tokens_of_readsText hreads, tokensFrom, dif_pos rfl, List.append_nil]
  have hgains := Builder.gains_of_spells hspells (b := Builder.empty) (by simp [Builder.empty])
  refine ⟨Document.ofTokens ts, ?_, ?_⟩
  · unfold Document.parse Document.parseChars
    rw [htokens]
  · rw [Builder.ofTokens_eq, hgains.outlines]
    exact List.append_nil _

/-! ## A sample -/

/-- A name of two letters, of which the first one is the prefix. -/
def sampleTag : ProperName :=
  ⟨⟨some ['t'], ['a']⟩, ⟨by decide, by decide, by decide⟩, by decide⟩

/-- A name of one letter. -/
def sampleName : ProperName :=
  ⟨⟨none, ['b']⟩, ⟨by decide, by decide, by decide⟩, by decide⟩

def sampleTree : Tree :=
  .node sampleTag [(sampleName, ['\x22'])] [.node sampleName [] [], .node sampleName [] []]

theorem writes_sampleTree :
    Writes [sampleTree] "<t:a b = '\x22'><b/>\n<b></b >\t</t:a>".toList := by
  have hparts : WritesParts [(sampleName, ['\x22'])] " b = '\x22'".toList :=
    @WritesParts.part [' '] [' ', '=', ' '] ['\x22'] [] sampleName '\x27' [] (by decide) (by decide)
      ⟨[' '], [' '], by decide, by decide, rfl⟩ (Or.inr rfl) (by decide) (.done (by decide))
  have hlast : Writes [.node sampleName [] []] "\n<b></b >\t".toList :=
    @Writes.paired ['\n'] [] [] [' '] ['\t'] sampleName [] [] [] (by decide) (.done (by decide))
      (.done (by decide)) (by decide) (.done (by decide))
  have hinner : Writes [.node sampleName [] [], .node sampleName [] []]
      "<b/>\n<b></b >\t".toList :=
    @Writes.closed [] [] _ sampleName [] _ (by decide) (.done (by decide)) hlast
  exact @Writes.paired [] _ _ [] [] sampleTag _ _ [] (by decide) hparts hinner (by decide)
    (.done (by decide))

theorem outlines_of_writes_sample :
    ∃ d, Document.parse "<t:a b = '\x22'><b/>\n<b></b >\t</t:a>" = .ok d ∧
      d.outlines = [⟨"t:a", [("", "b", "\x22")], none, [1, 2]⟩, ⟨"b", [], some 0, []⟩,
        ⟨"b", [], some 0, []⟩] := by
  obtain ⟨d, hparse, houtlines⟩ := Document.outlines_of_writes writes_sampleTree
  refine ⟨d, hparse, houtlines.trans ?_⟩
  decide

end LayoutCompletion
