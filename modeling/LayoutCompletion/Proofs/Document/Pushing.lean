import LayoutCompletion.Document.Build
import LayoutCompletion.Proofs.Markup.Tags

/-!
# Taking in one token

What `Builder.push` does to each part of an element: its tag, its parent, its attributes and the
place of its start tag. An element that does not exist has the empty tag, no parent, no attributes
and no place, so that one equation each says everything (`tag_push`, `parent?_push`,
`attributes_push`, `span?_push`). Nothing further on looks at how elements are stored.
-/

namespace LayoutCompletion

open Markup Text

/-- The place of the start tag of an element, if there is such an element. -/
def Document.span? (d : Document) (node : Nat) : Option Span :=
  d.elements[node]?.map Element.span

/-- The name of the element that the token opens. -/
def Markup.Token.opened? : Token → Option QualifiedName
  | .openTag name => some name
  | _ => none

namespace Builder

/-- The elements read so far. -/
def document (b : Builder) : Document := ⟨b.elements⟩

/-- The attribute that a token gives an element, as a list of none or one. -/
def gained (b : Builder) (t : Token) (node : Nat) : List Attribute :=
  match t with
  | .attribute lead name _ _ value =>
    if b.openNodes.head? = some node then
      [attributeAt b.offset lead name value (b.offset + utf8Length t.text)]
    else []
  | _ => []

/-- A token gives an element nothing unless it is an attribute in the start tag of the element. -/
theorem gained_eq (b : Builder) (t : Token) (node : Nat) :
    b.gained t node = [] ∨ ∃ lead name equals q value,
      t = .attribute lead name equals q value ∧ b.openNodes.head? = some node ∧
        b.gained t node =
          [attributeAt b.offset lead name value (b.offset + utf8Length t.text)] := by
  unfold gained
  split
  · next lead name equals q value =>
    split
    · next hhead => exact Or.inr ⟨lead, name, equals, q, value, rfl, hhead, rfl⟩
    · exact Or.inl rfl
  · exact Or.inl rfl

@[simp] theorem document_empty : empty.document = Document.empty := rfl

@[simp] theorem offset_push (b : Builder) (t : Token) :
    (b.push t).offset = b.offset + utf8Length t.text := rfl

/-! ## The innermost element -/

theorem elements_modifyInnermost (b : Builder) (f : Element → Element) (node : Nat) :
    (b.modifyInnermost f).elements[node]? =
      if b.openNodes.head? = some node then b.elements[node]?.map f else b.elements[node]? := by
  unfold modifyInnermost
  split
  · next h => simp [h]
  · next inner rest h => simp [h, Array.getElem?_modify]

theorem size_modifyInnermost (b : Builder) (f : Element → Element) :
    (b.modifyInnermost f).elements.size = b.elements.size := by
  unfold modifyInnermost
  split
  · rfl
  · exact Array.size_modify

theorem openNodes_modifyInnermost (b : Builder) (f : Element → Element) :
    (b.modifyInnermost f).openNodes = b.openNodes := by
  unfold modifyInnermost
  split <;> rfl

/-! ## Elements behind a token -/

theorem size_push (b : Builder) (t : Token) :
    (b.push t).document.size = b.document.size + if t.opened?.isSome then 1 else 0 := by
  show (b.push t).elements.size = b.elements.size + _
  rcases t with _ | name | ⟨lead, name, equals, q, value⟩ | ⟨lead, selfClosing⟩ | _
  · rfl
  · simp [push, change, enter, size_modifyInnermost, Token.opened?]
  · simp [push, change, size_modifyInnermost, Token.opened?]
  · cases selfClosing <;> simp [push, change, size_modifyInnermost, Token.opened?]
  · rfl

theorem openNodes_push (b : Builder) (t : Token) :
    (b.push t).openNodes =
      match t with
      | .openTag _ => b.document.size :: b.openNodes
      | .tagEnd _ true | .closeTag _ _ => b.openNodes.tail
      | _ => b.openNodes := by
  rcases t with _ | name | ⟨lead, name, equals, q, value⟩ | ⟨lead, selfClosing⟩ | _
  · rfl
  · rfl
  · exact openNodes_modifyInnermost _ _
  · cases selfClosing <;> simp [push, change, openNodes_modifyInnermost]
  · rfl

/-- The element with this number behind the token, from the one before it. -/
theorem elements_push (b : Builder) (t : Token) (node : Nat) :
    (b.push t).elements[node]? =
      match t with
      | .skipped _ | .closeTag _ _ => b.elements[node]?
      | .openTag name =>
        if node = b.document.size then
          some ⟨qualify (String.ofList name.space) (String.ofList name.base),
            ⟨b.offset, b.offset + utf8Length t.text⟩, [], b.openNodes.head?, []⟩
        else if b.openNodes.head? = some node then
          b.elements[node]?.map fun e => { e with children := e.children ++ [b.document.size] }
        else b.elements[node]?
      | .attribute .. =>
        if b.openNodes.head? = some node then
          b.elements[node]?.map fun e =>
            { endTagAt (b.offset + utf8Length t.text) e with
              attributes := e.attributes ++ b.gained t node }
        else b.elements[node]?
      | .tagEnd _ _ =>
        if b.openNodes.head? = some node then
          b.elements[node]?.map (endTagAt (b.offset + utf8Length t.text))
        else b.elements[node]? := by
  rcases t with _ | name | ⟨lead, name, equals, q, value⟩ | ⟨lead, selfClosing⟩ | _
  · rfl
  · show (Array.push _ _)[node]? = _
    rw [Array.getElem?_push, size_modifyInnermost, elements_modifyInnermost]
    rfl
  · refine (elements_modifyInnermost _ _ _).trans ?_
    by_cases hinner : b.openNodes.head? = some node
    · simp [hinner, gained]
    · simp [hinner]
  · cases selfClosing <;> exact elements_modifyInnermost _ _ _
  · rfl

theorem tag_eq (d : Document) (node : Nat) :
    d.tag node = (d.elements[node]?.map Element.tag).getD "" := by
  unfold Document.tag
  cases d.elements[node]? <;> rfl

theorem attributes_eq (d : Document) (node : Nat) :
    d.attributes node = (d.elements[node]?.map Element.attributes).getD [] := by
  unfold Document.attributes
  cases d.elements[node]? <;> rfl

theorem getElem?_size (b : Builder) : b.elements[b.document.size]? = none :=
  Array.getElem?_eq_none (Nat.le_refl _)

/-- There is an element for every number below the size. -/
theorem exists_element {b : Builder} {node : Nat} (h : node < b.document.size) :
    ∃ e, b.elements[node]? = some e :=
  ⟨_, Array.getElem?_eq_getElem h⟩

theorem head?_ne_size {b : Builder} (hopen : ∀ n ∈ b.openNodes, n < b.document.size) :
    b.openNodes.head? ≠ some b.document.size := fun h =>
  Nat.lt_irrefl _ (hopen _ (List.mem_of_head? h))

theorem tag_push (b : Builder) (t : Token) (node : Nat) :
    (b.push t).document.tag node =
      if node = b.document.size then
        t.opened?.elim "" fun name =>
          qualify (String.ofList name.space) (String.ofList name.base)
      else b.document.tag node := by
  rw [tag_eq, tag_eq]
  show ((b.push t).elements[node]?.map _).getD _ = ite _ _ ((b.elements[node]?.map _).getD _)
  rw [elements_push]
  -- the element is the new one, the innermost one, or one that the token is not about
  by_cases hnew : node = b.document.size
  · subst hnew
    rw [if_pos rfl]
    cases t <;> simp [Token.opened?, getElem?_size]
  · rw [if_neg hnew]
    by_cases hinner : b.openNodes.head? = some node <;>
      cases t <;> simp [hnew, hinner, Function.comp_def, endTagAt]

theorem parent?_push (b : Builder) (t : Token) (node : Nat) :
    (b.push t).document.parent? node =
      if node = b.document.size then t.opened?.bind fun _ => b.openNodes.head?
      else b.document.parent? node := by
  show (b.push t).elements[node]?.bind _ = ite _ _ (b.elements[node]?.bind _)
  rw [elements_push]
  by_cases hnew : node = b.document.size
  · subst hnew
    rw [if_pos rfl]
    cases t <;> simp [Token.opened?, getElem?_size]
  · rw [if_neg hnew]
    by_cases hinner : b.openNodes.head? = some node <;>
      cases t <;> simp [hnew, hinner, Option.bind_map, Function.comp_def, endTagAt]

theorem attributes_push {b : Builder} (hopen : ∀ n ∈ b.openNodes, n < b.document.size)
    (t : Token) (node : Nat) :
    (b.push t).document.attributes node = b.document.attributes node ++ b.gained t node := by
  rw [attributes_eq, attributes_eq]
  show ((b.push t).elements[node]?.map _).getD _ =
    (b.elements[node]?.map Element.attributes).getD _ ++ _
  rw [elements_push]
  by_cases hnew : node = b.document.size
  · subst hnew
    have hhead := head?_ne_size hopen
    cases t <;> simp [getElem?_size, gained, hhead]
  · by_cases hinner : b.openNodes.head? = some node
    · obtain ⟨e, he⟩ := exists_element (hopen node (List.mem_of_head? hinner))
      cases t <;> simp [hnew, hinner, he, gained, endTagAt]
    · cases t <;> simp [hnew, hinner, gained]

theorem span?_push {b : Builder} (hopen : ∀ n ∈ b.openNodes, n < b.document.size)
    (t : Token) (node : Nat) :
    (b.push t).document.span? node =
      if node = b.document.size then
        t.opened?.map fun _ => ⟨b.offset, b.offset + utf8Length t.text⟩
      else if b.openNodes.head? = some node ∧ t.isTagPart = true then
        (b.document.span? node).map fun s => ⟨s.start, b.offset + utf8Length t.text⟩
      else b.document.span? node := by
  show (b.push t).elements[node]?.map _ = ite _ _ (ite _ ((b.elements[node]?.map _).map _)
    (b.elements[node]?.map _))
  rw [elements_push]
  by_cases hnew : node = b.document.size
  · subst hnew
    have hhead := head?_ne_size hopen
    cases t <;> simp [getElem?_size, Token.opened?, hhead]
  · by_cases hinner : b.openNodes.head? = some node
    · obtain ⟨e, he⟩ := exists_element (hopen node (List.mem_of_head? hinner))
      cases t <;> simp [hnew, hinner, he, Token.isTagPart, endTagAt]
    · cases t <;> simp [hnew, hinner]

end Builder

end LayoutCompletion
