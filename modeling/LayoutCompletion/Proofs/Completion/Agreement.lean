import LayoutCompletion.Completion.Complete
import LayoutCompletion.Proofs.Document.Lookup

/-!
# What completion reads of a document

Completion at an attribute reads tags and parents, what the elements declare, and the names of the
other attributes of the element. Two documents that agree on these give the same completions at
one cursor (`completeInBy_congr`).

So does a document in which that attribute has another name, if neither name declares a namespace:
the two documents agree behind the attribute (`agree_push`), and they go on to agree whatever tokens
follow (`Builder.Agree.after`).
-/

namespace LayoutCompletion

open Markup Text

/-- The documents agree on all that completion reads at the attribute with number `index` of the
element `node`. -/
structure Document.Agree (node index : Nat) (d d' : Document) : Prop where
  tag : d.tag = d'.tag
  parent : d.parent? = d'.parent?
  declarations : d.declarations = d'.declarations
  present : presentNames (d.attributes node) index = presentNames (d'.attributes node) index

namespace Document.Agree

variable {node index : Nat} {d d' : Document}

theorem ancestors (h : Agree node index d d') (n : Nat) : d.ancestors n = d'.ancestors n := by
  induction n using Nat.strongRecOn with
  | ind n ih =>
    rw [Document.ancestors, Document.ancestors, ← h.parent]
    split
    · rfl
    · next p hp =>
      split
      · next hlt => rw [ih p hlt]
      · rfl

theorem namespaceUri? (h : Agree node index d d') (n : Nat) (space : String) :
    d.namespaceUri? n space = d'.namespaceUri? n space := by
  unfold Document.namespaceUri?
  rw [h.ancestors, h.declarations]

theorem namespaceDeclarations (h : Agree node index d d') (n : Nat) :
    d.namespaceDeclarations n = d'.namespaceDeclarations n := by
  unfold Document.namespaceDeclarations
  rw [h.ancestors, h.declarations]

theorem resolve (h : Agree node index d d') (widgets : WidgetIndex) (n : Nat)
    (package : Package) : widgets.resolve d n package = widgets.resolve d' n package := by
  unfold WidgetIndex.resolve WidgetIndex.applicableNames WidgetIndex.parentNames
  rw [h.tag, h.parent]

theorem ofTyped (h : Agree node index d d') (n : Nat) (r : ResourceRegistry)
    (typed : List Char) : Search.ofTyped d n r typed = Search.ofTyped d' n r typed := by
  unfold Search.ofTyped boundSearch? fanOut
  simp only [h.namespaceUri?, h.namespaceDeclarations]

theorem candidatesBy (h : Agree node index d d') (order : Enumeration) (s : Search)
    (matcher : Matcher) (widgets : WidgetIndex) (n : Nat) :
    s.candidatesBy order matcher widgets d n = s.candidatesBy order matcher widgets d' n := by
  unfold Search.candidatesBy
  simp only [h.resolve]

theorem ofCandidates (h : Agree node index d d') (settings : CompletionSettings)
    (candidates : List Candidate) :
    CompletionList.ofCandidates settings (d.attributes node) index candidates =
      CompletionList.ofCandidates settings (d'.attributes node) index candidates := by
  unfold CompletionList.ofCandidates withoutPresent
  rw [h.present]

end Document.Agree

/-- Completion at one cursor does not tell documents apart that agree. -/
theorem completeInBy_congr {order : Enumeration} {ctx : CompletionContext} {matcher : Matcher}
    {d d' : Document} {offset : Nat} {cursor : Cursor}
    (h : Document.Agree cursor.node cursor.index d d')
    (hd : d.cursor? offset = some cursor) (hd' : d'.cursor? offset = some cursor) :
    completeInBy order ctx d offset matcher = completeInBy order ctx d' offset matcher := by
  unfold completeInBy
  rw [hd, hd']
  dsimp only
  rw [h.ofTyped, h.candidatesBy, h.ofCandidates]

/-! ## Going on from documents that agree -/

/-- The builders agree on which elements there are, what they are called, and which are open. -/
structure Builder.Alike (b b' : Builder) : Prop where
  openNodes : b.openNodes = b'.openNodes
  size : b.document.size = b'.document.size
  open_lt : ∀ n ∈ b.openNodes, n < b.document.size
  tag : b.document.tag = b'.document.tag
  parent : b.document.parent? = b'.document.parent?

/-- The builders agree on all that completion reads, and the attribute is there in both. -/
structure Builder.Agree (node index : Nat) (b b' : Builder) : Prop where
  openNodes : b.openNodes = b'.openNodes
  size : b.document.size = b'.document.size
  open_lt : ∀ n ∈ b.openNodes, n < b.document.size
  document : Document.Agree node index b.document b'.document
  counted : index < (b.document.attributes node).length
  counted' : index < (b'.document.attributes node).length

theorem presentNames_append {as : List Attribute} {index : Nat} (h : index < as.length)
    (more : List Attribute) :
    presentNames (as ++ more) index = presentNames as index ++
      more.filterMap fun a => if a.isNamespaceDeclaration then none else some a.name := by
  unfold presentNames
  rw [List.eraseIdx_append_of_lt_length h, List.filterMap_append]

namespace Builder

variable {node index : Nat} {b b' : Builder}

theorem Alike.open_lt' (h : Alike b b') : ∀ n ∈ b'.openNodes, n < b'.document.size := by
  rw [← h.openNodes, ← h.size]
  exact h.open_lt

/-- Builders that are alike still are so behind a token. -/
theorem Alike.push (h : Alike b b') (t : Token) : Alike (b.push t) (b'.push t) := by
  refine ⟨?_, ?_, open_lt_push h.open_lt, ?_, ?_⟩
  · rw [openNodes_push, openNodes_push, h.openNodes, h.size]
  · rw [size_push, size_push, h.size]
  · funext n
    rw [tag_push, tag_push, h.size, h.tag]
  · funext n
    rw [parent?_push, parent?_push, h.size, h.openNodes, h.parent]

/-- They are so behind attributes of different names. -/
theorem alike_push (hopen : ∀ n ∈ b.openNodes, n < b.document.size)
    (lead equals value : List Char) (name name' : QualifiedName) (q : Char) :
    Alike (b.push (.attribute lead name equals q value))
      (b.push (.attribute lead name' equals q value)) := by
  refine ⟨?_, ?_, open_lt_push hopen, ?_, ?_⟩
  · rw [openNodes_push, openNodes_push]
  · rw [size_push, size_push]
    rfl
  · funext n
    rw [tag_push, tag_push]
    rfl
  · funext n
    rw [parent?_push, parent?_push]
    rfl

theorem Agree.alike (h : Agree node index b b') : Alike b b' :=
  ⟨h.openNodes, h.size, h.open_lt, h.document.tag, h.document.parent⟩

theorem lt_length_attributes_push (hopen : ∀ n ∈ b.openNodes, n < b.document.size)
    (h : index < (b.document.attributes node).length) (t : Token) :
    index < ((b.push t).document.attributes node).length := by
  rw [attributes_push hopen, List.length_append]
  exact Nat.lt_add_right _ h

/-- What a token adds to an element is the same but for its place. -/
theorem filterMap_gained {α : Type} {f : Attribute → Option α}
    (hf : ∀ o o' lead name value stop stop',
      f (attributeAt o lead name value stop) = f (attributeAt o' lead name value stop'))
    (hopen : b.openNodes = b'.openNodes) (t : Token) (n : Nat) :
    (b.gained t n).filterMap f = (b'.gained t n).filterMap f := by
  unfold gained
  rw [← hopen]
  split
  · split
    · rw [List.filterMap_cons, List.filterMap_cons, hf]
    · rfl
  · rfl

theorem declarations_push (hopen : ∀ n ∈ b.openNodes, n < b.document.size) (t : Token) (n : Nat) :
    (b.push t).document.declarations n = b.document.declarations n ++
      (b.gained t n).filterMap fun a =>
        if a.qualifier = "xmlns" then some (a.base, a.value) else none := by
  unfold Document.declarations
  rw [attributes_push hopen, List.filterMap_append]

/-- Builders that agree still do so behind a token. -/
theorem Agree.push (h : Agree node index b b') (t : Token) :
    Agree node index (b.push t) (b'.push t) := by
  have halike := h.alike.push t
  have hopen' := h.alike.open_lt'
  refine ⟨halike.openNodes, halike.size, halike.open_lt, ⟨halike.tag, halike.parent, ?_, ?_⟩,
    lt_length_attributes_push h.open_lt h.counted t,
    lt_length_attributes_push hopen' h.counted' t⟩
  · funext n
    rw [declarations_push h.open_lt, declarations_push hopen', h.document.declarations]
    exact congrArg _ (filterMap_gained (fun _ _ _ _ _ _ _ => rfl) h.openNodes t n)
  · rw [attributes_push h.open_lt, attributes_push hopen', presentNames_append h.counted,
      presentNames_append h.counted', h.document.present]
    exact congrArg _ (filterMap_gained (fun _ _ _ _ _ _ _ => rfl) h.openNodes t node)

/-- Builders that agree still do so behind any tokens. -/
theorem Agree.after (h : Agree node index b b') (ts : List Token) :
    Agree node index (b.after ts) (b'.after ts) := by
  induction ts generalizing b b' with
  | nil => exact h
  | cons t ts ih => exact ih (h.push t)

/-- Behind an attribute, its name does not matter to completion at it unless it declares a
namespace. -/
theorem agree_push {m : Mode} (hfits : Fits m b) (hin : b.InTag node)
    {lead equals value : List Char} {name name' : QualifiedName} {q : Char}
    (hname : String.ofList name.space ≠ "xmlns") (hname' : String.ofList name'.space ≠ "xmlns") :
    Agree node (b.document.attributes node).length
      (b.push (.attribute lead name equals q value))
      (b.push (.attribute lead name' equals q value)) := by
  have hdeclares (name : QualifiedName) (h : String.ofList name.space ≠ "xmlns") (n : Nat) :
      (b.push (.attribute lead name equals q value)).document.declarations n =
        b.document.declarations n := by
    rw [declarations_push hfits.open_lt]
    unfold gained
    dsimp only
    split
    · rw [List.filterMap_cons, attributeAt, if_neg h, List.filterMap_nil, List.append_nil]
    · rw [List.filterMap_nil, List.append_nil]
  have hattributes (name : QualifiedName) := attributes_push hfits.open_lt
    (.attribute lead name equals q value) node
  have halike := alike_push hfits.open_lt lead equals value name name' q
  refine ⟨halike.openNodes, halike.size, halike.open_lt, ⟨halike.tag, halike.parent, ?_, ?_⟩,
    ?_, ?_⟩
  · funext n
    rw [hdeclares name hname, hdeclares name' hname']
  · -- the two attributes are at the place that is left out
    unfold presentNames
    rw [hattributes, hattributes, gained_of_inTag hin, gained_of_inTag hin,
      List.eraseIdx_append_of_length_le (Nat.le_refl _),
      List.eraseIdx_append_of_length_le (Nat.le_refl _), Nat.sub_self, List.eraseIdx_cons_zero,
      List.eraseIdx_cons_zero]
  · rw [hattributes, gained_of_inTag hin]
    simp
  · rw [hattributes, gained_of_inTag hin]
    simp

end Builder

end LayoutCompletion
