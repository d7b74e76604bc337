import LayoutCompletion.Proofs.Completion.Unmarked
import LayoutCompletion.Proofs.Document.Bindings

/-!
# Namespaces under a cursor

A request reads its text anew, with the marker in the name under the cursor. Every element of the
document is there again, and every attribute but the one under the cursor
(`Builder.AgreeBut.after`). So prefixes stand for what they would stand for without that attribute
(`CompletionRequest.prepare_keeps_namespaces`). If it declared one, that declaration is gone.
-/

namespace LayoutCompletion

open Markup Markup.Scan Text

namespace Attribute

/-- The attribute declares the prefix. -/
def Declares (a : Attribute) (space : String) : Prop :=
  a.qualifier = "xmlns" ∧ a.base = space

instance (a : Attribute) (space : String) : Decidable (a.Declares space) :=
  inferInstanceAs (Decidable (_ ∧ _))

/-- The prefix that the attribute declares, and its namespace. -/
def declaration? (a : Attribute) : Option (String × String) :=
  if a.qualifier = "xmlns" then some (a.base, a.value) else none

theorem lookup_filterMap_cons {a : Attribute} {space : String} (h : ¬a.Declares space)
    (as : List Attribute) :
    ((a :: as).filterMap declaration?).lookup space = (as.filterMap declaration?).lookup space := by
  rw [List.filterMap_cons]
  cases hdeclares : a.declaration? with
  | none => rfl
  | some b =>
    unfold declaration? at hdeclares
    split at hdeclares
    · next hqualifier =>
      obtain rfl := Option.some.inj hdeclares
      have hne : space ≠ a.base := fun hsame => h ⟨hqualifier, hsame.symm⟩
      rw [List.lookup_cons, beq_eq_false_iff_ne.mpr hne]
    · cases hdeclares

end Attribute

/-! ## A document without an attribute -/

namespace Document

/-- The document without one attribute of an element. -/
def eraseAttribute (d : Document) (node index : Nat) : Document :=
  ⟨d.elements.modify node fun e => { e with attributes := e.attributes.eraseIdx index }⟩

variable {d d' : Document} {node index : Nat} {a : Attribute} {space : String}

theorem parent?_eraseAttribute (d : Document) (node index : Nat) :
    (d.eraseAttribute node index).parent? = d.parent? := by
  funext n
  unfold parent? eraseAttribute
  rw [Array.getElem?_modify]
  split
  · rw [Option.bind_map]
    rfl
  · rfl

theorem attributes_eraseAttribute (d : Document) (node index n : Nat) :
    (d.eraseAttribute node index).attributes n =
      if node = n then (d.attributes n).eraseIdx index else d.attributes n := by
  have helement : (d.eraseAttribute node index).elements[n]? =
      if node = n then d.elements[n]?.map fun e =>
        { e with attributes := e.attributes.eraseIdx index } else d.elements[n]? :=
    Array.getElem?_modify
  unfold attributes
  rw [helement]
  by_cases hnode : node = n
  · rw [if_pos hnode, if_pos hnode]
    cases d.elements[n]? <;> rfl
  · rw [if_neg hnode, if_neg hnode]

theorem declarations_eq (d : Document) (n : Nat) :
    d.declarations n = (d.attributes n).filterMap Attribute.declaration? := rfl

/-- What a prefix stands for depends on the parents and on what each element says of it. -/
theorem namespaceUri?_congr (hparent : d'.parent? = d.parent?)
    (h : ∀ n, (d'.declarations n).lookup space = (d.declarations n).lookup space) (n : Nat) :
    d'.namespaceUri? n space = d.namespaceUri? n space := by
  unfold namespaceUri?
  rw [ancestors_congr fun m _ => congrFun hparent m]
  simp only [h]

/-- Without an attribute that does not declare it, a prefix stands for what it stood for. -/
theorem namespaceUri?_eraseAttribute (ha : (d.attributes node)[index]? = some a)
    (h : ¬a.Declares space) (n : Nat) :
    (d.eraseAttribute node index).namespaceUri? n space = d.namespaceUri? n space := by
  refine namespaceUri?_congr (parent?_eraseAttribute d node index) (fun n => ?_) n
  rw [declarations_eq, declarations_eq, attributes_eraseAttribute]
  split
  · next hnode =>
    subst hnode
    obtain ⟨hlt, rfl⟩ := List.getElem?_eq_some_iff.mp ha
    have hrow : d.attributes node = (d.attributes node).take index ++
        (d.attributes node)[index] :: (d.attributes node).drop (index + 1) := by
      rw [List.getElem_cons_drop, List.take_append_drop]
    rw [List.eraseIdx_eq_take_drop_succ]
    conv_rhs => rw [hrow]
    rw [List.filterMap_append, List.filterMap_append, List.lookup_append, List.lookup_append,
      Attribute.lookup_filterMap_cons h]
  · rfl

end Document

/-! ## Going on behind different names -/

/-- The builders are alike, and but for one attribute of an element they have the same
declarations. -/
structure Builder.AgreeBut (node index : Nat) (b b' : Builder) : Prop extends Alike b b' where
  declarations : (b.document.eraseAttribute node index).declarations =
    (b'.document.eraseAttribute node index).declarations
  counted : index < (b.document.attributes node).length
  counted' : index < (b'.document.attributes node).length

namespace Builder

variable {b b' : Builder} {node index : Nat}

theorem declarations_eraseAttribute_push (hopen : ∀ n ∈ b.openNodes, n < b.document.size)
    (hcounted : index < (b.document.attributes node).length) (t : Token) (n : Nat) :
    ((b.push t).document.eraseAttribute node index).declarations n =
      (b.document.eraseAttribute node index).declarations n ++
        (b.gained t n).filterMap Attribute.declaration? := by
  rw [Document.declarations_eq, Document.declarations_eq, Document.attributes_eraseAttribute,
    Document.attributes_eraseAttribute, attributes_push hopen]
  split
  · next hnode =>
    subst hnode
    rw [List.eraseIdx_append_of_lt_length hcounted, List.filterMap_append]
  · rw [List.filterMap_append]

/-- Behind a token they still agree. -/
theorem AgreeBut.push (h : AgreeBut node index b b') (t : Token) :
    AgreeBut node index (b.push t) (b'.push t) := by
  have hopen' := h.toAlike.open_lt'
  refine ⟨h.toAlike.push t, ?_, lt_length_attributes_push h.open_lt h.counted t,
    lt_length_attributes_push hopen' h.counted' t⟩
  funext n
  rw [declarations_eraseAttribute_push h.open_lt h.counted,
    declarations_eraseAttribute_push hopen' h.counted', h.declarations]
  exact congrArg _ (filterMap_gained (fun _ _ _ _ _ _ _ => rfl) h.openNodes t n)

/-- Behind any tokens they still agree. -/
theorem AgreeBut.after (h : AgreeBut node index b b') (ts : List Token) :
    AgreeBut node index (b.after ts) (b'.after ts) := by
  induction ts generalizing b b' with
  | nil => exact h
  | cons t ts ih => exact ih (h.push t)

/-- But for an attribute, its name does not matter. -/
theorem agreeBut_push {m : Mode} (hfits : Fits m b) (hin : b.InTag node)
    (lead equals value : List Char) (name name' : QualifiedName) (q : Char) :
    AgreeBut node (b.document.attributes node).length
      (b.push (.attribute lead name equals q value))
      (b.push (.attribute lead name' equals q value)) := by
  have hattributes (name : QualifiedName) (n : Nat) := attributes_push hfits.open_lt
    (.attribute lead name equals q value) n
  have hothers (name : QualifiedName) (n : Nat) :
      ((b.push (.attribute lead name equals q value)).document.eraseAttribute node
        (b.document.attributes node).length).attributes n = b.document.attributes n := by
    rw [Document.attributes_eraseAttribute, hattributes]
    split
    · next hnode =>
      subst hnode
      rw [gained_of_inTag hin, List.eraseIdx_append_of_length_le (Nat.le_refl _), Nat.sub_self,
        List.eraseIdx_cons_zero, List.append_nil]
    · next hnode =>
      have hother : ¬b.openNodes.head? = some n := by
        intro hhead
        exact hnode (Option.some.inj (hin.2.symm.trans hhead))
      rw [gained, if_neg hother, List.append_nil]
  refine ⟨alike_push hfits.open_lt lead equals value name name' q, ?_, ?_, ?_⟩
  · funext n
    rw [Document.declarations_eq, Document.declarations_eq, hothers, hothers]
  · rw [hattributes, gained_of_inTag hin]
    simp
  · rw [hattributes, gained_of_inTag hin]
    simp

end Builder

/--
What is left of a document in which an attribute `a` of an element has become `a'`.

* `tag`, `parent`: the elements are the same and stand in one another in the same way.
* `uri`, `targets`: at every element, a prefix that neither attribute declares has the namespace
  that it had, and what is searched behind it is the same.
* `uri_erased`: a prefix that the old attribute declared has the namespace that it would have had
  without that.
-/
structure Document.KeepsNamespaces (node index : Nat) (a a' : Attribute) (d d' : Document) :
    Prop where
  tag : d'.tag = d.tag
  parent : d'.parent? = d.parent?
  uri : ∀ n space, ¬a.Declares space → ¬a'.Declares space →
    d'.namespaceUri? n space = d.namespaceUri? n space
  uri_erased : ∀ n space, ¬a'.Declares space →
    d'.namespaceUri? n space = (d.eraseAttribute node index).namespaceUri? n space
  targets : ∀ r n space, ¬a.Declares space → ¬a'.Declares space →
    (fanOut d' n r).filter (·.space = space) = (fanOut d n r).filter (·.space = space)

theorem Builder.AgreeBut.keepsNamespaces {b b' : Builder} {node index : Nat} {a a' : Attribute}
    (h : b.AgreeBut node index b') (hd : b.document.Sound) (hd' : b'.document.Sound)
    (ha : (b.document.attributes node)[index]? = some a)
    (ha' : (b'.document.attributes node)[index]? = some a') :
    Document.KeepsNamespaces node index a a' b.document b'.document := by
  have herased : ∀ n space, ¬a'.Declares space → b'.document.namespaceUri? n space =
      (b.document.eraseAttribute node index).namespaceUri? n space := by
    intro n space hspace
    rw [← Document.namespaceUri?_eraseAttribute ha' hspace]
    refine Document.namespaceUri?_congr ?_ (fun n => ?_) n
    · rw [Document.parent?_eraseAttribute, Document.parent?_eraseAttribute, h.parent]
    · rw [h.declarations]
  have huri : ∀ n space, ¬a.Declares space → ¬a'.Declares space →
      b'.document.namespaceUri? n space = b.document.namespaceUri? n space := by
    intro n space hspace hspace'
    rw [herased n space hspace', Document.namespaceUri?_eraseAttribute ha hspace]
  refine ⟨h.tag.symm, h.parent.symm, huri, herased, ?_⟩
  intro r n space hspace hspace'
  rw [Document.filter_fanOut hd', Document.filter_fanOut hd, huri n space hspace hspace']

/-! ## The marker in a declaration -/

/-- ASCII characters of names can be typed. -/
theorem isTypedChar_of_continues {c : Char} (hc : QualifiedName.continues c = true)
    (hascii : c.toNat < 0x80) : isTypedChar c = true := by
  have hall : ∀ n < 0x80, QualifiedName.continues (Char.ofNat n) = true →
      isTypedChar (Char.ofNat n) = true := by
    decide +kernel
  have h := hall c.toNat hascii
  rw [Char.ofNat_toNat] at h
  exact h hc

theorem allOf_isTypedChar {name : QualifiedName} (hn : name.Valid)
    (hascii : ∀ c ∈ name.shown, c.toNat < 0x80) : AllOf isTypedChar name.shown := by
  intro c hc
  refine isTypedChar_of_continues (QualifiedName.allOf_text hn c ?_) (hascii c hc)
  rw [name.text_eq]
  exact List.mem_append_right _ hc

/-- If a name with the marker in it declares a prefix, the marker is in the prefix. -/
theorem marked_of_shown {name : QualifiedName} {front back : List Char}
    (hshown : name.shown = front ++ (caretMarker.toList ++ back))
    (hspace : String.ofList name.space = "xmlns") : Marked (String.ofList name.base) := by
  have hxmlns : name.space = "xmlns".toList := by
    rw [← hspace, String.toList_ofList]
  have htext : name.shown = "xmlns".toList ++ ':' :: name.base := by
    obtain ⟨qualifier, base⟩ := name
    cases qualifier with
    | none =>
      have hnil : [] = "xmlns".toList := hxmlns
      exact absurd hnil (by decide)
    | some q =>
      obtain rfl : q = "xmlns".toList := hxmlns
      rfl
  have hmarked : caretMarker.toList <:+: "xmlns".toList ++ ':' :: name.base := by
    rw [← htext, hshown]
    exact ⟨front, back, List.append_assoc _ _ _⟩
  rw [Marked, String.toList_ofList]
  exact (infix_of_append_cons (by decide) hmarked).resolve_left (by decide)

/--
**A request takes away no namespace but that of the name under its cursor.**

The cursor is in the name of an attribute of ASCII characters. In the document that is read with the
marker it is in the name of an attribute with the same number, and all prefixes that neither of the
two declares are kept. If the new attribute declares a prefix, so did the old one, and the marker is
in the prefix.
-/
theorem CompletionRequest.prepare_keeps_namespaces {text : String} {d : Document}
    {node index : Nat} {a : Attribute} {head behind : List Char}
    (hparse : Document.parse text = .ok d) (hsplit : text.toList = head ++ behind)
    (hfind : d.findAttribute? (utf8Length head) = some (node, index))
    (ha : (d.attributes node)[index]? = some a) (hascii : ∀ c ∈ a.name.toList, c.toNat < 0x80) :
    ∃ (text' : List Char) (d' : Document) (a' : Attribute),
      prepare text (utf8Length head) = .ok ⟨text', utf8Length head⟩ ∧
      Document.parseChars text' = .ok d' ∧
      d'.findAttribute? (utf8Length head) = some (node, index) ∧
      (d'.attributes node)[index]? = some a' ∧
      (∀ space, a'.Declares space → a.qualifier = "xmlns" ∧ Marked space) ∧
      Document.KeepsNamespaces node index a a' d d' := by
  obtain ⟨found, hfound, hstart, hstop⟩ := Document.exists_of_findAttribute? hfind
  obtain rfl : found = a := Option.some.inj (hfound.symm.trans ha)
  have hd := Document.sound_of_parse hparse
  obtain ⟨before, depth, lead, name, equals, q, value, rest, typed, tail, hreads, hwf, rfl, hin,
    rfl, rfl, hshown, rfl, rfl⟩ := exists_readsText_cut hparse ha hsplit hstart hstop
  rw [Builder.toList_name] at hascii
  have htyped := allOf_isTypedChar hwf.2.2.1 hascii
  rw [hshown] at htyped
  obtain ⟨-, htail⟩ := allOf_append.mp htyped
  obtain ⟨name', d', hshown', hspace, rfl, hparse', hcursor⟩ :=
    exists_parseChars_renamed hreads hwf hin hshown (List.append_nil tail).symm htail
      (by simp [Ends]) (by simp [AllOf])
  obtain ⟨a', _, hfind', ha', -⟩ := exists_of_cursor? hcursor
  have hprepare := prepareChars_append (textOf before ++ lead ++ name.leadingColon ++ typed)
    (tail ++ (equals ++ (q :: (value ++ q :: rest))))
  rw [← hsplit] at hprepare
  refine ⟨_, _, a', hprepare, hparse', hfind', ha', ?_, ?_⟩
  · have hfits := Builder.fits_of_runs hreads.runs
    rw [Builder.ofTokens_eq, Builder.after_append,
      Builder.getElem?_attributes_after hfits hin] at ha'
    obtain rfl := Option.some.inj ha'
    rintro space ⟨hqualifier, rfl⟩
    refine ⟨?_, marked_of_shown hshown' hqualifier⟩
    exact Decidable.byContradiction fun hother => hspace hother hqualifier
  · have hd' := Document.sound_of_parse ((Document.parse_ofList _).trans hparse')
    rw [Builder.ofTokens_eq, Builder.after_append] at hd hd' ha ha' ⊢
    rw [Builder.ofTokens_eq, Builder.after_append]
    exact ((Builder.agreeBut_push (Builder.fits_of_runs hreads.runs) hin lead equals value name
      name' q).after _).keepsNamespaces hd hd' ha ha'

/-- Inside another name, the prefix is still bound. -/
theorem CompletionRequest.prepare_keeps_namespaces_libText :
    ∃ (text' : List Char) (d' : Document), prepare libText 67 = .ok ⟨text', 67⟩ ∧
      Document.parseChars text' = .ok d' ∧ d'.namespaceUri? 0 "lib" = some libUri := by
  have hcut : splitAtByte? libText.toList 67 =
      some (libText.toList.take 67, libText.toList.drop 67) := by
    decide +kernel
  obtain ⟨hsplit, hoffset⟩ := append_of_splitAtByte? hcut
  have hfind : libDocument.findAttribute? (utf8Length (libText.toList.take 67)) = some (0, 1) := by
    rw [← hoffset]
    exact findAttribute?_libDocument
  have ha : (libDocument.attributes 0)[1]? = some ⟨"lib", "te", "", ⟨61, 67⟩, ⟨61, 70⟩⟩ := by
    decide
  have hascii : "lib:te".toList.all (·.toNat < 0x80) = true := by decide
  obtain ⟨text', d', a', hprepare, hd', -, -, hdeclares, hkeeps⟩ :=
    prepare_keeps_namespaces parse_libText hsplit hfind ha
      fun c hc => of_decide_eq_true (List.all_eq_true.mp hascii c hc)
  rw [← hoffset] at hprepare
  have hnew : ¬a'.Declares "lib" := fun h => absurd (hdeclares _ h).1 (by decide)
  refine ⟨text', d', hprepare, hd', ?_⟩
  rw [hkeeps.uri 0 "lib" (by decide) hnew]
  exact namespaceUri?_libDocument

/-- With the cursor in front of the declaration, the prefix is bound no more. -/
theorem CompletionRequest.not_prepare_keeps_namespaces :
    ¬∀ (text : String) (d : Document) (node index : Nat) (a : Attribute) (head behind : List Char),
      Document.parse text = .ok d → text.toList = head ++ behind →
      d.findAttribute? (utf8Length head) = some (node, index) →
      (d.attributes node)[index]? = some a → (∀ c ∈ a.name.toList, c.toNat < 0x80) →
      ∃ (request : CompletionRequest) (d' : Document),
        prepare text (utf8Length head) = .ok request ∧
        Document.parseChars request.text = .ok d' ∧
        ∀ space uri, d.namespaceUri? node space = some uri →
          d'.namespaceUri? node space = some uri := by
  intro hall
  have hcut : splitAtByte? libText.toList 10 =
      some (libText.toList.take 10, libText.toList.drop 10) := by
    decide +kernel
  obtain ⟨hsplit, hoffset⟩ := append_of_splitAtByte? hcut
  have hfind : libDocument.findAttribute? (utf8Length (libText.toList.take 10)) = some (0, 0) := by
    rw [← hoffset]
    decide
  have ha : (libDocument.attributes 0)[0]? =
      some ⟨"xmlns", "lib", libUri, ⟨10, 19⟩, ⟨10, 60⟩⟩ := by
    decide
  have hascii : "xmlns:lib".toList.all (·.toNat < 0x80) = true := by decide
  obtain ⟨request, d', hprepare, hd', hkept⟩ :=
    hall libText libDocument 0 0 _ _ _ parse_libText hsplit hfind ha
      fun c hc => of_decide_eq_true (List.all_eq_true.mp hascii c hc)
  rw [← hoffset] at hprepare
  have hread : (prepare libText 10).toOption.bind (fun request =>
      (Document.parseChars request.text).toOption.map fun d => (d.parent? 0, d.declarations 0)) =
      some (none, []) := by
    decide +kernel
  rw [hprepare, Except.toOption, Option.bind_some, hd', Except.toOption, Option.map_some,
    Option.some.injEq, Prod.mk.injEq] at hread
  have huri := hkept "lib" libUri namespaceUri?_libDocument
  rw [Document.namespaceUri?, Document.ancestors_of_root hread.1, List.findSome?_singleton,
    hread.2] at huri
  exact absurd huri (by decide)

end LayoutCompletion
