import LayoutCompletion.Proofs.Completion.HalfTyped
import LayoutCompletion.Proofs.Markup.StartTag

/-!
# The marker in the name of an attribute

A request goes along the characters behind the cursor that may be typed. A name can have others in
it, such as a middle dot, and then the request ends in the name. If only blanks of the name are left
there, it still sees the equals sign, and the attribute keeps its value. Otherwise it gives the part
of the name that it went along an empty value of its own (`CompletionRequest.prepare_in_name`).
-/

namespace LayoutCompletion

open Markup Markup.Scan Text

/-- The element has an attribute with this name and this value at this place. -/
def Document.HasAttribute (d : Document) (node index : Nat) (name : List Char) (value : String) :
    Prop :=
  ∃ a, (d.attributes node)[index]? = some a ∧ a.name.toList = name ∧ a.value = value

variable {cs rest lead equals value typed run left word : List Char} {before : List Token}
  {depth node : Nat} {name : QualifiedName} {q : Char}

/-- The attribute to which reading comes is the next one of its element. -/
theorem hasAttribute_of_readsText (hreads : ReadsText cs before (.tag depth) rest)
    (hin : (Builder.empty.after before).InTag node) (ts : List Token) :
    (Document.ofTokens (before ++ .attribute lead name equals q value :: ts)).HasAttribute node
      ((Builder.empty.after before).document.attributes node).length name.shown
      (String.ofList value) := by
  have hfits := Builder.fits_of_runs hreads.runs
  rw [Builder.ofTokens_eq, Builder.after_append]
  exact ⟨_, Builder.getElem?_attributes_after hfits hin ts, Builder.toList_name _ _ _ _ _, rfl⟩

/-- The word of a name with the marker in it begins with a colon if the name did. -/
theorem shown_marked {name' : QualifiedName} (hn : name.Valid) (hn' : name'.Valid)
    (hshown : name.shown = typed ++ left)
    (htext : name'.text = name.leadingColon ++ typed ++ caretMarker.toList ++ run) :
    name'.shown = typed ++ caretMarker.toList ++ run := by
  have hcolon : name'.leadingColon = name.leadingColon := by
    rw [leadingColon_marked hn' htext]
    have hsame := QualifiedName.leadingColon_eq hn
    by_cases hqualifier : name.qualifier = some []
    · rw [QualifiedName.leadingColon, if_pos hqualifier]
      rfl
    · have hnil : name.leadingColon = [] := if_neg hqualifier
      have hhead : name.text.head? ≠ some ':' := by
        intro hhead
        rw [hnil, if_pos hhead] at hsame
        cases hsame
      rw [hnil, List.nil_append]
      rw [name.text_eq, hnil, hshown, List.nil_append] at hhead
      cases typed with
      | nil => rfl
      | cons c typed => exact if_neg hhead
  rw [name'.text_eq, hcolon] at htext
  simpa using htext

/-- A word to which the empty value is given is the next attribute of the element, or it is no name
and there is none. -/
theorem exists_parseChars_of_word (hreads : ReadsText cs before (.tag depth) (lead ++ rest))
    (hne : lead ≠ []) (hlead : AllOf isSpace lead)
    (hin : (Builder.empty.after before).InTag node) (hword : AllOf QualifiedName.continues word)
    (hword' : word ≠ []) (other : List Char) :
    ∃ d, Document.parseChars (textOf before ++ (lead ++ word ++ emptyValue.toList ++ other)) =
        .ok d ∧
      ∀ a, (d.attributes node)[((Builder.empty.after before).document.attributes node).length]? =
        some a → a.value = "" ∧ ∃ name : QualifiedName, name.Valid ∧ name.text = word ∧
          a.name.toList = name.shown := by
  have hreads' : ReadsText (textOf before ++ (lead ++ word ++ emptyValue.toList ++ other)) before
      (.tag depth) (lead ++ word ++ emptyValue.toList ++ other) := by
    refine hreads.replace ?_
    obtain ⟨c, lead, rfl⟩ := List.exists_cons_of_ne_nil hne
    rfl
  refine ⟨_, Document.parseChars_of_readsText hreads', fun a ha => ?_⟩
  by_cases hname : ∃ name : QualifiedName, name.Valid ∧ name.text = word
  · obtain ⟨name, hn, rfl⟩ := hname
    have htext : lead ++ name.text ++ emptyValue.toList ++ other =
        (Token.attribute lead name ['='] '\x22' []).text ++ ' ' :: other := by
      simp [Token.text, emptyValue_toList]
    have hreading := reads_attribute depth (wellFormed_halfTyped hne hlead hn) (' ' :: other)
    rw [htext, tokensFrom_of_reads hreading] at ha
    obtain ⟨found, hfound, hshown, hempty⟩ := hasAttribute_of_readsText hreads hin _
    obtain rfl : found = a := Option.some.inj (hfound.symm.trans ha)
    exact ⟨hempty, name, hn, rfl, hshown⟩
  · have hends : Ends QualifiedName.continues (emptyValue.toList ++ other) := by
      rw [emptyValue_toList]
      exact ends_cons.mpr (by decide)
    have htokens : (tokensFrom (.tag depth) (lead ++ word ++ (emptyValue.toList ++ other))).tokens =
        [] :=
      tokensFrom_of_word hlead hword hword' hends fun name hn htext => hname ⟨name, hn, htext⟩
    rw [List.append_assoc, htokens, List.append_nil, Builder.ofTokens_eq,
      List.getElem?_eq_none (Nat.le_refl _)] at ha
    cases ha

/-- Nothing is put in but the marker exactly if an equals sign is seen. -/
theorem splice_eq_iff (hrun : AllOf isTypedChar run) (hrest : Ends isTypedChar rest)
    (head : List Char) :
    CompletionRequest.splice head (run ++ rest) = head ++ caretMarker.toList ++ (run ++ rest) ↔
      CompletionRequest.hasValue rest = true := by
  rw [splice_append hrun hrest]
  constructor
  · intro h
    refine Decidable.byContradiction fun hseen => ?_
    have hlength := congrArg List.length h
    rw [if_neg hseen, emptyValue_toList] at hlength
    simp only [List.length_append, List.length_cons] at hlength
    omega
  · intro hseen
    rw [if_pos hseen]
    simp

/-- Only the marker is put in exactly if nothing of the name but blanks is left in front of the
equals sign. -/
theorem splice_eq_iff_isBlank (hn : name.Valid) (hshown : name.shown = typed ++ (run ++ left))
    (hequals : IsEquals equals) (hrun : AllOf isTypedChar run) (hleft : Ends isTypedChar left)
    (head behind : List Char) :
    CompletionRequest.splice head (run ++ left ++ (equals ++ behind)) =
        head ++ caretMarker.toList ++ (run ++ left ++ (equals ++ behind)) ↔
      AllOf isBlank left := by
  have hname := QualifiedName.allOf_text hn
  rw [name.text_eq, hshown, ← List.append_assoc, ← List.append_assoc] at hname
  have hends := ends_append hleft (ends_isTypedChar_equals hequals behind)
  rw [List.append_assoc run, splice_eq_iff hrun hends,
    hasValue_append hequals (allOf_append.mp hname).2]

section
variable (hreads : ReadsText cs before (.tag depth)
    ((Token.attribute lead name equals q value).text ++ rest))
  (hwf : (Token.attribute lead name equals q value).WellFormed)
  (hin : (Builder.empty.after before).InTag node) (hshown : name.shown = typed ++ (run ++ left))
  (hrun : AllOf isTypedChar run) (hleft : Ends isTypedChar left)
include hreads hwf hin hshown hrun hleft

/-- If the equals sign is seen, the attribute stays where it is, with its value. -/
theorem hasAttribute_of_isBlank (hblank : AllOf isBlank left) :
    ∃ d, Document.parseChars (CompletionRequest.splice
        (textOf before ++ lead ++ name.leadingColon ++ typed)
        (run ++ left ++ (equals ++ (q :: (value ++ q :: rest))))) = .ok d ∧
      d.HasAttribute node ((Builder.empty.after before).document.attributes node).length
        (typed ++ caretMarker.toList ++ run ++ left) (String.ofList value) := by
  obtain ⟨name', d, hshown', -, rfl, hparse, -⟩ :=
    exists_parseChars_renamed hreads hwf hin hshown rfl hrun hleft hblank
  have hsame : typed ++ caretMarker.toList ++ run ++ left = name'.shown := by
    rw [hshown']
    simp only [List.append_assoc]
  rw [hsame]
  exact ⟨_, hparse, hasAttribute_of_readsText hreads hin _⟩

/-- If it is not, the name ends behind what may be typed, and so does the attribute. -/
theorem value_eq_of_not_isBlank (hblank : ¬AllOf isBlank left) :
    ∃ d, Document.parseChars (CompletionRequest.splice
        (textOf before ++ lead ++ name.leadingColon ++ typed)
        (run ++ left ++ (equals ++ (q :: (value ++ q :: rest))))) = .ok d ∧
      ∀ a, (d.attributes node)[((Builder.empty.after before).document.attributes node).length]? =
        some a → a.value = "" ∧ a.name.toList = typed ++ caretMarker.toList ++ run := by
  obtain ⟨hne, hlead, hn, hequals, hq, hvalue⟩ := hwf
  have hname := QualifiedName.allOf_text hn
  rw [name.text_eq, hshown, ← List.append_assoc] at hname
  obtain ⟨hfront, htail⟩ := allOf_append.mp hname
  obtain ⟨hrunname, hleftname⟩ := allOf_append.mp htail
  have hword : AllOf QualifiedName.continues
      (name.leadingColon ++ typed ++ caretMarker.toList ++ run) :=
    allOf_append.mpr ⟨allOf_append.mpr ⟨hfront, allOf_continues_marker⟩, hrunname⟩
  have hword' : name.leadingColon ++ typed ++ caretMarker.toList ++ run ≠ [] := by
    simp [caretMarker_toList]
  have hreads' : ReadsText cs before (.tag depth)
      (lead ++ (name.text ++ equals ++ q :: value ++ [q] ++ rest)) := by
    simpa [Token.text] using hreads
  obtain ⟨d, hparse, hvalues⟩ := exists_parseChars_of_word hreads' hne hlead hin hword hword'
    (left ++ (equals ++ (q :: (value ++ q :: rest))))
  have hseen : ¬CompletionRequest.hasValue (left ++ (equals ++ (q :: (value ++ q :: rest)))) =
      true := mt (hasValue_append hequals hleftname _).mp hblank
  have hends : Ends isTypedChar (left ++ (equals ++ (q :: (value ++ q :: rest)))) :=
    ends_append hleft (ends_isTypedChar_equals hequals _)
  refine ⟨d, ?_, fun a ha => ?_⟩
  · rw [List.append_assoc run, splice_append hrun hends, if_neg hseen, ← hparse]
    simp only [List.append_assoc]
  · obtain ⟨hempty, name', hn', htext, hname'⟩ := hvalues a ha
    exact ⟨hempty, hname'.trans (shown_marked hn hn' hshown htext)⟩

theorem exists_parseChars_marked :
    ∃ d, Document.parseChars (CompletionRequest.splice
        (textOf before ++ lead ++ name.leadingColon ++ typed)
        (run ++ left ++ (equals ++ (q :: (value ++ q :: rest))))) = .ok d ∧
      (AllOf isBlank left →
        d.HasAttribute node ((Builder.empty.after before).document.attributes node).length
          (typed ++ caretMarker.toList ++ run ++ left) (String.ofList value)) ∧
      (¬AllOf isBlank left → ∀ a,
        (d.attributes node)[((Builder.empty.after before).document.attributes node).length]? =
          some a → a.value = "" ∧ a.name.toList = typed ++ caretMarker.toList ++ run) := by
  by_cases hblank : AllOf isBlank left
  · obtain ⟨d, hd, hhas⟩ := hasAttribute_of_isBlank hreads hwf hin hshown hrun hleft hblank
    exact ⟨d, hd, fun _ => hhas, fun hother => absurd hblank hother⟩
  · obtain ⟨d, hd, hvalues⟩ := value_eq_of_not_isBlank hreads hwf hin hshown hrun hleft hblank
    exact ⟨d, hd, fun hother => absurd hother hblank, fun _ => hvalues⟩

end

/--
**A request in a name keeps the attribute, or gives away its value.**

The cursor is anywhere in the name of an attribute, or at an end of it. Behind the cursor `run` may
be typed, and `left` is what there is of the name behind that. If it is blank, nothing is put in but
the marker, and the attribute has the marker in its name and the value that it had. Otherwise more
is put in, and if there is still an attribute at its place, `left` is no part of its name and its
value is empty. The text has a document in either case.
-/
theorem CompletionRequest.prepare_in_name {text : String} {d : Document} {node index : Nat}
    {a : Attribute} {head behind : List Char} (hparse : Document.parse text = .ok d)
    (ha : (d.attributes node)[index]? = some a) (hsplit : text.toList = head ++ behind)
    (hstart : a.nameSpan.start ≤ utf8Length head) (hstop : utf8Length head ≤ a.nameSpan.stop) :
    ∃ (typed run left text' : List Char) (d' : Document),
      a.name.toList = typed ++ run ++ left ∧
      utf8Length head = a.nameSpan.start + utf8Length typed ∧
      AllOf isTypedChar run ∧ Ends isTypedChar left ∧
      prepare text (utf8Length head) = .ok ⟨text', utf8Length head⟩ ∧
      Document.parseChars text' = .ok d' ∧
      (text' = head ++ caretMarker.toList ++ behind ↔ AllOf isBlank left) ∧
      (AllOf isBlank left →
        d'.HasAttribute node index (typed ++ caretMarker.toList ++ run ++ left) a.value) ∧
      (¬AllOf isBlank left → ∀ a', (d'.attributes node)[index]? = some a' →
        a'.value = "" ∧ a'.name.toList = typed ++ caretMarker.toList ++ run) := by
  obtain ⟨before, depth, lead, name, equals, q, value, rest, typed, tail, hreads, hwf, -, hin,
    rfl, rfl, hshown, rfl, rfl⟩ := exists_readsText_cut hparse ha hsplit hstart hstop
  obtain ⟨run, left, rfl, hrun, hleft⟩ := exists_typed tail
  have ⟨_, _, hn, hequals, _, _⟩ := hwf
  have hprepare := prepareChars_append (textOf before ++ lead ++ name.leadingColon ++ typed)
    (run ++ left ++ (equals ++ (q :: (value ++ q :: rest))))
  rw [← hsplit] at hprepare
  obtain ⟨d', hd', hblank, hother⟩ :=
    exists_parseChars_marked hreads hwf hin hshown hrun hleft
  refine ⟨typed, run, left, _, d', ?_, ?_, hrun, hleft, hprepare, hd',
    splice_eq_iff_isBlank hn hshown hequals hrun hleft _ _, hblank, hother⟩
  · rw [Builder.toList_name, hshown, List.append_assoc]
  · rw [Builder.nameSpan_start]
    simp only [utf8Length_append]

/-- A middle dot may stand in a name, but it is no character that is typed. -/
def dottedText : String := "<p a·b=\x22x\x22/>"

def dottedDocument : Document where
  elements := #[{
    tag := "p"
    span := ⟨0, 13⟩
    attributes := [⟨"", "a·b", "x", ⟨3, 7⟩, ⟨3, 11⟩⟩]
    parent := none
    children := [] }]

theorem parse_dottedText : Document.parse dottedText = .ok dottedDocument :=
  eq_ok_of_toOption (by decide +kernel)

/-- Behind the dot, the attribute keeps its value. -/
theorem CompletionRequest.prepare_in_name_behind_dot :
    ∃ (text' : List Char) (d' : Document) (a : Attribute),
      prepare dottedText 6 = .ok ⟨text', 6⟩ ∧ Document.parseChars text' = .ok d' ∧
        (d'.attributes 0)[0]? = some a ∧ a.value = "x" := by
  have ha : (dottedDocument.attributes 0)[0]? = some ⟨"", "a·b", "x", ⟨3, 7⟩, ⟨3, 11⟩⟩ := by
    decide
  have hsplit : dottedText.toList = "<p a·".toList ++ "b=\x22x\x22/>".toList := by decide +kernel
  obtain ⟨typed, run, left, text', d', hname, -, -, -, hprepare, hd', hkept, hblank, -⟩ :=
    prepare_in_name parse_dottedText ha hsplit (by decide) (by decide)
  have hspliced : prepare dottedText 6 =
      .ok ⟨"<p a·LayoutAttrsCaretb=\x22x\x22/>".toList, 6⟩ :=
    eq_ok_of_toOption (by decide +kernel)
  have htext := (CompletionRequest.mk.inj (Except.ok.inj (hprepare.symm.trans hspliced))).1
  obtain ⟨a', ha', -, hvalue⟩ := hblank (hkept.mp (htext.trans (by decide +kernel)))
  exact ⟨text', d', a', hprepare, hd', ha', hvalue⟩

/-- In front of it, more is put in than the marker. -/
theorem CompletionRequest.not_prepare_in_name :
    ¬∀ (text : String) (d : Document) (node index : Nat) (a : Attribute) (head behind : List Char),
      Document.parse text = .ok d → (d.attributes node)[index]? = some a →
      text.toList = head ++ behind → a.nameSpan.start ≤ utf8Length head →
      utf8Length head ≤ a.nameSpan.stop →
      prepare text (utf8Length head) =
        .ok ⟨head ++ caretMarker.toList ++ behind, utf8Length head⟩ := by
  intro hall
  have ha : (dottedDocument.attributes 0)[0]? = some ⟨"", "a·b", "x", ⟨3, 7⟩, ⟨3, 11⟩⟩ := by
    decide
  have hsplit : dottedText.toList = "<p a".toList ++ "·b=\x22x\x22/>".toList := by decide +kernel
  have hprepare := hall dottedText dottedDocument 0 0 _ _ _ parse_dottedText ha hsplit (by decide)
    (by decide)
  exact absurd (congrArg Except.toOption hprepare) (by decide +kernel)

end LayoutCompletion
