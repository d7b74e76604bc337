import LayoutCompletion.Proofs.Markup.Reading

/-!
# Where a start tag ends, or breaks off

A text that is read behind the name of a start tag may decide how reading goes on there, whatever
follows it: the reader comes to the end of the tag (`Closes`), or it stops in the tag (`Breaks`).
An attribute in front of such a text leaves it one (`Decided.attribute`), even if what stands in
place of its name is no name.
-/

namespace LayoutCompletion.Markup

open Scan QualifiedName

/-- Reading from here comes to the end of the start tag just behind the text. -/
def Closes (depth : Nat) (text : List Char) : Prop :=
  ∃ ts n, (∀ inner, n ≠ .tag inner) ∧ ∀ rest, Reads (.tag depth) (text ++ rest) ts n rest

/-- Reading from here stops in the text, so that no token comes from what follows. -/
def Breaks (depth : Nat) (text : List Char) : Prop :=
  ∃ ts, ∀ rest, (tokensFrom (.tag depth) (text ++ rest)).tokens = ts

/-- The text decides how reading goes on in the start tag. -/
def Decided (depth : Nat) (text : List Char) : Prop :=
  Closes depth text ∨ Breaks depth text

variable {depth : Nat} {lead word equals value tail : List Char} {q c : Char}

/-! ## Texts that close a tag -/

theorem closes_tagEnd (depth : Nat) {selfClosing : Bool} (hlead : AllOf isSpace lead) :
    Closes depth (Token.tagEnd lead selfClosing).text := by
  refine ⟨[.tagEnd lead selfClosing], if selfClosing then .closing depth else .content depth, ?_,
    fun rest => ?_⟩
  · intro inner
    cases selfClosing with
    | false => simp
    | true => exact Mode.closing_ne_tag depth inner
  · exact reads_tagEnd depth hlead selfClosing rest

theorem Closes.part {name : QualifiedName} (h : Closes depth tail)
    (hwf : (Token.attribute lead name equals q value).WellFormed) :
    Closes depth ((Token.attribute lead name equals q value).text ++ tail) := by
  obtain ⟨ts, n, hn, htail⟩ := h
  refine ⟨.attribute lead name equals q value :: ts, n, hn, fun rest => ?_⟩
  rw [List.append_assoc]
  exact (reads_attribute depth hwf _).append (htail rest)

/-! ## Texts that break a tag off -/

theorem tokensFrom_tag_eq_nil {cs : List Char}
    (h : ∀ token rest, Lexer.tagPart cs ≠ .ok (token, rest)) :
    (tokensFrom (.tag depth) cs).tokens = [] := by
  rw [tokensFrom]
  split
  · rfl
  · split
    · rfl
    · next s hs =>
      change Lexer.tag depth cs = .ok s at hs
      unfold Lexer.tag Lexer.read at hs
      rw [List.drop_zero] at hs
      split at hs
      · simp at hs
      · next token rest hpart => exact absurd hpart (h token rest)

/-- No part of a start tag begins with the text: what stands behind its leading space is neither the
end of the tag nor, if there is space, the rest of an attribute. -/
theorem tokensFrom_of_attributeBody (hlead : AllOf isSpace lead)
    (hc : isSpace c = false ∧ c ≠ '/' ∧ c ≠ '>')
    (h : lead ≠ [] → ∀ token left, Lexer.attributeBody lead (c :: tail) ≠ .ok (token, left)) :
    (tokensFrom (.tag depth) (lead ++ c :: tail)).tokens = [] := by
  refine tokensFrom_tag_eq_nil fun token left hpart => ?_
  rw [Lexer.tagPart_append hlead (ends_cons.mpr hc.1)] at hpart
  split at hpart
  · next heq => exact hc.2.1 (List.cons.inj heq).1
  · next heq => exact hc.2.2 (List.cons.inj heq).1
  · split at hpart
    · simp at hpart
    · next hne => exact h (by simpa using hne) token left hpart

theorem breaks_of_attributeBody (hlead : AllOf isSpace lead)
    (hc : isSpace c = false ∧ c ≠ '/' ∧ c ≠ '>')
    (h : lead ≠ [] → ∀ rest token left,
      Lexer.attributeBody lead (c :: tail ++ rest) ≠ .ok (token, left)) :
    Breaks depth (lead ++ c :: tail) := by
  refine ⟨[], fun rest => ?_⟩
  rw [List.append_assoc, List.cons_append]
  exact tokensFrom_of_attributeBody hlead hc fun hne => h hne rest

/-- Behind a name or a value there must be space. -/
theorem breaks_of_ne_space (depth : Nat) (hc : isSpace c = false ∧ c ≠ '/' ∧ c ≠ '>')
    (tail : List Char) : Breaks depth (c :: tail) := by
  show Breaks depth ([] ++ c :: tail)
  exact breaks_of_attributeBody (by simp [AllOf]) hc fun hne => absurd rfl hne

/-- Behind the slash there must be the bracket. -/
theorem breaks_of_slash (depth : Nat) (hlead : AllOf isSpace lead) (hc : c ≠ '>')
    (tail : List Char) : Breaks depth (lead ++ '/' :: c :: tail) := by
  refine ⟨[], fun rest => tokensFrom_tag_eq_nil fun token left hpart => ?_⟩
  rw [List.append_assoc, List.cons_append,
    Lexer.tagPart_append hlead (ends_cons.mpr (by decide))] at hpart
  obtain ⟨-, hbracket⟩ := Lexer.selfClosingEnd_eq_ok.mp hpart
  exact hc (List.cons.inj hbracket).1

theorem not_special_of_continues (hc : continues c = true) :
    isSpace c = false ∧ c ≠ '/' ∧ c ≠ '>' := by
  refine ⟨?_, ?_, ?_⟩
  · cases hspace : isSpace c with
    | false => rfl
    | true => rw [not_continues_of_isSpace hspace] at hc; cases hc
  · rintro rfl
    exact absurd hc (by decide)
  · rintro rfl
    exact absurd hc (by decide)

/-- An attribute is read off a word and what stands behind it exactly if the word is a name and a
value is given to it. -/
theorem attributeBody_append {token : Token} {left rest : List Char} (hword : AllOf continues word)
    (hrest : Ends continues rest) :
    Lexer.attributeBody lead (word ++ rest) = .ok (token, left) ↔
      ∃ name equals q value, token = .attribute lead name equals q value ∧ name.Valid ∧
        name.text = word ∧ IsEquals equals ∧ IsQuote q ∧ AllOf (inValue q) value ∧
        rest = equals ++ q :: value ++ q :: left := by
  rw [Lexer.attributeBody_eq_ok]
  constructor
  · rintro ⟨name, equals, q, value, rfl, hn, he, hq, hvalue, hsplit⟩
    have hends := he.ends_continues (q :: value ++ q :: left)
    simp only [List.append_assoc, List.cons_append] at hsplit hends
    obtain ⟨rfl, rfl⟩ := append_inj_of_ends hword hrest (allOf_text hn) hends hsplit
    exact ⟨name, equals, q, value, rfl, hn, rfl, he, hq, hvalue, by simp⟩
  · rintro ⟨name, equals, q, value, rfl, hn, rfl, he, hq, hvalue, rfl⟩
    exact ⟨name, equals, q, value, rfl, hn, he, hq, hvalue, by simp⟩

/-- No attribute begins with a word that is no name. -/
theorem tokensFrom_of_word {rest : List Char} (hlead : AllOf isSpace lead)
    (hword : AllOf continues word) (hne : word ≠ []) (hrest : Ends continues rest)
    (h : ∀ name : QualifiedName, name.Valid → name.text ≠ word) :
    (tokensFrom (.tag depth) (lead ++ word ++ rest)).tokens = [] := by
  obtain ⟨c, word, rfl⟩ := List.exists_cons_of_ne_nil hne
  rw [List.append_assoc, List.cons_append]
  refine tokensFrom_of_attributeBody hlead (not_special_of_continues (hword c (.head _)))
    fun _ token left hbody => ?_
  rw [← List.cons_append, attributeBody_append hword hrest] at hbody
  obtain ⟨name, -, -, -, -, hn, htext, -⟩ := hbody
  exact h name hn htext

/-- A word in the place of a name breaks the tag off if no value is given to it, or if it is no
name. -/
theorem breaks_of_word (depth : Nat) (hlead : AllOf isSpace lead) (hword : AllOf continues word)
    (hne : word ≠ []) (htail : ∀ rest, Ends continues (tail ++ rest))
    (h : ∀ name : QualifiedName, name.Valid → name.text = word →
      ∀ rest equals q value left, IsEquals equals → IsQuote q →
        tail ++ rest ≠ equals ++ q :: value ++ q :: left) :
    Breaks depth (lead ++ word ++ tail) := by
  obtain ⟨c, word, rfl⟩ := List.exists_cons_of_ne_nil hne
  rw [List.append_assoc, List.cons_append]
  refine breaks_of_attributeBody hlead (not_special_of_continues (hword c (.head _)))
    fun _ rest token left hbody => ?_
  rw [← List.cons_append, List.append_assoc, attributeBody_append hword (htail rest)] at hbody
  obtain ⟨name, equals, q, value, -, hn, htext, he, hq, -, hsplit⟩ := hbody
  exact h name hn htext rest equals q value left he hq hsplit

/-- The equals sign must not be missing behind a name. -/
theorem breaks_of_no_equals (depth : Nat) {space : List Char} (hlead : AllOf isSpace lead)
    (hword : AllOf continues word) (hne : word ≠ []) (hspace : AllOf isSpace space)
    (hspaced : space ≠ []) (hc : isSpace c = false) (hequals : c ≠ '=') (tail : List Char) :
    Breaks depth (lead ++ word ++ (space ++ c :: tail)) := by
  refine breaks_of_word depth hlead hword hne (fun rest => ?_) ?_
  · obtain ⟨d, space, rfl⟩ := List.exists_cons_of_ne_nil hspaced
    exact ends_cons.mpr (not_continues_of_isSpace (hspace d (.head _)))
  · rintro name - - rest equals q value left ⟨before, after, hbefore, -, rfl⟩ - hsplit
    simp only [List.append_assoc, List.cons_append] at hsplit
    obtain ⟨-, hrest⟩ := append_inj_of_ends hspace (ends_cons.mpr hc) hbefore
      (ends_cons.mpr isSpace_equals) hsplit
    exact hequals (List.cons.inj hrest).1

/-- A quote must not be missing behind the equals sign. -/
theorem breaks_of_no_quote (depth : Nat) (hlead : AllOf isSpace lead)
    (hword : AllOf continues word) (hne : word ≠ []) (he : IsEquals equals)
    (hc : isSpace c = false) (hquote : ¬IsQuote c) (tail : List Char) :
    Breaks depth (lead ++ word ++ (equals ++ c :: tail)) := by
  refine breaks_of_word depth hlead hword hne (fun rest => ?_) ?_
  · rw [List.append_assoc]
    exact he.ends_continues _
  · obtain ⟨before, after, hbefore, hafter, rfl⟩ := he
    rintro name - - rest equals q value left ⟨before', after', hbefore', hafter', rfl⟩ hq hsplit
    simp only [List.append_assoc, List.cons_append] at hsplit
    obtain ⟨-, hrest⟩ := append_inj_of_ends hbefore (ends_cons.mpr isSpace_equals) hbefore'
      (ends_cons.mpr isSpace_equals) hsplit
    obtain ⟨-, hrest⟩ := append_inj_of_ends hafter (ends_cons.mpr hc) hafter'
      (ends_cons.mpr hq.isSpace) (List.cons.inj hrest).2
    rw [(List.cons.inj hrest).1] at hquote
    exact hquote hq

/-! ## Attributes in front -/

/-- A word with a value in front of a text that decides leaves it one, be the word a name or not. -/
theorem Decided.attribute (h : Decided depth tail) (hne : lead ≠ []) (hlead : AllOf isSpace lead)
    (hword : AllOf continues word) (hword' : word ≠ []) (he : IsEquals equals) (hq : IsQuote q)
    (hvalue : AllOf (inValue q) value) :
    Decided depth (lead ++ word ++ (equals ++ q :: value ++ q :: tail)) := by
  by_cases hname : ∃ name : QualifiedName, name.Valid ∧ name.text = word
  · obtain ⟨name, hn, rfl⟩ := hname
    have hreads := reads_attribute depth
      (show (Token.attribute lead name equals q value).WellFormed from
        ⟨hne, hlead, hn, he, hq, hvalue⟩)
    have htext : ∀ rest, lead ++ name.text ++ (equals ++ q :: value ++ q :: tail) ++ rest =
        (Token.attribute lead name equals q value).text ++ (tail ++ rest) := fun rest => by
      simp [Token.text]
    rcases h with ⟨ts, n, hn', htail⟩ | ⟨ts, htail⟩
    · refine Or.inl ⟨.attribute lead name equals q value :: ts, n, hn', fun rest => ?_⟩
      rw [htext]
      exact (hreads _).append (htail rest)
    · refine Or.inr ⟨.attribute lead name equals q value :: ts, fun rest => ?_⟩
      rw [htext, tokensFrom_of_reads (hreads _), htail rest]
      rfl
  · refine Or.inr (breaks_of_word depth hlead hword hword' (fun rest => ?_) ?_)
    · rw [List.append_assoc, List.append_assoc]
      exact he.ends_continues _
    · intro name hn htext
      exact absurd ⟨name, hn, htext⟩ hname

theorem text_ne_nil {name : QualifiedName} (hn : name.Valid) : name.text ≠ [] := by
  obtain ⟨c, cs, htext, -⟩ := head_text hn
  simp [htext]

theorem Decided.part {name : QualifiedName} (h : Decided depth tail)
    (hwf : (Token.attribute lead name equals q value).WellFormed) :
    Decided depth ((Token.attribute lead name equals q value).text ++ tail) := by
  obtain ⟨hne, hlead, hn, he, hq, hvalue⟩ := hwf
  have h := h.attribute hne hlead (allOf_text hn) (text_ne_nil hn) he hq hvalue
  simpa [Token.text] using h

/-! ## The text of a start tag behind its name -/

/-- Attributes and then the end of a start tag. -/
inductive TagRest : List Char → Prop
  | tagEnd {lead : List Char} (selfClosing : Bool) :
    AllOf isSpace lead → TagRest (Token.tagEnd lead selfClosing).text
  | part {lead equals value tail : List Char} {name : QualifiedName} {q : Char} :
    (Token.attribute lead name equals q value).WellFormed → TagRest tail →
      TagRest ((Token.attribute lead name equals q value).text ++ tail)

namespace TagRest

theorem closes (h : TagRest tail) (depth : Nat) : Closes depth tail := by
  induction h with
  | tagEnd selfClosing hlead => exact closes_tagEnd depth hlead
  | part hwf _ ih => exact ih.part hwf

theorem decided (h : TagRest tail) (depth : Nat) : Decided depth tail :=
  Or.inl (h.closes depth)

/-- It begins with space or with the end of the tag. -/
theorem head (h : TagRest tail) :
    ∃ c cs, tail = c :: cs ∧ (isSpace c = true ∨ c = '/' ∨ c = '>') := by
  cases h with
  | @tagEnd lead selfClosing hlead =>
    cases lead with
    | nil => cases selfClosing <;> simp [Token.text]
    | cons c lead =>
      cases selfClosing <;> exact ⟨c, _, rfl, Or.inl (hlead c (.head _))⟩
  | @part lead _ _ _ _ _ hwf _ =>
    obtain ⟨c, lead, rfl⟩ := List.exists_cons_of_ne_nil hwf.1
    exact ⟨c, _, rfl, Or.inl (hwf.2.1 c (.head _))⟩

/-- A name in front of it ends where it is to. -/
theorem ends (h : TagRest tail) (rest : List Char) : Ends continues (tail ++ rest) := by
  obtain ⟨c, cs, rfl, hc⟩ := h.head
  rcases hc with hc | rfl | rfl
  · exact ends_cons.mpr (not_continues_of_isSpace hc)
  · exact ends_cons.mpr (by decide)
  · exact ends_cons.mpr (by decide)

/-- It ends with the bracket. -/
theorem exists_bracket (h : TagRest tail) : ∃ front, tail = front ++ ['>'] := by
  induction h with
  | @tagEnd lead selfClosing _ =>
    cases selfClosing with
    | false => exact ⟨lead, rfl⟩
    | true => exact ⟨lead ++ ['/'], by simp [Token.text]⟩
  | part _ _ ih =>
    obtain ⟨front, rfl⟩ := ih
    exact ⟨_ ++ front, (List.append_assoc _ _ _).symm⟩

end TagRest

end LayoutCompletion.Markup
