import LayoutCompletion.Markup.Lexer
import LayoutCompletion.Proofs.Markup.Names

/-!
# Tags

`Token.WellFormed` is the grammar of what start tags and end tags consist of. A part of a start
tag is read exactly if it is well formed (`tagPart_eq_ok`), and so is an end tag
(`closeTag_eq_ok`). Neither depends on what stands behind it: an attribute ends with a quote and a
tag with a bracket.
-/

namespace LayoutCompletion.Markup

open Scan

/-- An equals sign with space around it. -/
def IsEquals (cs : List Char) : Prop :=
  ∃ before after, AllOf isSpace before ∧ AllOf isSpace after ∧ cs = before ++ '=' :: after

/-- May the character stand in a value between these quotes? -/
def inValue (q c : Char) : Bool :=
  isLegal c && c ≠ q && c ≠ '<'

/-- The characters of the token could stand where it was read. -/
def Token.WellFormed : Token → Prop
  | .skipped _ => True
  | .openTag name => name.Valid
  | .attribute lead name equals q value =>
    lead ≠ [] ∧ AllOf isSpace lead ∧ name.Valid ∧ IsEquals equals ∧ IsQuote q ∧
      AllOf (inValue q) value
  | .tagEnd lead _ => AllOf isSpace lead
  | .closeTag name trail => name.Valid ∧ AllOf isSpace trail

/-- Can the token stand in a start tag, behind its name? -/
def Token.isTagPart : Token → Bool
  | .attribute .. => true
  | .tagEnd .. => true
  | _ => false

theorem isSpace_equals : isSpace '=' = false := by
  decide

theorem not_continues_of_isSpace {c : Char} (h : isSpace c = true) :
    QualifiedName.continues c = false := by
  rcases isSpace_iff.mp h with rfl | rfl | rfl | rfl <;> decide

/-- An equals sign, or the space before it, ends a name. -/
theorem IsEquals.ends_continues {equals : List Char} (h : IsEquals equals) (rest : List Char) :
    Ends QualifiedName.continues (equals ++ rest) := by
  obtain ⟨before, after, hb, -, rfl⟩ := h
  cases before with
  | nil => exact ends_cons.mpr (by decide)
  | cons c before => exact ends_cons.mpr (not_continues_of_isSpace (hb c (by simp)))

theorem Scan.IsQuote.isSpace {q : Char} (h : IsQuote q) : isSpace q = false := by
  rcases h with rfl | rfl <;> decide

theorem Scan.IsQuote.isLegal {q : Char} (h : IsQuote q) : isLegal q = true := by
  rcases h with rfl | rfl <;> decide

/-- A name that ends where it is cut off. -/
theorem ends_continues_space {w rest : List Char} (hw : AllOf isSpace w) (hr : ∀ c ∈ rest.head?,
    QualifiedName.continues c = false) : Ends QualifiedName.continues (w ++ rest) := by
  cases w with
  | nil => exact hr
  | cons c w => exact ends_cons.mpr (not_continues_of_isSpace (hw c (by simp)))

/-! ## Parts of attributes -/

theorem equals_eq_ok {u : Unit} {cs rest : List Char} :
    Lexer.equals cs = .ok (u, rest) ↔
      ∃ equals, IsEquals equals ∧ cs = equals ++ rest ∧ Ends isSpace rest := by
  unfold Lexer.equals
  simp only [bind_eq_ok, spaces_eq_ok, char_eq_ok, pure_eq_ok]
  constructor
  · rintro ⟨before, _, ⟨rfl, hb, -⟩, _, _, rfl, after, _, ⟨rfl, ha, hr⟩, -, rfl⟩
    exact ⟨_, ⟨before, after, hb, ha, rfl⟩, by simp, hr⟩
  · rintro ⟨_, ⟨before, after, hb, ha, rfl⟩, rfl, hr⟩
    refine ⟨before, '=' :: (after ++ rest), ⟨by simp, hb, ends_cons.mpr isSpace_equals⟩,
      (), after ++ rest, rfl, after, rest, ⟨rfl, ha, hr⟩, trivial, rfl⟩

/-- A value goes up to the first quote of its kind, to the first angle bracket or to the end. -/
theorem value_eq_ok {q : Char} (hq : isLegal q = true) {value cs rest : List Char} :
    upTo (fun tail => tail.head? = some q || tail.head? = some '<') cs = .ok (value, rest) ↔
      cs = value ++ rest ∧ AllOf (inValue q) value ∧
        ∀ c ∈ rest.head?, c = q ∨ c = '<' := by
  rw [upTo_eq_ok]
  constructor
  · rintro ⟨rfl, hall, hbefore, hrest⟩
    refine ⟨rfl, ?_, ?_⟩
    · -- reading would have stopped before a character of the value that ends values
      intro c hc
      obtain ⟨u, v, rfl⟩ := List.append_of_mem hc
      have := hbefore u (c :: v) rfl (by simp)
      simp only [List.cons_append, List.head?_cons, Option.some.injEq, Bool.or_eq_false_iff,
        decide_eq_false_iff_not] at this
      simp [inValue, hall c hc, this]
    · intro c hc
      have := (hrest c hc).2
      rw [Option.mem_def.mp hc] at this
      simpa using this
  · rintro ⟨rfl, hall, hrest⟩
    refine ⟨rfl, ?_, ?_, ?_⟩
    · intro c hc
      have := hall c hc
      simp only [inValue, Bool.and_eq_true] at this
      exact this.1.1
    · intro u v huv hne
      obtain ⟨c, v, rfl⟩ := List.exists_cons_of_ne_nil hne
      have := hall c (by simp [huv])
      simp only [inValue, Bool.and_eq_true, decide_eq_true_eq] at this
      simp [this]
    · intro c hc
      have hstop := hrest c hc
      rw [Option.mem_def.mp hc]
      refine ⟨?_, by simpa using hstop⟩
      rcases hstop with rfl | rfl
      · exact hq
      · decide

namespace Lexer

theorem attributeBody_eq_ok {lead cs rest : List Char} {token : Token} :
    attributeBody lead cs = .ok (token, rest) ↔
      ∃ name equals q value, token = .attribute lead name equals q value ∧ name.Valid ∧
        IsEquals equals ∧ IsQuote q ∧ AllOf (inValue q) value ∧
        cs = name.text ++ equals ++ q :: value ++ q :: rest := by
  have hequals : Suffix equals :=
    suffix_bind suffix_spaces fun _ => suffix_bind (suffix_char _) fun _ =>
      suffix_bind suffix_spaces fun _ => suffix_pure _
  unfold attributeBody
  simp only [bind_eq_ok, QualifiedName.scan_eq_ok, quote_eq_ok, char_eq_ok, pure_eq_ok,
    Prod.exists, lexeme_eq_ok hequals, equals_eq_ok]
  constructor
  · rintro ⟨name, _, ⟨rfl, hn, -⟩, _, word, _, ⟨rfl, equals, he, hw, -⟩, q, _, ⟨rfl, hq⟩, value, _,
      hv, _, _, rfl, rfl, rfl⟩
    obtain rfl : word = equals := List.append_cancel_right hw
    obtain ⟨rfl, hall, -⟩ := (value_eq_ok hq.isLegal).mp hv
    exact ⟨name, word, q, value, rfl, hn, he, hq, hall, by simp⟩
  · rintro ⟨name, equals, q, value, rfl, hn, he, hq, hall, rfl⟩
    refine ⟨name, equals ++ (q :: value ++ q :: rest), ⟨by simp, hn, he.ends_continues _⟩, (),
      equals, q :: (value ++ q :: rest), ⟨by simp, equals, he, by simp, ends_cons.mpr hq.isSpace⟩,
      q, value ++ q :: rest, ⟨rfl, hq⟩, value, q :: rest, ?_, (), rest, rfl, rfl, rfl⟩
    exact (value_eq_ok hq.isLegal).mpr ⟨rfl, hall, by simp⟩

/-- What stands behind the leading space decides which part of a start tag is read. -/
theorem tagPart_append {lead tail : List Char} (hlead : AllOf isSpace lead) :
    Ends isSpace tail → tagPart (lead ++ tail) =
      match tail with
      | '/' :: rest => selfClosingEnd lead rest
      | '>' :: rest => .ok (.tagEnd lead false, rest)
      | rest =>
        if lead.isEmpty then
          .error ⟨if rest.isEmpty then .unexpectedEnd else .wantedSpace, rest⟩
        else attributeBody lead rest := by
  intro htail
  unfold tagPart
  rewrite [takeWhile_append_ends hlead htail, dropWhile_append_ends hlead htail]
  rfl

theorem selfClosingEnd_eq_ok {lead cs rest : List Char} {token : Token} :
    selfClosingEnd lead cs = .ok (token, rest) ↔ token = .tagEnd lead true ∧ cs = '>' :: rest := by
  unfold selfClosingEnd
  rw [bind_eq_ok]
  constructor
  · rintro ⟨_, _, hchar, h⟩
    rw [char_eq_ok] at hchar
    rw [pure_eq_ok] at h
    obtain ⟨rfl, rfl⟩ := h
    exact ⟨rfl, hchar⟩
  · rintro ⟨rfl, rfl⟩
    exact ⟨(), rest, by simp, by simp⟩

theorem tagPart_tagEnd {lead rest : List Char} (hlead : AllOf isSpace lead) (selfClosing : Bool) :
    tagPart ((Token.tagEnd lead selfClosing).text ++ rest) =
      .ok (.tagEnd lead selfClosing, rest) := by
  cases selfClosing with
  | false =>
    have hend : Ends isSpace ('>' :: rest) := ends_cons.mpr (by decide)
    rw [Token.text, List.append_assoc]
    exact tagPart_append hlead hend
  | true =>
    have hend : Ends isSpace ('/' :: '>' :: rest) := ends_cons.mpr (by decide)
    rw [Token.text, List.append_assoc]
    exact (tagPart_append hlead hend).trans (selfClosingEnd_eq_ok.mpr ⟨rfl, rfl⟩)

/-- A name begins neither like space nor like the end of a tag. -/
theorem ends_head_text {name : QualifiedName} (hn : name.Valid) (rest : List Char) :
    Ends (fun c => isSpace c || c = '/' || c = '>') (name.text ++ rest) := by
  obtain ⟨c, cs, htext, hc⟩ := QualifiedName.head_text hn
  rw [htext]
  refine ends_cons.mpr ?_
  have hcontinues : QualifiedName.continues c = true := by
    rcases hc with hc | rfl
    · simp [QualifiedName.continues, isNameChar_of_isNameStart hc]
    · decide
  have hspace : isSpace c = false := by
    cases hs : isSpace c with
    | false => rfl
    | true =>
      rw [not_continues_of_isSpace hs] at hcontinues
      exact Bool.noConfusion hcontinues
  have hslash : c ≠ '/' := by
    rintro rfl
    exact absurd hcontinues (by decide)
  have hbracket : c ≠ '>' := by
    rintro rfl
    exact absurd hcontinues (by decide)
  simp [hspace, hslash, hbracket]

theorem tagPart_attribute {lead equals value rest : List Char} {name : QualifiedName} {q : Char}
    (h : (Token.attribute lead name equals q value).WellFormed) :
    tagPart ((Token.attribute lead name equals q value).text ++ rest) =
      .ok (.attribute lead name equals q value, rest) := by
  obtain ⟨hne, hlead, hn, he, hq, hall⟩ := h
  have hends := ends_head_text hn (equals ++ q :: (value ++ q :: rest))
  have hbody : attributeBody lead (name.text ++ (equals ++ q :: (value ++ q :: rest))) =
      .ok (.attribute lead name equals q value, rest) :=
    attributeBody_eq_ok.mpr ⟨name, equals, q, value, rfl, hn, he, hq, hall, by simp⟩
  have htext : (Token.attribute lead name equals q value).text ++ rest =
      lead ++ (name.text ++ (equals ++ q :: (value ++ q :: rest))) := by
    simp [Token.text]
  rw [htext, tagPart_append hlead (fun c hc => by
    have := hends c hc
    simp only [Bool.or_eq_false_iff] at this
    exact this.1.1)]
  -- a name does not begin like the end of a tag
  split
  · next tail htail =>
    rw [htail] at hends
    exact absurd (ends_cons.mp hends) (by decide)
  · next tail htail =>
    rw [htail] at hends
    exact absurd (ends_cons.mp hends) (by decide)
  · rw [if_neg (by simpa using hne)]
    exact hbody

/-- What is read in a start tag is a well-formed part of one, whatever follows. -/
theorem tagPart_eq_ok {cs rest : List Char} {token : Token} :
    tagPart cs = .ok (token, rest) ↔
      token.isTagPart = true ∧ token.WellFormed ∧ cs = token.text ++ rest := by
  constructor
  · intro h
    obtain ⟨lead, tail, rfl, hlead, htail⟩ : ∃ lead tail, cs = lead ++ tail ∧
        AllOf isSpace lead ∧ Ends isSpace tail :=
      ⟨cs.takeWhile isSpace, cs.dropWhile isSpace, List.takeWhile_append_dropWhile.symm,
        allOf_takeWhile isSpace cs, ends_dropWhile isSpace cs⟩
    rw [tagPart_append hlead htail] at h
    split at h
    · obtain ⟨rfl, rfl⟩ := selfClosingEnd_eq_ok.mp h
      exact ⟨rfl, hlead, by simp [Token.text]⟩
    · simp only [Except.ok.injEq, Prod.mk.injEq] at h
      obtain ⟨rfl, rfl⟩ := h
      exact ⟨rfl, hlead, by simp [Token.text]⟩
    · split at h
      · simp at h
      · next hne =>
        obtain ⟨name, equals, q, value, rfl, hn, he, hq, hall, rfl⟩ := attributeBody_eq_ok.mp h
        exact ⟨rfl, ⟨by simpa using hne, hlead, hn, he, hq, hall⟩, by simp [Token.text]⟩
  · rintro ⟨hpart, hwf, rfl⟩
    rcases token with _ | _ | ⟨lead, name, equals, q, value⟩ | ⟨lead, selfClosing⟩ | _
    · simp [Token.isTagPart] at hpart
    · simp [Token.isTagPart] at hpart
    · exact tagPart_attribute hwf
    · exact tagPart_tagEnd hwf selfClosing
    · simp [Token.isTagPart] at hpart

/-- What is read behind the slash of an end tag, whatever follows. -/
theorem closeTag_eq_ok {cs rest : List Char} {token : Token} :
    closeTag cs = .ok (token, rest) ↔
      ∃ name trail, token = .closeTag name trail ∧ name.Valid ∧ AllOf isSpace trail ∧
        cs = name.text ++ trail ++ '>' :: rest := by
  unfold closeTag
  simp only [bind_eq_ok, QualifiedName.scan_eq_ok, spaces_eq_ok, char_eq_ok, pure_eq_ok]
  constructor
  · rintro ⟨name, _, ⟨rfl, hn, -⟩, trail, _, ⟨rfl, ht, -⟩, _, _, rfl, rfl, rfl⟩
    exact ⟨name, trail, rfl, hn, ht, by simp⟩
  · rintro ⟨name, trail, rfl, hn, ht, rfl⟩
    refine ⟨name, trail ++ '>' :: rest, ⟨by simp, hn, ?_⟩, trail, '>' :: rest,
      ⟨rfl, ht, ends_cons.mpr (by decide)⟩, (), rest, rfl, rfl, rfl⟩
    have hbracket : QualifiedName.continues '>' = false := by decide
    exact ends_continues_space ht (by simpa using hbracket)

end Lexer

end LayoutCompletion.Markup
