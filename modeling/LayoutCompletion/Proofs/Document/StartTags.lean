import LayoutCompletion.Proofs.Document.Extending
import LayoutCompletion.Proofs.Document.Parsing
import LayoutCompletion.Proofs.Markup.Opening

/-!
# The start tag of an element

Every element of a document was opened by a token (`exists_opened`). Behind it attributes were read,
and the end of the tag unless reading stopped before (`exists_parts`). Neither a name nor an
attribute ends with a bracket, so if a bracket ends the place of an element, the start tag is closed
there, and it is in the text from its first bracket to its last (`exists_startTag`).
-/

namespace LayoutCompletion

open Markup Markup.Scan Text

/-! ## Texts that do not end a tag -/

/-- No bracket is the last character behind the text if none was before it. -/
def KeepsOpen (text : List Char) : Prop :=
  ∀ front : List Char, front.getLast? ≠ some '>' → (front ++ text).getLast? ≠ some '>'

theorem keepsOpen_nil : KeepsOpen [] := by
  intro front h
  rw [List.append_nil]
  exact h

theorem KeepsOpen.append {as bs : List Char} (has : KeepsOpen as) (hbs : KeepsOpen bs) :
    KeepsOpen (as ++ bs) := by
  intro front h
  rw [← List.append_assoc]
  exact hbs _ (has front h)

section
variable {lead equals value : List Char} {name : QualifiedName} {q : Char}

theorem keepsOpen_attribute (hq : IsQuote q) :
    KeepsOpen (Token.attribute lead name equals q value).text := by
  intro front _
  have htext : front ++ (Token.attribute lead name equals q value).text =
      (front ++ lead ++ name.text ++ equals ++ q :: value) ++ [q] := by
    simp [Token.text]
  rw [htext, List.getLast?_concat]
  rcases hq with rfl | rfl <;> decide

/-- A bracket is not the last character of a name. -/
theorem getLast?_openTag (hn : name.Valid) (front : List Char) :
    (front ++ (Token.openTag name).text).getLast? ≠ some '>' := by
  obtain ⟨c, hc⟩ : ∃ c, name.text.getLast? = some c :=
    ⟨_, List.getLast?_eq_some_getLast (text_ne_nil hn)⟩
  have hlast : (front ++ (Token.openTag name).text).getLast? = some c := by
    rw [Token.text, ← List.singleton_append, ← List.append_assoc, List.getLast?_append, hc]
    rfl
  rw [hlast]
  intro h
  obtain rfl := Option.some.inj h
  have := QualifiedName.allOf_text hn _ (List.mem_of_getLast? hc)
  exact absurd this (by decide)

end

namespace Builder

variable {m n : Mode} {b : Builder} {ts : List Token} {node depth : Nat}

/-- An element that was not there before was opened by a token. -/
theorem exists_opened (hfits : Fits m b) (hruns : m.Runs ts n) (hnew : b.document.size ≤ node)
    (h : node < (b.after ts).document.size) :
    ∃ before name behind k depth, ts = before ++ .openTag name :: behind ∧
      Fits k (b.after before) ∧ (b.after before).document.size = node ∧
      k.Admits (.openTag name) (.tag depth) ∧ name.Valid ∧ Mode.Runs (.tag depth) behind n := by
  induction hruns generalizing b with
  | nil => exact absurd h (Nat.not_lt_of_le hnew)
  | @cons m k n t ts hadm hwf hrest ih =>
    by_cases hlater : (b.push t).document.size ≤ node
    · obtain ⟨before, name, behind, k', depth, rfl, hbefore, hsize, hadm', hn, hruns⟩ :=
        ih (hfits.push hadm hwf) hlater h
      exact ⟨t :: before, name, behind, k', depth, rfl, hbefore, hsize, hadm', hn, hruns⟩
    · obtain ⟨rfl, name, rfl⟩ := exists_openTag_of_lt hnew (Nat.lt_of_not_le hlater)
      obtain ⟨depth, rfl⟩ : ∃ depth, k = .tag depth := by
        cases hadm with
        | root => exact ⟨_, rfl⟩
        | child => exact ⟨_, rfl⟩
      exact ⟨[], name, ts, m, depth, rfl, hfits, rfl, hadm, hwf, hrest⟩

/-- Behind its end, the place of a start tag is final. -/
theorem span?_after_tagEnd (hfits : Fits (.tag depth) b) (hin : b.InTag node) {s : Span}
    (hs : b.document.span? node = some s) {lead : List Char} {selfClosing : Bool}
    (hruns : Mode.Runs (.tag depth) (.tagEnd lead selfClosing :: ts) n) :
    (b.after (.tagEnd lead selfClosing :: ts)).document.span? node =
      some ⟨s.start, b.offset + utf8Length (Token.tagEnd lead selfClosing).text⟩ := by
  have hpush := span?_push_part hfits hin hs
    (show (Token.tagEnd lead selfClosing).isTagPart = true from rfl)
  cases hruns with
  | @cons _ k _ _ _ hadm hwf hrest =>
    have hk : ∀ inner, k ≠ .tag inner := by
      rintro inner rfl
      rcases hadm.of_tag with ⟨_, h⟩ | ⟨-, _, _, _, _, _, h⟩ <;> cases h
    have hsettled : Settled k (b.push (.tagEnd lead selfClosing)) node :=
      ⟨lt_size_of_span? hpush, fun inner h => absurd h (hk inner)⟩
    rw [after_cons, span?_after_settled (hfits.push hadm hwf) hrest hsettled, hpush]
    rfl

/-- From the name on, a start tag reaches over attributes and, if it is closed, over its end. -/
theorem exists_parts (hfits : Fits (.tag depth) b) (hin : b.InTag node)
    (hruns : Mode.Runs (.tag depth) ts n) {start : Nat} {s : Span}
    (hspan : b.document.span? node = some ⟨start, b.offset⟩)
    (hs : (b.after ts).document.span? node = some s) :
    s.start = start ∧ ∃ parts behind, ts = parts ++ behind ∧
      s.stop = b.offset + utf8Length (textOf parts) ∧
      (TagRest (textOf parts) ∨ KeepsOpen (textOf parts)) := by
  induction ts generalizing b with
  | nil =>
    obtain rfl : _ = s := Option.some.inj (hspan.symm.trans hs)
    exact ⟨rfl, [], [], rfl, rfl, Or.inr keepsOpen_nil⟩
  | cons t ts ih =>
    have hpart : t.isTagPart = true := by
      cases hruns with
      | cons hadm _ _ => exact hadm.isTagPart_of_tag
    rcases t with _ | _ | ⟨lead, name, equals, q, value⟩ | ⟨lead, selfClosing⟩ | _
    · cases hpart
    · cases hpart
    · cases hruns with
      | cons hadm hwf hrest =>
        cases hadm
        have hpush := span?_push_part hfits hin hspan hpart
        have hfits' := hfits.push (.part depth lead name equals q value) hwf
        have hin' := hin.push_attribute lead name equals q value
        obtain ⟨hstart, parts, behind, rfl, hstop, hparts⟩ := ih hfits' hin' hrest hpush hs
        refine ⟨hstart, _ :: parts, behind, rfl, ?_, ?_⟩
        · rw [hstop, offset_push, textOf_cons, utf8Length_append, Nat.add_assoc]
        · rw [textOf_cons]
          exact hparts.imp (TagRest.part hwf) ((keepsOpen_attribute hwf.2.2.2.2.1).append ·)
    · rw [span?_after_tagEnd hfits hin hspan hruns] at hs
      obtain rfl := Option.some.inj hs
      refine ⟨rfl, [.tagEnd lead selfClosing], ts, rfl, by simp, Or.inl ?_⟩
      cases hruns with
      | cons _ hwf _ =>
        rw [textOf_cons, textOf_nil, List.append_nil]
        exact .tagEnd selfClosing hwf
    · cases hpart

end Builder

/-! ## The start tag in the text -/

/-- A text falls in one way only into two parts of which the first has a given length. -/
theorem append_inj_of_utf8Length {as bs cs ds : List Char} (h : as ++ bs = cs ++ ds)
    (hlength : utf8Length as = utf8Length cs) : as = cs ∧ bs = ds := by
  have hsplit := splitAtByte?_append as bs
  rw [h, hlength, splitAtByte?_append] at hsplit
  exact Prod.mk.inj (Option.some.inj hsplit.symm)

/-- If the place of an element ends with a bracket, its start tag is in the text from its first
bracket to this one. -/
theorem exists_startTag {cs front behind : List Char} {node : Nat} {s : Span}
    (hs : (Document.ofTokens (tokens cs).tokens).span? node = some s)
    (hcs : cs = front ++ '>' :: behind) (hstop : s.stop = utf8Length front + 1) :
    ∃ (before : List Token) (m : Mode) (name : QualifiedName) (rest : List Char) (depth : Nat),
      front ++ ['>'] = textOf before ++ '<' :: (name.text ++ rest) ∧
      s.start = utf8Length (textOf before) ∧ (Builder.empty.after before).document.size = node ∧
      name.Valid ∧ TagRest rest ∧ m.around? = some depth ∧
      ReadsText cs before m ('<' :: (name.text ++ (rest ++ behind))) := by
  obtain ⟨n, hruns⟩ := runs_tokens cs
  obtain ⟨before, name, later, k, depth, htokens, hfits, hsize, hadm, hn, hlater⟩ :=
    Builder.exists_opened Builder.fits_empty hruns (Nat.zero_le node) (Builder.lt_size_of_span? hs)
  subst hsize
  rw [htokens, Builder.ofTokens_eq, Builder.after_append, Builder.after_cons] at hs
  obtain ⟨hstart, parts, others, rfl, hstop', hparts⟩ :=
    Builder.exists_parts (hfits.push hadm hn) (Builder.inTag_push_openTag _ name) hlater
      (Builder.span?_push_openTag hfits.open_lt name) hs
  -- the reader came to the tag, and then over its name and its parts
  have hmark : cs.head? = some '\uFEFF' → before ≠ [] := by
    rintro hhead rfl
    obtain ⟨rest, rfl⟩ := List.head?_eq_some_iff.mp hhead
    simp [tokens] at htokens
  obtain ⟨m, text, hreads, htext⟩ := exists_readsText before htokens hmark
  obtain ⟨k', text', hopen, htext'⟩ := exists_reads [.openTag name] htext
  obtain ⟨_, left, hrest, -⟩ := exists_reads parts htext'
  have htag : front ++ ['>'] = textOf before ++ (Token.openTag name).text ++ textOf parts ∧
      behind = left := by
    refine append_inj_of_utf8Length ?_ ?_
    · rw [List.append_assoc, List.singleton_append, ← hcs, hreads.text, hopen.text, hrest.text]
      simp
    · rw [Builder.offset_push, Builder.offset_after_empty] at hstop'
      have hbracket : utf8Length ['>'] = 1 := by decide
      simp only [utf8Length_append]
      omega
  obtain ⟨hfront, rfl⟩ := htag
  have hparts' : TagRest (textOf parts) := by
    refine hparts.resolve_right fun hopen => ?_
    have hlast := hopen _ (getLast?_openTag hn (textOf before))
    rw [← hfront, List.getLast?_concat] at hlast
    exact hlast rfl
  have htext' : text = '<' :: (name.text ++ (textOf parts ++ behind)) := by
    rw [hopen.text, hrest.text]
    simp [Token.text]
  rw [htext'] at hreads hopen
  obtain ⟨c, tail, hname, -⟩ := QualifiedName.head_text hn
  have hc : QualifiedName.continues c = true :=
    QualifiedName.allOf_text hn c (by rw [hname]; exact .head _)
  obtain ⟨around, haround⟩ : ∃ depth, m.around? = some depth := by
    rw [hname] at hopen
    exact exists_around hopen hc
  refine ⟨before, m, name, textOf parts, around, ?_, ?_, rfl, hn, hparts', haround, hreads⟩
  · rw [hfront, Token.text]
    simp
  · rw [hstart, Builder.offset_after_empty]

end LayoutCompletion
