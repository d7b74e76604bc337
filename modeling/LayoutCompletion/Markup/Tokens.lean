import LayoutCompletion.Markup.Lexer

/-!
# The tokens of a text

Every construct leaves a tail of its input, and a token takes at least one character
(`length_lt_of_next`). So a text is cut into finitely many tokens, up to its end or up to the
first failure.
-/

namespace LayoutCompletion.Markup

open Scan

namespace Lexer

/-! ## Constructs leave a tail of their input -/

theorem suffix_equals : Suffix equals :=
  suffix_bind suffix_spaces fun _ => suffix_bind (suffix_char _) fun _ =>
    suffix_bind suffix_spaces fun _ => suffix_pure _

theorem suffix_quotedBy {p : Char → Scan Unit} (hp : ∀ q, Suffix (p q)) : Suffix (quotedBy p) :=
  suffix_bind suffix_quote fun q => suffix_bind (hp q) fun _ => suffix_char q

theorem suffix_declarationSpace : Suffix declarationSpace :=
  suffix_bind suffix_spaces fun _ => suffix_bind suffix_peek fun _ =>
    suffix_bind (suffix_sees _) fun _ => suffix_failIf _ _

theorem suffix_yesOrNo : Suffix yesOrNo := by
  intro cs a rest h
  simp only [yesOrNo] at h
  split at h
  · simp at h
  · next word mid hname =>
    split at h
    · cases h
      exact suffix_name hname
    · simp at h

theorem suffix_versionNumber : Suffix versionNumber :=
  suffix_bind (suffix_text _) fun _ => suffix_bind (suffix_takeWhile _) fun _ => suffix_pure _

theorem suffix_encoding : Suffix encoding :=
  suffix_bind suffix_equals fun _ =>
    suffix_bind (suffix_quotedBy fun _ =>
      suffix_bind (suffix_takeWhile _) fun _ => suffix_pure _) fun _ => suffix_declarationSpace

theorem suffix_standalone : Suffix standalone :=
  suffix_bind suffix_equals fun _ => suffix_quotedBy fun _ => suffix_yesOrNo

theorem suffix_declaration : Suffix declaration :=
  suffix_bind suffix_spaces fun _ => suffix_bind (suffix_text _) fun _ =>
    suffix_bind suffix_equals fun _ =>
      suffix_bind (suffix_quotedBy fun _ => suffix_versionNumber) fun _ =>
        suffix_bind suffix_declarationSpace fun _ =>
          suffix_bind (suffix_optionally _ suffix_encoding) fun _ =>
            suffix_bind (suffix_optionally _ suffix_standalone) fun _ =>
              suffix_bind suffix_spaces fun _ => suffix_text _

theorem suffix_comment : Suffix comment :=
  suffix_bind (suffix_upTo _) fun _ => suffix_bind (suffix_text _) fun _ =>
    suffix_bind (suffix_failIf _ _) fun _ => suffix_failIf _ _

theorem suffix_instruction : Suffix instruction :=
  suffix_bind suffix_name fun _ => suffix_bind suffix_spaces fun _ =>
    suffix_bind (suffix_upTo _) fun _ => suffix_text _

theorem suffix_literal : Suffix literal :=
  suffix_quotedBy fun _ => suffix_bind (suffix_takeWhile _) fun _ => suffix_pure _

theorem suffix_spacedLiteral : Suffix spacedLiteral :=
  suffix_bind suffix_someSpace fun _ => suffix_literal

theorem suffix_externalId? : Suffix externalId? :=
  suffix_bind (suffix_sees _) fun _ => by
    split
    · exact suffix_bind (suffix_advance _) fun _ =>
        suffix_bind suffix_spacedLiteral fun _ => suffix_pure _
    · refine suffix_bind (suffix_sees _) fun _ => ?_
      split
      · exact suffix_bind (suffix_advance _) fun _ =>
          suffix_bind suffix_spacedLiteral fun _ =>
            suffix_bind suffix_spacedLiteral fun _ => suffix_pure _
      · exact suffix_pure _

theorem suffix_documentType : Suffix documentType :=
  suffix_bind suffix_someSpace fun _ => suffix_bind suffix_name fun _ =>
    suffix_bind suffix_spaces fun _ => suffix_bind suffix_externalId? fun _ =>
      suffix_bind suffix_spaces fun _ => suffix_bind suffix_peek fun _ => by
        split
        · exact suffix_fail _
        · split
          · exact suffix_bind (suffix_advance _) fun _ => suffix_pure _
          · exact suffix_fail _

theorem suffix_entityNotation : Suffix entityNotation :=
  suffix_bind suffix_someSpace fun _ => suffix_bind suffix_peek fun _ => by
    split
    · exact suffix_pure _
    · exact suffix_bind suffix_name fun _ => suffix_pure _

theorem suffix_entityDefinition (general : Bool) : Suffix (entityDefinition general) :=
  suffix_bind suffix_peek fun _ => by
    split
    · exact suffix_fail _
    · split
      · exact suffix_literal
      · split
        · refine suffix_bind suffix_externalId? fun _ => suffix_bind (suffix_failIf _ _) fun _ => ?_
          split
          · exact suffix_bind suffix_spaces fun _ => suffix_optionally _ suffix_entityNotation
          · exact suffix_pure _
        · exact suffix_fail _

theorem suffix_parameterSign : Suffix parameterSign :=
  suffix_bind suffix_peek fun _ => by
    split
    · exact suffix_bind (suffix_advance _) fun _ =>
        suffix_bind suffix_someSpace fun _ => suffix_pure _
    · exact suffix_pure _

theorem suffix_entity : Suffix entity :=
  suffix_bind suffix_someSpace fun _ => suffix_bind suffix_parameterSign fun _ =>
    suffix_bind suffix_name fun _ => suffix_bind suffix_someSpace fun _ =>
      suffix_bind (suffix_entityDefinition _) fun _ =>
        suffix_bind suffix_spaces fun _ => suffix_char _

theorem suffix_subsetEnd : Suffix subsetEnd :=
  suffix_bind suffix_spaces fun _ => suffix_char _

theorem suffix_otherDeclaration : Suffix otherDeclaration :=
  suffix_bind (suffix_takeWhile _) fun _ => suffix_bind suffix_someSpace fun _ =>
    suffix_bind (suffix_takeWhile _) fun _ => suffix_char _

theorem suffix_literalSection : Suffix literalSection :=
  suffix_bind (suffix_upTo _) fun _ => suffix_text _

theorem suffix_closeTag : Suffix closeTag :=
  suffix_bind QualifiedName.suffix_scan fun _ => suffix_bind suffix_spaces fun _ =>
    suffix_bind (suffix_char _) fun _ => suffix_pure _

theorem suffix_attributeBody (lead : List Char) : Suffix (attributeBody lead) :=
  suffix_bind QualifiedName.suffix_scan fun _ =>
    suffix_bind (suffix_lexeme suffix_equals) fun _ => suffix_bind suffix_quote fun _ =>
      suffix_bind (suffix_upTo _) fun _ => suffix_bind (suffix_char _) fun _ => suffix_pure _

theorem suffix_selfClosingEnd (lead : List Char) : Suffix (selfClosingEnd lead) :=
  suffix_bind (suffix_char _) fun _ => suffix_pure _

/-! ## A token takes at least one character -/

theorem length_tagPart {cs rest : List Char} {token : Token} (h : tagPart cs = .ok (token, rest)) :
    rest.length < cs.length := by
  have hsplit : cs.takeWhile isSpace ++ cs.dropWhile isSpace = cs := List.takeWhile_append_dropWhile
  have hlen := congrArg List.length hsplit
  rw [List.length_append] at hlen
  simp only [tagPart] at h
  split at h
  · next tail hmid =>
    have := (suffix_selfClosingEnd _ h).length_le
    simp only [hmid, List.length_cons] at hlen
    omega
  · next tail hmid =>
    cases h
    simp only [hmid, List.length_cons] at hlen
    omega
  · split at h
    · simp at h
    · next hlead =>
      have := (suffix_attributeBody _ h).length_le
      have : 0 < (cs.takeWhile isSpace).length := by
        rw [List.length_pos_iff]
        simpa using hlead
      omega

theorem length_characterData {cs rest : List Char} {token : Token} (hne : cs ≠ [])
    (hopen : begins "<" cs = false) (h : characterData cs = .ok (token, rest)) :
    rest.length < cs.length := by
  obtain ⟨c, cs, rfl⟩ := List.exists_cons_of_ne_nil hne
  simp only [characterData, bind, StateT.bind] at h
  cases hbody : upTo (begins "<") (c :: cs) with
  | error e => simp [hbody, Except.bind] at h
  | ok v =>
    obtain ⟨body, mid⟩ := v
    simp only [hbody, Except.bind] at h
    have hrest : rest <:+ mid :=
      suffix_bind (p := failIf (hasSectionEnd body) .sectionEndInText)
        (f := fun _ => pure (Token.skipped body)) (suffix_failIf _ _) (fun _ => suffix_pure _) h
    simp only [upTo, hopen] at hbody
    split at hbody
    · simp at hbody
    · simp only [Bool.false_eq_true, if_false] at hbody
      cases htail : upTo (begins "<") cs with
      | error e => simp [htail, Except.map] at hbody
      | ok w =>
        obtain ⟨taken, left⟩ := w
        simp only [htail, Except.map, Except.ok.injEq, Prod.mk.injEq] at hbody
        obtain ⟨-, rfl⟩ := hbody
        have h₁ := (suffix_upTo _ htail).length_le
        have h₂ := hrest.length_le
        simp only [List.length_cons]
        omega

theorem length_drop_lt {cs : List Char} {n : Nat} (hne : cs ≠ []) (hn : 0 < n) :
    (cs.drop n).length < cs.length := by
  have := List.length_pos_iff.2 hne
  rw [List.length_drop]
  omega

theorem length_skip {α : Type} {construct : Construct} {n : Nat} {p : Scan α} {mode : α → Mode}
    {cs : List Char} {step : Step} (hne : cs ≠ []) (hn : 0 < n) (hp : Suffix p)
    (h : skip construct n p mode cs = .ok step) : step.rest.length < cs.length := by
  simp only [skip] at h
  split at h
  · simp at h
  · next a rest hcs =>
    cases h
    exact Nat.lt_of_le_of_lt (hp hcs).length_le (length_drop_lt hne hn)

theorem length_read {construct : Construct} {n : Nat} {p : Scan Token} {mode : Token → Mode}
    {cs : List Char} {step : Step} (hne : cs ≠ []) (hn : 0 < n) (hp : Suffix p)
    (h : read construct n p mode cs = .ok step) : step.rest.length < cs.length := by
  simp only [read] at h
  split at h
  · simp at h
  · next a rest hcs =>
    cases h
    exact Nat.lt_of_le_of_lt (hp hcs).length_le (length_drop_lt hne hn)

theorem length_element {depth : Nat} {cs : List Char} {step : Step} (hne : cs ≠ [])
    (h : element depth cs = .ok step) : step.rest.length < cs.length :=
  length_read hne Nat.one_pos (suffix_map QualifiedName.suffix_scan) h

theorem length_misc {mode : Mode} {cs : List Char} {otherwise : Except Failure Step} {step : Step}
    (hne : cs ≠ []) (ho : otherwise = .ok step → step.rest.length < cs.length)
    (h : misc mode cs otherwise = .ok step) : step.rest.length < cs.length := by
  simp only [misc] at h
  split at h
  · exact length_skip hne (by omega) suffix_comment h
  · split at h
    · simp at h
    · split at h
      · exact length_skip hne (by omega) suffix_instruction h
      · split at h
        · next hspace =>
          cases h
          obtain ⟨c, cs, rfl⟩ := List.exists_cons_of_ne_nil hne
          simp only [List.head?_cons, Option.any_some] at hspace
          simp only [List.dropWhile_cons, hspace, if_true, List.length_cons]
          have := (List.dropWhile_suffix (l := cs) isSpace).length_le
          omega
        · exact ho h

theorem length_beforeRoot {cs : List Char} {step : Step} (hne : cs ≠ [])
    (h : beforeRoot cs = .ok step) : step.rest.length < cs.length := by
  refine length_misc hne (fun ho => ?_) h
  split at ho
  · exact length_element hne ho
  · simp at ho

theorem length_prolog {cs : List Char} {step : Step} (hne : cs ≠ [])
    (h : prolog cs = .ok step) : step.rest.length < cs.length := by
  simp only [prolog] at h
  split at h
  · exact length_skip hne (by omega) suffix_documentType h
  · exact length_misc hne (length_beforeRoot hne) h

theorem length_subset {cs : List Char} {step : Step} (hne : cs ≠ [])
    (h : subset cs = .ok step) : step.rest.length < cs.length := by
  simp only [subset] at h
  split at h
  · exact length_skip hne (by omega) suffix_entity h
  · split at h
    · exact length_skip hne (by omega) suffix_subsetEnd h
    · refine length_misc hne (fun ho => ?_) h
      split at ho
      · split at ho
        · simp at ho
        · next inner hinner =>
          cases ho
          exact length_skip hne (by omega) suffix_otherDeclaration hinner
      · simp at ho

theorem length_content {outer : Nat} {cs : List Char} {step : Step} (hne : cs ≠ [])
    (h : content outer cs = .ok step) : step.rest.length < cs.length := by
  simp only [content] at h
  split at h
  · exact length_skip hne (by omega) suffix_comment h
  split at h
  · exact length_skip hne (by omega) suffix_literalSection h
  split at h
  · simp at h
  split at h
  · simp at h
  split at h
  · exact length_skip hne (by omega) suffix_instruction h
  split at h
  · exact length_read hne (by omega) suffix_closeTag h
  split at h
  · simp at h
  split at h
  · exact length_element hne h
  · next hopen =>
    simp only [read, List.drop_zero] at h
    split at h
    · simp at h
    · next token rest hcs =>
      cases h
      exact length_characterData hne (by simpa using hopen) hcs

theorem length_tag {depth : Nat} {cs : List Char} {step : Step}
    (h : tag depth cs = .ok step) : step.rest.length < cs.length := by
  simp only [tag, read, List.drop_zero] at h
  split at h
  · simp at h
  · next token rest hcs =>
    cases h
    exact length_tagPart hcs

/-- What is left behind a token is shorter than what there was. -/
theorem length_lt_of_next {mode : Mode} {cs : List Char} {step : Step} (hne : cs ≠ [])
    (h : next mode cs = .ok step) : step.rest.length < cs.length := by
  cases mode with
  | start =>
    simp only [next] at h
    split at h
    · exact length_skip hne (by omega) suffix_declaration h
    · exact length_prolog hne h
  | prolog => exact length_prolog hne h
  | subset => exact length_subset hne h
  | beforeRoot => exact length_beforeRoot hne h
  | content outer => exact length_content hne h
  | tag depth => exact length_tag h
  | epilog => exact length_misc hne (by simp) h

end Lexer

/-- The tokens that were read from a text, and why reading stopped before its end. -/
structure Lexed where
  tokens : List Token
  failure : Option Failure
deriving DecidableEq, Repr

/-- The tokens of a text that is read from the given mode on. -/
def tokensFrom (mode : Mode) (cs : List Char) : Lexed :=
  if _hne : cs = [] then ⟨[], none⟩
  else
    match _h : Lexer.next mode cs with
    | .error failure => ⟨[], some failure⟩
    | .ok step =>
      let more := tokensFrom step.mode step.rest
      ⟨step.token :: more.tokens, more.failure⟩
termination_by cs.length
decreasing_by exact Lexer.length_lt_of_next _hne _h

/-- The tokens of a whole text. A byte order mark at its beginning is not part of the markup. -/
def tokens (cs : List Char) : Lexed :=
  match cs with
  | '\uFEFF' :: rest =>
    let more := tokensFrom .start rest
    ⟨.skipped ['\uFEFF'] :: more.tokens, more.failure⟩
  | _ => tokensFrom .start cs

end LayoutCompletion.Markup
