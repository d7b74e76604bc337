import LayoutCompletion.Proofs.Markup.Stability

/-!
# Constructs end with their own bracket

Declarations, comments, instructions, document types and literal sections are read in the same way
whatever stands behind them. Where the reader looks for a keyword that need not be there, the
bracket that ends the construct comes before anything that could make a keyword appear.
-/

namespace LayoutCompletion.Markup.Lexer

open Scan

variable {A : Agreement}

theorem stable_equals : Stable A equals :=
  stable_bind stable_spaces fun _ => stable_bind (stable_char _) fun _ =>
    stable_bind stable_spaces fun _ => stable_pure _

theorem stable_quotedBy {p : Char → Scan Unit} (hp : ∀ q, Stable A (p q)) :
    Stable A (quotedBy p) :=
  stable_bind stable_quote fun q => stable_bind (hp q) fun _ => stable_char q

theorem stable_literal : Stable A literal :=
  stable_quotedBy fun _ => stable_bind (stable_takeWhile _) fun _ => stable_pure _

theorem stable_spacedLiteral : Stable A spacedLiteral :=
  stable_bind stable_someSpace fun _ => stable_literal

theorem stable_declarationSpace (h : A.Decides "?>") : Stable A declarationSpace :=
  stable_bind stable_spaces fun _ => stable_bind stable_peek fun _ =>
    stable_bind (stable_sees h) fun _ => stable_failIf _ _

theorem stable_yesOrNo : Stable A yesOrNo := by
  intro cs a rest h
  unfold yesOrNo at h
  split at h
  · simp at h
  · next word mid hname =>
    obtain ⟨t, rfl, ht⟩ := stable_name (A := A) hname
    split at h
    · next hword =>
      obtain ⟨-, rfl⟩ := Prod.mk.inj (Except.ok.inj h)
      refine ⟨t, rfl, fun _ ho => ?_⟩
      rw [yesOrNo, ht ho]
      exact if_pos hword
    · simp at h

theorem stable_versionNumber : Stable A versionNumber :=
  stable_bind (stable_text _) fun _ => stable_bind (stable_takeWhile _) fun _ => stable_pure _

theorem stable_encoding (h : A.Decides "?>") : Stable A encoding :=
  stable_bind stable_equals fun _ =>
    stable_bind (stable_quotedBy fun _ =>
      stable_bind (stable_takeWhile _) fun _ => stable_pure _) fun _ => stable_declarationSpace h

theorem stable_standalone : Stable A standalone :=
  stable_bind stable_equals fun _ => stable_quotedBy fun _ => stable_yesOrNo

theorem sealed_declaration : Sealed ['>'] declaration := by
  have hends : (Agreement.through '>').Decides "?>" := decides_through (by decide)
  have hstable {α : Type} {p : Scan α} (h : Stable (.through '>') p) :
      ∀ mark ∈ ['>'], Stable (.through mark) p := by simpa using h
  exact sealed_bind (hstable stable_spaces) fun _ =>
    sealed_bind (hstable (stable_text _)) fun _ =>
      sealed_bind (hstable stable_equals) fun _ =>
        sealed_bind (hstable (stable_quotedBy fun _ => stable_versionNumber)) fun _ =>
          sealed_bind (hstable (stable_declarationSpace hends)) fun _ =>
            sealed_bind (hstable (stable_optionally (decides_through (by decide))
              (stable_encoding hends))) fun _ =>
              sealed_bind (hstable (stable_optionally (decides_through (by decide))
                stable_standalone)) fun _ =>
                sealed_bind (hstable stable_spaces) fun _ => sealed_text (w := ['?']) rfl

theorem sealed_comment : Sealed ['>'] comment := by
  refine sealed_bind ?_ fun body => sealed_check (sealed_text (w := ['-', '-']) rfl) fun _ =>
    still_bind (still_failIf _ _) fun _ => still_failIf _ _
  intro mark hmark
  obtain rfl := List.mem_singleton.mp hmark
  exact stable_upTo (decides_through (by decide))

theorem sealed_instruction : Sealed ['>'] instruction := by
  refine sealed_bind (fun _ _ => stable_name) fun _ => sealed_bind (fun _ _ => stable_spaces)
    fun _ => sealed_bind ?_ fun _ => sealed_text (w := ['?']) rfl
  intro mark hmark
  obtain rfl := List.mem_singleton.mp hmark
  exact stable_upTo (decides_through (by decide))

theorem sealed_literalSection : Sealed ['>'] literalSection := by
  refine sealed_bind ?_ fun _ => sealed_text (w := [']', ']']) rfl
  intro mark hmark
  obtain rfl := List.mem_singleton.mp hmark
  exact stable_upTo (decides_through (by decide))

theorem stable_externalId? (hs : A.Decides "SYSTEM") (hp : A.Decides "PUBLIC") :
    Stable A externalId? :=
  stable_bind (stable_sees hs) fun _ => by
    split
    · exact stable_bind (stable_advance _) fun _ =>
        stable_bind stable_spacedLiteral fun _ => stable_pure _
    · refine stable_bind (stable_sees hp) fun _ => ?_
      split
      · exact stable_bind (stable_advance _) fun _ =>
          stable_bind stable_spacedLiteral fun _ =>
            stable_bind stable_spacedLiteral fun _ => stable_pure _
      · exact stable_pure _

theorem sealed_documentType : Sealed ['[', '>'] documentType := by
  refine sealed_bind (fun _ _ => stable_someSpace) fun _ => sealed_bind (fun _ _ => stable_name)
    fun _ => sealed_bind (fun _ _ => stable_spaces) fun _ => sealed_bind ?_ fun _ =>
      sealed_bind (fun _ _ => stable_spaces) fun _ => ?_
  · intro mark hmark
    have hnot : mark ∉ "SYSTEM".toList.dropLast ∧ mark ∉ "PUBLIC".toList.dropLast := by
      rcases List.mem_cons.mp hmark with rfl | hmark
      · decide
      · obtain rfl := List.mem_singleton.mp hmark
        decide
    exact stable_externalId? (decides_through hnot.1) (decides_through hnot.2)
  · -- one of two brackets comes last, and which one decides what was opened
    intro cs opened rest h
    obtain ⟨next, mid, hpeek, h⟩ := bind_eq_ok.mp h
    obtain ⟨rfl, rfl⟩ := peek_eq_ok.mp hpeek
    cases cs with
    | nil => simp at h
    | cons c cs =>
      simp only [List.head?_cons] at h
      split at h
      · next hc =>
        obtain ⟨_, _, hadvance, h⟩ := bind_eq_ok.mp h
        rw [advance_eq_ok] at hadvance
        obtain ⟨rfl, rfl⟩ := pure_eq_ok.mp h
        obtain rfl : cs = _ := hadvance
        refine ⟨[], c, by simpa using hc, rfl, fun other => ?_⟩
        refine bind_eq_ok.mpr ⟨some c, c :: other, by simp, ?_⟩
        simp only
        rw [if_pos hc]
        exact bind_eq_ok.mpr ⟨(), other, by simp, by simp⟩
      · simp at h

theorem stable_entityNotation : Stable A entityNotation :=
  stable_bind stable_someSpace fun _ => stable_bind stable_peek fun _ => by
    split
    · exact stable_pure _
    · exact stable_bind stable_name fun _ => stable_pure _

theorem stable_entityDefinition (hs : A.Decides "SYSTEM") (hp : A.Decides "PUBLIC")
    (hn : A.Decides "NDATA") (general : Bool) : Stable A (entityDefinition general) :=
  stable_bind stable_peek fun _ => by
    split
    · exact stable_fail _
    · split
      · exact stable_literal
      · split
        · refine stable_bind (stable_externalId? hs hp) fun _ =>
            stable_bind (stable_failIf _ _) fun _ => ?_
          split
          · exact stable_bind stable_spaces fun _ => stable_optionally hn stable_entityNotation
          · exact stable_pure _
        · exact stable_fail _

theorem stable_parameterSign : Stable A parameterSign :=
  stable_bind stable_peek fun _ => by
    split
    · exact stable_bind (stable_advance _) fun _ =>
        stable_bind stable_someSpace fun _ => stable_pure _
    · exact stable_pure _

theorem sealed_entity : Sealed ['>'] entity := by
  refine sealed_bind (fun _ _ => stable_someSpace) fun _ =>
    sealed_bind (fun _ _ => stable_parameterSign) fun _ => sealed_bind (fun _ _ => stable_name)
      fun _ => sealed_bind (fun _ _ => stable_someSpace) fun _ => sealed_bind ?_ fun _ =>
        sealed_bind (fun _ _ => stable_spaces) fun _ => sealed_char _
  intro mark hmark
  obtain rfl := List.mem_singleton.mp hmark
  exact stable_entityDefinition (decides_through (by decide)) (decides_through (by decide))
    (decides_through (by decide)) _

theorem sealed_subsetEnd : Sealed ['>'] subsetEnd :=
  sealed_bind (fun _ _ => stable_spaces) fun _ => sealed_char _

theorem sealed_otherDeclaration : Sealed ['>'] otherDeclaration :=
  sealed_bind (fun _ _ => stable_takeWhile _) fun _ =>
    sealed_bind (fun _ _ => stable_someSpace) fun _ =>
      sealed_bind (fun _ _ => stable_takeWhile _) fun _ => sealed_char _

/-- Text between tags goes up to the next angle bracket, so one character behind it decides. -/
theorem stable_characterData : Stable A characterData :=
  stable_bind (stable_upTo (decides_of_singleton (by rfl))) fun _ =>
    stable_bind (stable_failIf _ _) fun _ => stable_pure _

/-- Text between tags is kept as it was read. -/
theorem characterData_eq_ok {cs rest : List Char} {token : Token}
    (h : characterData cs = .ok (token, rest)) : ∃ body, token = .skipped body ∧
      upTo (begins "<") cs = .ok (body, rest) := by
  unfold characterData at h
  obtain ⟨body, mid, hbody, h⟩ := bind_eq_ok.mp h
  obtain ⟨_, _, hcheck, h⟩ := bind_eq_ok.mp h
  obtain ⟨-, rfl⟩ := failIf_eq_ok.mp hcheck
  obtain ⟨rfl, rfl⟩ := pure_eq_ok.mp h
  exact ⟨body, rfl, hbody⟩

end LayoutCompletion.Markup.Lexer
