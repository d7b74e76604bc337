import LayoutCompletion.Completion.Request
import LayoutCompletion.Proofs.Markup.Tags

/-!
# The marker in a text

A request puts the marker into the name under the cursor and leaves everything else as it is, but
for a value behind a name that has none (`splice_append`). If the name was one, it still is one
(`exists_marked`): the marker consists of letters, so it may stand anywhere in either part of a
name, and it makes neither part declare a namespace.
-/

namespace LayoutCompletion

open Markup Markup.Scan Text

/-! ## Cutting -/

/-- A cut not before the middle part and not behind it cuts the middle part. -/
theorem exists_cut {front middle behind head tail : List Char}
    (h : front ++ (middle ++ behind) = head ++ tail) (hlo : utf8Length front ≤ utf8Length head)
    (hhi : utf8Length head ≤ utf8Length front + utf8Length middle) :
    ∃ left right, middle = left ++ right ∧ head = front ++ left ∧ tail = right ++ behind := by
  -- a cut in front of the middle part, or behind it, is at the same place as one of its ends
  rcases List.append_eq_append_iff.mp h with ⟨left, rfl, hrest⟩ | ⟨extra, rfl, rfl⟩
  · rw [utf8Length_append] at hhi
    rcases List.append_eq_append_iff.mp hrest with ⟨extra, rfl, rfl⟩ | ⟨right, rfl, rfl⟩
    · rw [utf8Length_append] at hhi
      obtain rfl : extra = [] := eq_nil_of_utf8Length (by omega)
      exact ⟨middle, [], by simp, by simp, rfl⟩
    · exact ⟨left, right, rfl, rfl, rfl⟩
  · rw [utf8Length_append] at hlo
    obtain rfl : extra = [] := eq_nil_of_utf8Length (by omega)
    exact ⟨[], middle, rfl, by simp, rfl⟩

/-! ## Names with the marker -/

theorem caretMarker_toList : caretMarker.toList = 'L' :: "ayoutAttrsCaret".toList := by
  decide

theorem allOf_caretMarker : AllOf isNameChar caretMarker.toList := by
  decide

theorem allOf_continues_marker : AllOf QualifiedName.continues caretMarker.toList := by
  decide

theorem emptyValue_toList : emptyValue.toList = ['=', '\x22', '\x22', ' '] := by
  decide

/-- No name of a declaration of namespaces has the marker in it. -/
theorem ofList_ne_xmlns {front tail : List Char} :
    String.ofList (front ++ caretMarker.toList ++ tail) ≠ "xmlns" := by
  intro h
  have hmem : 'L' ∈ (String.ofList (front ++ caretMarker.toList ++ tail)).toList := by
    rw [String.toList_ofList]
    exact List.mem_append_left _ (List.mem_append_right _ (by decide))
  rw [h] at hmem
  exact absurd hmem (by decide)

/-- With the marker in it, a part of a name still begins like one. -/
theorem any_head?_marked {front tail : List Char}
    (h : (front ++ tail).head?.all isNameStart = true) :
    (front ++ caretMarker.toList ++ tail).head?.any isNameStart = true := by
  cases front with
  | nil =>
    have hhead : (caretMarker.toList ++ tail).head? = some 'L' := rfl
    rw [List.nil_append, hhead]
    decide
  | cons c front => exact h

theorem all_of_any {cs : List Char} (h : cs.head?.any isNameStart = true) :
    cs.head?.all isNameStart = true := by
  cases cs with
  | nil => rfl
  | cons c cs => exact h

theorem allOf_marked {front tail : List Char} (h : AllOf isNameChar (front ++ tail)) :
    AllOf isNameChar (front ++ caretMarker.toList ++ tail) := by
  obtain ⟨hfront, htail⟩ := allOf_append.mp h
  exact allOf_append.mpr ⟨allOf_append.mpr ⟨hfront, allOf_caretMarker⟩, htail⟩

theorem valid_iff {n : QualifiedName} :
    n.Valid ↔ (AllOf isNameChar n.space ∧ n.space.head?.all isNameStart = true) ∧
      AllOf isNameChar n.base ∧ n.base.head?.any isNameStart = true := by
  constructor
  · rintro ⟨hspace, hbase, hwf⟩
    rw [QualifiedName.wellFormed, Bool.and_eq_true] at hwf
    exact ⟨⟨hspace, hwf.1⟩, hbase, hwf.2⟩
  · rintro ⟨⟨hspace, hstart⟩, hbase, hstart'⟩
    exact ⟨hspace, hbase, Bool.and_eq_true_iff.mpr ⟨hstart, hstart'⟩⟩

theorem valid_marked_base {q : Option (List Char)} {front tail : List Char}
    (hn : (⟨q, front ++ tail⟩ : QualifiedName).Valid) :
    (⟨q, front ++ caretMarker.toList ++ tail⟩ : QualifiedName).Valid := by
  obtain ⟨hspace, hbase, hstart⟩ := valid_iff.mp hn
  exact valid_iff.mpr ⟨hspace, allOf_marked hbase, any_head?_marked (all_of_any hstart)⟩

theorem valid_marked_qualifier {front tail base : List Char}
    (hn : (⟨some (front ++ tail), base⟩ : QualifiedName).Valid) :
    (⟨some (front ++ caretMarker.toList ++ tail), base⟩ : QualifiedName).Valid := by
  obtain ⟨⟨hspace, hstart⟩, hbase⟩ := valid_iff.mp hn
  exact valid_iff.mpr ⟨⟨allOf_marked hspace, all_of_any (any_head?_marked hstart)⟩, hbase⟩

/--
A name with the marker in it is a name.

The marker must not come before a colon that the name begins with.
-/
theorem exists_marked {name : QualifiedName} (hn : name.Valid) {front tail : List Char}
    (htext : name.text = front ++ tail) (hfront : name.qualifier = some [] → front ≠ []) :
    ∃ name' : QualifiedName, name'.Valid ∧ name'.text = front ++ caretMarker.toList ++ tail ∧
      (name'.qualifier = some [] ↔ name.qualifier = some []) ∧
      (String.ofList name.space ≠ "xmlns" → String.ofList name'.space ≠ "xmlns") := by
  have hmarker : caretMarker.toList ≠ [] := by decide
  obtain ⟨qualifier, base⟩ := name
  cases qualifier with
  | none =>
    obtain rfl : base = front ++ tail := htext
    exact ⟨⟨none, front ++ caretMarker.toList ++ tail⟩, valid_marked_base hn, rfl, by simp, id⟩
  | some q =>
    -- the marker stands in the base, or in the qualifier, of which the place before the colon is
    -- a part
    have hcases : (∃ left, front = q ++ ':' :: left ∧ base = left ++ tail) ∨
        ∃ right, q = front ++ right ∧ tail = right ++ ':' :: base := by
      rcases List.append_eq_append_iff.mp htext with ⟨left, hleft, htail⟩ | hright
      · cases left with
        | nil => exact Or.inr ⟨[], by simp [hleft], htail.symm⟩
        | cons c left =>
          obtain ⟨rfl, hbase⟩ := List.cons.inj htail
          exact Or.inl ⟨left, hleft, hbase⟩
      · exact Or.inr hright
    rcases hcases with ⟨left, rfl, rfl⟩ | ⟨right, rfl, rfl⟩
    · exact ⟨⟨some q, left ++ caretMarker.toList ++ tail⟩, valid_marked_base hn,
        by simp [QualifiedName.text], Iff.rfl, id⟩
    · refine ⟨⟨some (front ++ caretMarker.toList ++ right), base⟩, valid_marked_qualifier hn,
        by simp [QualifiedName.text], ?_, fun _ => ofList_ne_xmlns⟩
      constructor
      · intro h
        exact absurd (Option.some.inj h) (by simp [hmarker])
      · intro h
        have hnil := (List.append_eq_nil_iff.mp (Option.some.inj h)).1
        exact absurd hnil (hfront h)

/-- The marker in what is shown of a name. -/
theorem exists_marked_shown {name : QualifiedName} (hn : name.Valid) {typed tail : List Char}
    (hshown : name.shown = typed ++ tail) :
    ∃ name' : QualifiedName, name'.Valid ∧ name'.leadingColon = name.leadingColon ∧
      name'.shown = typed ++ (caretMarker.toList ++ tail) ∧
      (String.ofList name.space ≠ "xmlns" → String.ofList name'.space ≠ "xmlns") := by
  have htext : name.text = (name.leadingColon ++ typed) ++ tail := by
    rw [List.append_assoc, ← hshown]
    exact name.text_eq
  have hfront : name.qualifier = some [] → name.leadingColon ++ typed ≠ [] := by
    intro h
    simp [QualifiedName.leadingColon, h]
  obtain ⟨name', hn', htext', hqualifier, hspace⟩ := exists_marked hn htext hfront
  have hcolon : name'.leadingColon = name.leadingColon := by
    unfold QualifiedName.leadingColon
    simp only [hqualifier]
  refine ⟨name', hn', hcolon, ?_, hspace⟩
  rw [name'.text_eq, hcolon, List.append_assoc, List.append_assoc] at htext'
  exact List.append_cancel_left htext'

/-- With the marker in it, a name still begins with a colon or with none. -/
theorem leadingColon_marked {name : QualifiedName} {front tail : List Char} (hn : name.Valid)
    (htext : name.text = front ++ caretMarker.toList ++ tail) :
    name.leadingColon = if front.head? = some ':' then [':'] else [] := by
  rw [QualifiedName.leadingColon_eq hn, htext]
  cases front with
  | nil => rfl
  | cons c front => rfl

/-! ## The text of a request -/

theorem isBlank_of_isSpace {c : Char} (h : isSpace c = true) : isBlank c = true := by
  rcases isSpace_iff.mp h with rfl | rfl | rfl | rfl <;> decide

theorem not_isTypedChar_of_isSpace {c : Char} (h : isSpace c = true) : isTypedChar c = false := by
  rcases isSpace_iff.mp h with rfl | rfl | rfl | rfl <;> decide

/-- A word falls into what may be typed of it behind the cursor and what may not. -/
theorem exists_typed (word : List Char) :
    ∃ typed rest, word = typed ++ rest ∧ AllOf isTypedChar typed ∧ Ends isTypedChar rest :=
  ⟨_, _, List.takeWhile_append_dropWhile.symm, allOf_takeWhile _ _, ends_dropWhile _ _⟩

/-- An equals sign is seen across the space in front of it. -/
theorem hasValue_equals {equals : List Char} (h : IsEquals equals) (rest : List Char) :
    CompletionRequest.hasValue (equals ++ rest) = true := by
  obtain ⟨before, after, hbefore, -, rfl⟩ := h
  have hblank : AllOf isBlank before := fun c hc => isBlank_of_isSpace (hbefore c hc)
  have hends : Ends isBlank ('=' :: (after ++ rest)) := ends_cons.mpr (by decide)
  rw [CompletionRequest.hasValue, trimStart, List.append_assoc, List.cons_append,
    dropWhile_append_ends hblank hends]
  rfl

/-- An equals sign, or the space in front of it, ends what may be typed of a name. -/
theorem ends_isTypedChar_equals {equals : List Char} (h : IsEquals equals) (rest : List Char) :
    Ends isTypedChar (equals ++ rest) := by
  obtain ⟨before, after, hbefore, -, rfl⟩ := h
  cases before with
  | nil => exact ends_cons.mpr (by decide)
  | cons c before => exact ends_cons.mpr (not_isTypedChar_of_isSpace (hbefore c (by simp)))

/-- The marker is put in at the cursor, and a value behind the name if it has none. -/
theorem splice_append {head tail rest : List Char} (htail : AllOf isTypedChar tail)
    (hrest : Ends isTypedChar rest) :
    CompletionRequest.splice head (tail ++ rest) = head ++ caretMarker.toList ++ tail ++
      (if CompletionRequest.hasValue rest then [] else emptyValue.toList) ++ rest := by
  unfold CompletionRequest.splice
  rw [takeWhile_append_ends htail hrest, dropWhile_append_ends htail hrest]

/-- A request for a place between two characters. -/
theorem prepareChars_append (head behind : List Char) :
    CompletionRequest.prepareChars (head ++ behind) (utf8Length head) =
      .ok ⟨CompletionRequest.splice head behind, utf8Length head⟩ := by
  unfold CompletionRequest.prepareChars
  rw [splitAtByte?_append]

end LayoutCompletion
