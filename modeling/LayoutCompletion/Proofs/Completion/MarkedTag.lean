import LayoutCompletion.Proofs.Completion.Splicing
import LayoutCompletion.Proofs.Markup.Opening

/-!
# The marker in a start tag

Wherever in a closed start tag the marker is put in, the tag with the marker decides how reading
goes on, whatever follows the tag (`TagRest.decided_splice`, `exists_splice_name`). It closes where
it closed before, or it breaks off: a marker behind an equals sign or a slash breaks it, and so does
the empty value, whose quotes end a value in which they are put.
-/

namespace LayoutCompletion

open Markup Markup.Scan Markup.QualifiedName Text CompletionRequest

variable {depth : Nat} {lead between equals value after head behind : List Char}
  {name : QualifiedName} {q : Char}

/-! ## The marker and what stands around it -/

theorem exists_splice_eq (head behind : List Char) :
    ∃ more, splice head behind = head ++ 'L' :: more := by
  unfold splice
  rw [caretMarker_toList]
  exact ⟨_, by simp only [List.append_assoc, List.cons_append]; rfl⟩

theorem splice_append_left (front head behind : List Char) :
    splice (front ++ head) behind = front ++ splice head behind := by
  unfold splice
  simp only [List.append_assoc]

theorem dropWhile_append_of_mem {p : Char → Bool} {c : Char} (hc : p c = false) (hmem : c ∈ behind)
    (more : List Char) :
    (behind ++ more).takeWhile p = behind.takeWhile p ∧
      (behind ++ more).dropWhile p = behind.dropWhile p ++ more ∧ c ∈ behind.dropWhile p := by
  have hrest : c ∈ behind.dropWhile p := by
    have hsplit := List.takeWhile_append_dropWhile (p := p) (l := behind)
    rw [← hsplit] at hmem
    refine (List.mem_append.mp hmem).resolve_left fun htaken => ?_
    rw [allOf_takeWhile p behind c htaken] at hc
    cases hc
  have happend : behind ++ more = behind.takeWhile p ++ (behind.dropWhile p ++ more) := by
    rw [← List.append_assoc, List.takeWhile_append_dropWhile]
  have hends : Ends p (behind.dropWhile p ++ more) := by
    obtain ⟨d, rest, hd⟩ := List.exists_cons_of_ne_nil (List.ne_nil_of_mem hrest)
    have hends := ends_dropWhile p behind
    rw [hd] at hends ⊢
    exact ends_cons.mpr (ends_cons.mp hends)
  rw [happend]
  exact ⟨takeWhile_append_ends (allOf_takeWhile p behind) hends,
    dropWhile_append_ends (allOf_takeWhile p behind) hends, hrest⟩

/-- A bracket behind the cursor keeps what follows it out of sight. -/
theorem splice_append_right (h : '>' ∈ behind) (more : List Char) :
    splice head (behind ++ more) = splice head behind ++ more := by
  obtain ⟨htail, hrest, hmem⟩ :=
    dropWhile_append_of_mem (p := isTypedChar) (by decide +kernel) h more
  obtain ⟨-, htrim, hmem'⟩ := dropWhile_append_of_mem (p := isBlank) (by decide) hmem more
  have hvalue : hasValue (behind.dropWhile isTypedChar ++ more) =
      hasValue (behind.dropWhile isTypedChar) := by
    obtain ⟨d, rest, hd⟩ := List.exists_cons_of_ne_nil (List.ne_nil_of_mem hmem')
    unfold hasValue trimStart
    rw [htrim, hd, List.cons_append, List.head?_cons, List.head?_cons]
  unfold splice
  simp only [htail, hrest, hvalue, List.append_assoc]

/-! ## The places in a part of a tag -/

/-- A word to which the empty value is given is an attribute, or breaks the tag off. -/
theorem decided_emptyValue {word : List Char} (hbehind : Decided depth (' ' :: behind))
    (hne : lead ≠ []) (hlead : AllOf isSpace lead) (hword : AllOf continues word)
    (hword' : word ≠ []) : Decided depth (lead ++ word ++ emptyValue.toList ++ behind) := by
  have hequals : IsEquals ['='] := ⟨[], [], by simp [AllOf], by simp [AllOf], rfl⟩
  have hvalue : AllOf (inValue '\x22') [] := by simp [AllOf]
  have h := hbehind.attribute hne hlead hword hword' hequals (Or.inl rfl) hvalue
  rw [emptyValue_toList]
  simpa using h

/-- In space: the marker becomes an attribute of its own if there is space before it. -/
theorem decided_in_space (hlead : AllOf isSpace lead) (hends : Ends isTypedChar behind)
    (hbehind : Decided depth (' ' :: behind))
    (hvalue : hasValue behind = true → lead ≠ [] →
      Decided depth (lead ++ caretMarker.toList ++ behind)) :
    Decided depth (splice lead behind) := by
  by_cases hne : lead = []
  · obtain ⟨more, hmore⟩ := exists_splice_eq lead behind
    rw [hmore, hne]
    exact Or.inr (breaks_of_ne_space depth (by decide) more)
  · have hsplice : splice lead ([] ++ behind) = _ := splice_append (by simp [AllOf]) hends
    rw [List.nil_append, List.append_nil] at hsplice
    rw [hsplice]
    split
    · next hhas =>
      rw [List.append_nil]
      exact hvalue hhas hne
    · exact decided_emptyValue hbehind hne hlead allOf_continues_marker (by decide)

/-- In a name, or at one of its ends: the marker makes it longer, or makes two of it. -/
theorem decided_in_name {front back : List Char} (hafter : Decided depth after) (hne : lead ≠ [])
    (hlead : AllOf isSpace lead) (hname : AllOf continues (front ++ back)) (he : IsEquals equals)
    (hq : IsQuote q) (hvalue : AllOf (inValue q) value) :
    Decided depth (splice (lead ++ front) (back ++ (equals ++ q :: value ++ q :: after))) := by
  obtain ⟨typed, rest, rfl, htyped, hrest⟩ := exists_typed back
  obtain ⟨hfront, hback⟩ := allOf_append.mp hname
  obtain ⟨htypedname, hrestname⟩ := allOf_append.mp hback
  have hmarked : AllOf continues (front ++ caretMarker.toList ++ typed) :=
    allOf_append.mpr ⟨allOf_append.mpr ⟨hfront, allOf_continues_marker⟩, htypedname⟩
  have hmarker : front ++ caretMarker.toList ++ typed ≠ [] := by
    have : caretMarker.toList ≠ [] := by decide
    simp [this]
  have hends : Ends isTypedChar (rest ++ (equals ++ q :: value ++ q :: after)) := by
    refine ends_append hrest ?_
    rw [List.append_assoc]
    exact ends_isTypedChar_equals he _
  rw [List.append_assoc, splice_append htyped hends]
  split
  · have h := hafter.attribute hne hlead (allOf_append.mpr ⟨hmarked, hrestname⟩)
      (List.append_ne_nil_of_left_ne_nil hmarker rest) he hq hvalue
    simpa using h
  · next hhas =>
    -- something of the name is left behind the empty value, and it is the next attribute
    have hrestne : rest ≠ [] := by
      rintro rfl
      rw [List.nil_append, List.append_assoc, hasValue_equals he] at hhas
      exact hhas rfl
    have hspace : AllOf isSpace [' '] := by decide
    have hrestdecided :=
      hafter.attribute (List.cons_ne_nil _ _) hspace hrestname hrestne he hq hvalue
    have h := decided_emptyValue hrestdecided hne hlead hmarked hmarker
    simpa using h

/-- Around the equals sign: the marker stands in the place of the sign or of the quote. -/
theorem decided_in_equals {word front back : List Char} (hlead : AllOf isSpace lead)
    (hword : AllOf continues word) (hne : word ≠ []) (he : IsEquals (front ++ back))
    (hfront : front ≠ []) (behind : List Char) :
    Decided depth (splice (lead ++ word ++ front) behind) := by
  obtain ⟨more, hmore⟩ := exists_splice_eq (lead ++ word ++ front) behind
  obtain ⟨before, after, hbefore, hafter, hsplit⟩ := he
  rw [hmore, List.append_assoc]
  rcases List.append_eq_append_iff.mp hsplit with ⟨space, rfl, -⟩ | ⟨tail, rfl, htail⟩
  · exact Or.inr (breaks_of_no_equals depth hlead hword hne (allOf_append.mp hbefore).1 hfront
      (by decide) (by decide) more)
  · cases tail with
    | nil =>
      rw [List.append_nil] at hfront ⊢
      exact Or.inr (breaks_of_no_equals depth hlead hword hne hbefore hfront (by decide)
        (by decide) more)
    | cons c tail =>
      obtain ⟨rfl, rfl⟩ := List.cons.inj htail
      have hequals : IsEquals (before ++ '=' :: tail) :=
        ⟨before, tail, hbefore, (allOf_append.mp hafter).1, rfl⟩
      have hquote : ¬IsQuote 'L' := by
        unfold IsQuote
        decide
      exact Or.inr (breaks_of_no_quote depth hlead hword hne hequals (by decide) hquote more)

/-- In a value: the marker makes it longer, but two quotes may end it. -/
theorem decided_in_value {word front back : List Char} (hafter : Decided depth after)
    (hlead' : lead ≠ []) (hlead : AllOf isSpace lead) (hword : AllOf continues word)
    (hne : word ≠ []) (he : IsEquals equals) (hq : IsQuote q)
    (hvalue : AllOf (inValue q) (front ++ back)) :
    Decided depth (splice (lead ++ word ++ (equals ++ q :: front)) (back ++ q :: after)) := by
  obtain ⟨typed, rest, rfl, htyped, hrest⟩ := exists_typed back
  obtain ⟨hfront, hback⟩ := allOf_append.mp hvalue
  obtain ⟨htypedvalue, hrestvalue⟩ := allOf_append.mp hback
  have hmarked : AllOf (inValue q) (front ++ caretMarker.toList ++ typed) := by
    have hmarker : AllOf (inValue q) caretMarker.toList := by
      rcases hq with rfl | rfl <;> decide
    exact allOf_append.mpr ⟨allOf_append.mpr ⟨hfront, hmarker⟩, htypedvalue⟩
  have hends : Ends isTypedChar (rest ++ q :: after) := by
    refine ends_append hrest (ends_cons.mpr ?_)
    rcases hq with rfl | rfl <;> decide +kernel
  rw [List.append_assoc typed, splice_append htyped hends]
  split
  · have h := hafter.attribute hlead' hlead hword hne he hq (allOf_append.mpr ⟨hmarked, hrestvalue⟩)
    simpa using h
  · rw [emptyValue_toList]
    rcases hq with rfl | rfl
    · -- the first of the two quotes ends the value, and the second stands where space must be
      have hbreaks : Breaks depth ('\x22' :: ' ' :: (rest ++ '\x22' :: after)) :=
        breaks_of_ne_space depth (by decide) _
      have h := Decided.attribute (Or.inr hbreaks) hlead' hlead hword hne he (Or.inl rfl)
        (allOf_append.mpr ⟨hmarked, (by decide : AllOf (inValue '\x22') ['='])⟩)
      simpa using h
    · have hempty : AllOf (inValue '\x27') ['=', '\x22', '\x22', ' '] := by decide
      have h := hafter.attribute hlead' hlead hword hne he (Or.inr rfl)
        (allOf_append.mpr ⟨allOf_append.mpr ⟨hmarked, hempty⟩, hrestvalue⟩)
      simpa using h

/-! ## The parts of a tag -/

/-- A cut is in the first part, at its end at the latest, or behind a character of the second. -/
theorem exists_cut_append {as bs left right : List Char} (h : as ++ bs = left ++ right) :
    (∃ mid, as = left ++ mid ∧ right = mid ++ bs) ∨
      ∃ c mid, left = as ++ c :: mid ∧ bs = c :: mid ++ right := by
  rcases List.append_eq_append_iff.mp h with ⟨mid, rfl, rfl⟩ | ⟨mid, rfl, rfl⟩
  · cases mid with
    | nil => exact Or.inl ⟨[], by simp, rfl⟩
    | cons c mid => exact Or.inr ⟨c, mid, rfl, rfl⟩
  · exact Or.inl ⟨mid, rfl, rfl⟩

section
variable {left right : List Char}

theorem exists_text_tagEnd (lead : List Char) (selfClosing : Bool) :
    ∃ c tail, (Token.tagEnd lead selfClosing).text = lead ++ c :: tail ∧ (c = '/' ∨ c = '>') := by
  cases selfClosing with
  | false => exact ⟨'>', [], rfl, Or.inr rfl⟩
  | true => exact ⟨'/', ['>'], rfl, Or.inl rfl⟩

theorem ends_isTypedChar_space {c : Char} {tail : List Char} (hlead : AllOf isSpace lead)
    (hc : isTypedChar c = false) : Ends isTypedChar (lead ++ c :: tail) := by
  cases lead with
  | nil => exact ends_cons.mpr hc
  | cons d lead => exact ends_cons.mpr (not_isTypedChar_of_isSpace (hlead d (.head _)))

/-- In the space before the end of a tag. -/
theorem decided_before_end {selfClosing : Bool} (hleft : AllOf isSpace left)
    (hlead : AllOf isSpace lead) :
    Decided depth (splice left (Token.tagEnd lead selfClosing).text) := by
  have hspace : AllOf isSpace (' ' :: lead) := allOf_cons.mpr ⟨by decide, hlead⟩
  obtain ⟨c, tail, htext, hc⟩ := exists_text_tagEnd lead selfClosing
  have hcloses : Closes depth (Token.tagEnd (' ' :: lead) selfClosing).text :=
    closes_tagEnd depth hspace
  have hbehind : ' ' :: (Token.tagEnd lead selfClosing).text =
      (Token.tagEnd (' ' :: lead) selfClosing).text := by
    cases selfClosing <;> rfl
  refine decided_in_space hleft ?_ (hbehind ▸ Or.inl hcloses) ?_
  · rw [htext]
    refine ends_isTypedChar_space hlead ?_
    rcases hc with rfl | rfl <;> decide +kernel
  · -- the end of a tag is no equals sign
    intro hhas
    have hblank : AllOf isBlank lead := fun c hc => isBlank_of_isSpace (hlead c hc)
    have hends : Ends isBlank (c :: tail) := by
      rcases hc with rfl | rfl <;> exact ends_cons.mpr (by decide)
    rw [htext, hasValue, trimStart, dropWhile_append_ends hblank hends] at hhas
    rcases hc with rfl | rfl <;> simp at hhas

/-- Before the end of a tag or in it, where the marker breaks the tag off. -/
theorem decided_in_tagEnd {selfClosing : Bool} (hlead : AllOf isSpace lead)
    (hcut : (Token.tagEnd lead selfClosing).text = left ++ right) (hne : right ≠ []) :
    Decided depth (splice left right) := by
  have hbefore : ∀ back, lead = left ++ back → right = (Token.tagEnd back selfClosing).text →
      Decided depth (splice left right) := by
    rintro back rfl rfl
    obtain ⟨hleft, hback⟩ := allOf_append.mp hlead
    exact decided_before_end hleft hback
  cases selfClosing with
  | false =>
    rcases exists_cut_append hcut with ⟨back, hback, hright⟩ | ⟨c, mid, -, hmid⟩
    · exact hbefore back hback hright
    · have hnil := (List.append_eq_nil_iff.mp (List.cons.inj hmid).2.symm).2
      exact absurd hnil hne
  | true =>
    rcases exists_cut_append hcut with ⟨back, hback, hright⟩ | ⟨c, mid, rfl, hmid⟩
    · exact hbefore back hback hright
    · obtain ⟨rfl, hmid⟩ := List.cons.inj hmid
      cases mid with
      | nil =>
        obtain ⟨more, hmore⟩ := exists_splice_eq (lead ++ ['/']) right
        rw [hmore, List.append_assoc]
        exact Or.inr (breaks_of_slash depth hlead (by decide) more)
      | cons d mid =>
        obtain ⟨-, hnil⟩ := List.cons.inj (List.cons.inj hmid).2
        exact absurd (List.append_eq_nil_iff.mp hnil.symm).2 hne

/-- In the space before an attribute. -/
theorem decided_before_attribute {c : Char} (hafter : Decided depth after)
    (hwf : (Token.attribute (c :: lead) name equals q value).WellFormed)
    (hleft : AllOf isSpace left) :
    Decided depth (splice left ((Token.attribute (c :: lead) name equals q value).text ++ after)) :=
    by
  obtain ⟨-, hlead, hn, he, hq, hvalue⟩ := hwf
  have hwf' : (Token.attribute (' ' :: c :: lead) name equals q value).WellFormed :=
    ⟨List.cons_ne_nil _ _, allOf_cons.mpr ⟨by decide, hlead⟩, hn, he, hq, hvalue⟩
  refine decided_in_space hleft ?_ (hafter.part hwf') ?_
  · exact ends_cons.mpr (not_isTypedChar_of_isSpace (hlead c (.head _)))
  · -- an equals sign is seen across more than space, but the reader does not see it
    intro _ _
    have hname := allOf_text hn
    obtain ⟨d, cs, htext, -⟩ := head_text hn
    have hd : continues d = true := by
      rw [htext] at hname
      exact (allOf_cons.mp hname).1
    have hequals : d ≠ '=' := by
      rintro rfl
      exact absurd hd (by decide)
    have h := breaks_of_no_equals depth hleft allOf_continues_marker (by decide) hlead
      (List.cons_ne_nil _ _) (not_special_of_continues hd).1 hequals
      (cs ++ (equals ++ (q :: value ++ q :: after)))
    refine Or.inr ?_
    rw [Token.text, htext]
    simpa using h

/-- In an attribute, before its last character. -/
theorem decided_in_attribute (hafter : Decided depth after)
    (hwf : (Token.attribute lead name equals q value).WellFormed)
    (hcut : (Token.attribute lead name equals q value).text = left ++ right) (hne : right ≠ []) :
    Decided depth (splice left (right ++ after)) := by
  obtain ⟨hlead', hlead, hn, he, hq, hvalue⟩ := hwf
  have hname := allOf_text hn
  have hname' := text_ne_nil hn
  have htext : left ++ right = lead ++ (name.text ++ (equals ++ (q :: (value ++ [q])))) := by
    rw [← hcut, Token.text]
    simp
  -- the parts of the attribute one by one, each with the places in it and behind it
  rcases exists_cut_append htext with ⟨mid, rfl, hname_rest⟩ | ⟨c, mid, rfl, rfl⟩
  · rcases exists_cut_append hname_rest with ⟨back, hback, rfl⟩ | ⟨c, mid, rfl, hrest⟩
    · rw [hback] at hname
      have h := decided_in_name hafter hlead' hlead hname he hq hvalue
      simpa using h
    · rcases exists_cut_append hrest with ⟨back, rfl, rfl⟩ | ⟨d, inner, hmid, hrest⟩
      · rw [← List.append_assoc]
        exact decided_in_equals hlead hname hname' he (List.cons_ne_nil _ _) _
      · obtain ⟨rfl, hquoted⟩ := List.cons.inj hrest
        rcases exists_cut_append hquoted with ⟨back, rfl, rfl⟩ | ⟨e, tail, -, htail⟩
        · have h := decided_in_value hafter hlead' hlead hname hname' he hq hvalue
          rw [hmid]
          simpa using h
        · have hnil := (List.append_eq_nil_iff.mp (List.cons.inj htail).2.symm).2
          exact absurd hnil hne
  · obtain ⟨hleft, hback⟩ := allOf_append.mp hlead
    have hwf' : (Token.attribute (c :: mid) name equals q value).WellFormed :=
      ⟨List.cons_ne_nil _ _, hback, hn, he, hq, hvalue⟩
    have h := decided_before_attribute hafter hwf' hleft
    simpa [Token.text] using h

/-- In a tag, behind its name. -/
theorem decided_splice {text : List Char} (h : TagRest text) (depth : Nat) :
    ∀ {left right : List Char}, text = left ++ right → right ≠ [] →
      Decided depth (splice left right) := by
  induction h with
  | tagEnd selfClosing hlead =>
    intro left right hcut hne
    exact decided_in_tagEnd hlead hcut hne
  | @part lead equals value tail name q hwf htail ih =>
    intro left right hcut hne
    rcases exists_cut_append hcut.symm with ⟨mid, rfl, htext⟩ | ⟨c, mid, hpart, rfl⟩
    · rw [splice_append_left]
      exact (ih htext hne).part hwf
    · exact decided_in_attribute (htail.decided depth) hwf hpart (List.cons_ne_nil _ _)

/-! ## The name of a tag -/

theorem ends_tagRest {text : List Char} (h : TagRest text) (behind : List Char) :
    Ends isTypedChar (text ++ behind) := by
  obtain ⟨c, cs, rfl, hc⟩ := h.head
  rcases hc with hc | rfl | rfl
  · exact ends_cons.mpr (not_isTypedChar_of_isSpace hc)
  · exact ends_cons.mpr (by decide +kernel)
  · exact ends_cons.mpr (by decide +kernel)

/-- In the name of a tag, or behind it: the marker makes the name longer, or cuts it off. -/
theorem exists_opening_in_name {text back : List Char} (h : TagRest text)
    (hname : AllOf continues (left ++ back)) :
    ∃ word rest, splice left (back ++ text) = word ++ rest ∧ Opening word rest := by
  obtain ⟨typed, rest, rfl, htyped, hrest⟩ := exists_typed back
  obtain ⟨hleft, hback⟩ := allOf_append.mp hname
  obtain ⟨htypedname, hrestname⟩ := allOf_append.mp hback
  have hmarked : AllOf continues (left ++ caretMarker.toList ++ typed) :=
    allOf_append.mpr ⟨allOf_append.mpr ⟨hleft, allOf_continues_marker⟩, htypedname⟩
  have hmarker : left ++ caretMarker.toList ++ typed ≠ [] := by
    have : caretMarker.toList ≠ [] := by decide
    simp [this]
  have hends : Ends isTypedChar (rest ++ text) := by
    have := ends_tagRest h []
    rw [List.append_nil] at this
    exact ends_append hrest this
  rw [List.append_assoc, splice_append htyped hends]
  split
  · refine ⟨left ++ caretMarker.toList ++ typed ++ rest, text, by simp, ?_⟩
    exact ⟨allOf_append.mpr ⟨hmarked, hrestname⟩, List.append_ne_nil_of_left_ne_nil hmarker rest,
      fun behind => h.ends behind, h.decided⟩
  · refine ⟨left ++ caretMarker.toList ++ typed, emptyValue.toList ++ (rest ++ text), by simp, ?_⟩
    rw [emptyValue_toList]
    refine ⟨hmarked, hmarker, fun behind => ends_cons.mpr (by decide), fun depth => ?_⟩
    exact Or.inr (breaks_of_ne_space depth (by decide) _)

/-- Wherever the marker is put into a start tag behind its bracket, the tag decides how reading goes
on. -/
theorem exists_opening {text : List Char} (hn : name.Valid) (h : TagRest text)
    (hcut : name.text ++ text = left ++ right) (hne : right ≠ []) :
    ∃ word rest, splice left right = word ++ rest ∧ Opening word rest := by
  rcases exists_cut_append hcut with ⟨back, hback, rfl⟩ | ⟨c, mid, rfl, htext⟩
  · exact exists_opening_in_name h (hback ▸ allOf_text hn)
  · refine ⟨name.text, splice (c :: mid) right, splice_append_left _ _ _, allOf_text hn,
      text_ne_nil hn, fun behind => ?_, fun depth => decided_splice h depth htext hne⟩
    have hends := h.ends []
    rw [htext] at hends
    have hc : continues c = false := ends_cons.mp hends
    unfold splice
    exact ends_cons.mpr hc

end

end LayoutCompletion
