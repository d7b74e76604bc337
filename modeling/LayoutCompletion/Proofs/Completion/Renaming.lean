import LayoutCompletion.Proofs.Completion.Splicing
import LayoutCompletion.Proofs.Completion.UnderCursor

/-!
# An attribute with the marker in its name

If a request gets across the rest of a name to the equals sign, its text is the one that it was made
for, but with another name in it (`splice_renamed`). Reading comes to the renamed attribute as it
came to the one that stood there (`readsText_renamed`), so it has a document with the attribute in
it (`exists_parseChars_renamed`).
-/

namespace LayoutCompletion

open Markup Markup.Scan Text

variable {cs rest lead equals value typed tail run left : List Char} {before : List Token}
  {depth : Nat} {name : QualifiedName} {q : Char}

/-- Reading comes to an attribute with another name as it came to the one that stood there. -/
theorem readsText_renamed (name' : QualifiedName)
    (hreads : ReadsText cs before (.tag depth)
      ((Token.attribute lead name equals q value).text ++ rest)) (hlead : lead ≠ []) :
    ReadsText (textOf before ++ ((Token.attribute lead name' equals q value).text ++ rest)) before
      (.tag depth) ((Token.attribute lead name' equals q value).text ++ rest) := by
  refine hreads.replace ?_
  obtain ⟨c, lead, rfl⟩ := List.exists_cons_of_ne_nil hlead
  rfl

/-- A place in the name of an attribute that was found cuts an attribute to which reading comes. -/
theorem exists_readsText_cut {d : Document} {text : String} {node index : Nat} {a : Attribute}
    {head behind : List Char} (hparse : Document.parse text = .ok d)
    (ha : (d.attributes node)[index]? = some a) (hsplit : text.toList = head ++ behind)
    (hstart : a.nameSpan.start ≤ utf8Length head) (hstop : utf8Length head ≤ a.nameSpan.stop) :
    ∃ before depth lead name equals q value rest typed tail,
      ReadsText text.toList before (.tag depth)
        ((Token.attribute lead name equals q value).text ++ rest) ∧
      (Token.attribute lead name equals q value).WellFormed ∧
      d = Document.ofTokens (before ++ .attribute lead name equals q value ::
        (tokensFrom (.tag depth) rest).tokens) ∧
      (Builder.empty.after before).InTag node ∧
      ((Builder.empty.after before).document.attributes node).length = index ∧
      a = Builder.attributeAt (utf8Length (textOf before)) lead name value
        (utf8Length (textOf before) +
          utf8Length (Token.attribute lead name equals q value).text) ∧
      name.shown = typed ++ tail ∧
      head = textOf before ++ lead ++ name.leadingColon ++ typed ∧
      behind = tail ++ (equals ++ (q :: (value ++ q :: rest))) := by
  obtain rfl := Document.eq_of_parseChars hparse
  obtain ⟨before, depth, lead, name, equals, q, value, rest, hreads, hwf, htokens, hin, hlength,
    rfl⟩ := exists_readsText_attribute ha
  rw [Builder.nameSpan_start, ← utf8Length_append, ← utf8Length_append] at hstart
  rw [Builder.nameSpan_stop, ← utf8Length_append, ← utf8Length_append] at hstop
  obtain ⟨typed, tail, hshown, hhead, hbehind⟩ :=
    exists_cut ((text_of_readsText hreads).symm.trans hsplit) hstart hstop
  rw [htokens]
  exact ⟨before, depth, lead, name, equals, q, value, rest, typed, tail, hreads, hwf, rfl, hin,
    hlength, rfl, hshown, hhead, hbehind⟩

theorem hasValue_append_blank (hblank : AllOf isBlank left) (rest : List Char) :
    CompletionRequest.hasValue (left ++ rest) = CompletionRequest.hasValue rest := by
  unfold CompletionRequest.hasValue trimStart
  rw [List.dropWhile_append_of_pos hblank]

/-- Behind the rest of a name the equals sign is seen if, and only if, the rest is blank. -/
theorem hasValue_append (hequals : IsEquals equals) (hleft : AllOf QualifiedName.continues left)
    (rest : List Char) :
    CompletionRequest.hasValue (left ++ (equals ++ rest)) = true ↔ AllOf isBlank left := by
  refine ⟨fun hseen => ?_, fun hblank => ?_⟩
  · have hsplit := List.takeWhile_append_dropWhile (p := isBlank) (l := left)
    cases hother : left.dropWhile isBlank with
    | nil =>
      rw [hother, List.append_nil] at hsplit
      rw [← hsplit]
      exact allOf_takeWhile isBlank left
    | cons d other =>
      -- the first character that is not blank belongs to the name, so it is no equals sign
      have hends := ends_dropWhile isBlank left
      rw [hother] at hends hsplit
      have hname : QualifiedName.continues d = true := by
        refine hleft d ?_
        rw [← hsplit]
        exact List.mem_append_right _ (.head _)
      rw [← hsplit, List.append_assoc, List.cons_append, CompletionRequest.hasValue, trimStart,
        dropWhile_append_ends (allOf_takeWhile isBlank left) (ends_cons.mpr (ends_cons.mp hends)),
        List.head?_cons, decide_eq_true_eq, Option.some.injEq] at hseen
      rw [hseen] at hname
      exact absurd hname (by decide)
  · rw [hasValue_append_blank hblank]
    exact hasValue_equals hequals rest

/-- Typed characters of a name, and then blanks: behind them the request sees the equals sign, so it
puts the marker into the name and does nothing else. -/
theorem splice_renamed {name' : QualifiedName} (hequals : IsEquals equals)
    (htail : tail = run ++ left) (hrun : AllOf isTypedChar run) (hleft : Ends isTypedChar left)
    (hblank : AllOf isBlank left) (hcolon : name'.leadingColon = name.leadingColon)
    (hshown : name'.shown = typed ++ (caretMarker.toList ++ tail)) (front : List Char) :
    CompletionRequest.splice (front ++ lead ++ name.leadingColon ++ typed)
        (tail ++ (equals ++ (q :: (value ++ q :: rest)))) =
      front ++ ((Token.attribute lead name' equals q value).text ++ rest) := by
  subst htail
  rw [List.append_assoc run, splice_append hrun
    (ends_append hleft (ends_isTypedChar_equals hequals _)), hasValue_append_blank hblank,
    hasValue_equals hequals, text_attribute, hshown, hcolon]
  simp only [if_true, List.append_nil, List.append_assoc]

/-- The text of such a request has a document in which the attribute is renamed, and the cursor is
in it. -/
theorem exists_parseChars_renamed
    (hreads : ReadsText cs before (.tag depth)
      ((Token.attribute lead name equals q value).text ++ rest))
    (hwf : (Token.attribute lead name equals q value).WellFormed) {node : Nat}
    (hin : (Builder.empty.after before).InTag node) (hshown : name.shown = typed ++ tail)
    (htail : tail = run ++ left) (hrun : AllOf isTypedChar run) (hleft : Ends isTypedChar left)
    (hblank : AllOf isBlank left) :
    ∃ (name' : QualifiedName) (d : Document),
      name'.shown = typed ++ (caretMarker.toList ++ tail) ∧
      (String.ofList name.space ≠ "xmlns" → String.ofList name'.space ≠ "xmlns") ∧
      d = Document.ofTokens (before ++ .attribute lead name' equals q value ::
        (tokensFrom (.tag depth) rest).tokens) ∧
      Document.parseChars (CompletionRequest.splice
        (textOf before ++ lead ++ name.leadingColon ++ typed)
        (tail ++ (equals ++ (q :: (value ++ q :: rest))))) = .ok d ∧
      d.cursor? (utf8Length (textOf before ++ lead ++ name.leadingColon ++ typed)) =
        some ⟨node, ((Builder.empty.after before).document.attributes node).length, typed⟩ := by
  obtain ⟨hne, hlead, hn, hequals, hq, hvalue⟩ := hwf
  obtain ⟨name', hn', hcolon, hshown', hspace⟩ := exists_marked_shown hn hshown
  have hwf' : (Token.attribute lead name' equals q value).WellFormed :=
    ⟨hne, hlead, hn', hequals, hq, hvalue⟩
  have hreads' := readsText_renamed name' hreads hne
  have hcursor := cursor?_of_readsText hreads' hwf' hshown' hin
  rw [hcolon] at hcursor
  refine ⟨name', _, hshown', hspace, rfl, ?_, hcursor⟩
  rw [splice_renamed hequals htail hrun hleft hblank hcolon hshown']
  exact parseChars_of_attribute hreads' hwf'

end LayoutCompletion
