import LayoutCompletion.Proofs.Completion.EntryPoints

/-!
# Completing what is no attribute yet

A name that is being typed has no value, so the text is no proper markup where the cursor is, and
there may be no end to the tag either. With the marker and an empty value put in, reading comes to
an attribute there all the same, and whatever stands behind it is of no consequence
(`completeBy_halfTyped`).
-/

namespace LayoutCompletion

open Markup Markup.Scan Text

/-- The empty value that is put in makes an attribute of the name. -/
theorem text_halfTyped {lead typed tail rest : List Char} {name : QualifiedName}
    (htext : name.text = typed ++ caretMarker.toList ++ tail) :
    lead ++ typed ++ caretMarker.toList ++ tail ++ emptyValue.toList ++ rest =
      (Token.attribute lead name ['='] '\x22' []).text ++ ' ' :: rest := by
  rw [Token.text, htext, emptyValue_toList]
  simp

/-- With the marker and the empty value put in, the text has an attribute there. -/
theorem splice_halfTyped {front lead typed tail rest : List Char} {name : QualifiedName}
    (htext : name.text = typed ++ caretMarker.toList ++ tail)
    (htail : AllOf isTypedChar tail) (hrest : Ends isTypedChar rest)
    (hequals : (trimStart rest).head? ≠ some '=') :
    CompletionRequest.splice (front ++ lead ++ typed) (tail ++ rest) =
      front ++ ((Token.attribute lead name ['='] '\x22' []).text ++ ' ' :: rest) := by
  have hvalue : CompletionRequest.hasValue rest = false := decide_eq_false hequals
  rw [splice_append htail hrest, hvalue, ← text_halfTyped htext]
  simp

theorem wellFormed_halfTyped {lead : List Char} {name : QualifiedName} (hne : lead ≠ [])
    (hlead : AllOf isSpace lead) (hn : name.Valid) :
    (Token.attribute lead name ['='] '\x22' []).WellFormed := by
  have hequals : IsEquals ['='] := ⟨[], [], by simp [AllOf], by simp [AllOf], rfl⟩
  exact ⟨hne, hlead, hn, hequals, Or.inl rfl, by simp [AllOf]⟩

/--
**A half-typed attribute can always be completed.**

The reader has come, without a failure, to a place in a start tag where space stands and behind it
the beginning of a name, without a value. Then there are completions, whatever the text goes on
with. They are those for the attribute that the name would be in the open element, for exactly what
is typed of it.
-/
theorem completeBy_halfTyped (order : Enumeration) (ctx : CompletionContext) (matcher : Matcher)
    {text : String} {h w typed tail rest : List Char} {ts : List Token} {depth : Nat}
    {name : QualifiedName}
    (hsplit : text.toList = h ++ w ++ typed ++ tail ++ rest)
    (hreads : ReadsText text.toList ts (.tag depth) (w ++ typed ++ tail ++ rest))
    (hne : w ≠ []) (hw : AllOf isSpace w) (hn : name.Valid)
    (htext : name.text = typed ++ caretMarker.toList ++ tail) (hcolon : typed.head? ≠ some ':')
    (htail : AllOf isTypedChar tail) (hrest : Ends isTypedChar rest)
    (hequals : (trimStart rest).head? ≠ some '=') :
    ∃ (list : CompletionList) (request : CompletionRequest) (d : Document) (node : Nat),
      completeBy order ctx text (utf8Length (h ++ w ++ typed)) matcher = .ok list ∧
      CompletionRequest.prepare text (utf8Length (h ++ w ++ typed)) = .ok request ∧
      Document.parseChars request.text = .ok d ∧
      completeInBy order ctx d (utf8Length (h ++ w ++ typed)) matcher = .ok list ∧
      d.cursor? (utf8Length (h ++ w ++ typed)) =
        some ⟨node, ((Document.ofTokens ts).attributes node).length, typed⟩ ∧
      (Builder.empty.after ts).InTag node ∧ d.tag node = (Document.ofTokens ts).tag node := by
  obtain rfl : textOf ts = h := by
    refine List.append_cancel_right (hreads.text.symm.trans ?_)
    rw [hsplit]
    simp only [List.append_assoc]
  have hcs : text.toList = (textOf ts ++ w ++ typed) ++ (tail ++ rest) := by
    rw [hsplit]
    simp only [List.append_assoc]
  have hwf := wellFormed_halfTyped hne hw hn
  have hreads' : ReadsText (CompletionRequest.splice (textOf ts ++ w ++ typed) (tail ++ rest)) ts
      (.tag depth) ((Token.attribute w name ['='] '\x22' []).text ++ ' ' :: rest) := by
    rw [splice_halfTyped htext htail hrest hequals]
    -- the token is replaced by one that begins with the same space
    refine hreads.replace ?_
    obtain ⟨c, w, rfl⟩ := List.exists_cons_of_ne_nil hne
    rfl
  have hlead : name.leadingColon = [] := by rw [leadingColon_marked hn htext, if_neg hcolon]
  have hshown : name.shown = typed ++ (caretMarker.toList ++ tail) := by
    rw [name.text_eq, hlead, List.nil_append, List.append_assoc] at htext
    exact htext
  obtain ⟨node, hin⟩ := (Builder.fits_of_runs hreads.runs).inTag depth rfl
  have hparse := parseChars_of_attribute hreads' hwf
  have hcursor := cursor?_of_readsText hreads' hwf hshown hin
  rw [hlead, List.append_nil] at hcursor
  have hnode : node < (Builder.empty.after ts).document.size := by
    rw [hin.1]
    exact Nat.lt_succ_self node
  refine ⟨_, ⟨CompletionRequest.splice (textOf ts ++ w ++ typed) (tail ++ rest),
    utf8Length (textOf ts ++ w ++ typed)⟩, _, node, ?_, ?_, hparse, completeInBy_of_cursor? hcursor,
    hcursor, hin, ?_⟩
  · rw [completeBy, hcs, completeCharsBy_append hparse]
    exact completeInBy_of_cursor? hcursor
  · rw [CompletionRequest.prepare, hcs, prepareChars_append]
  · rw [Builder.ofTokens_eq, Builder.after_append]
    exact Builder.tag_after hnode _

/-- A text that breaks off, with the cursor in the last word. -/
def brokenText : String := "<v and<<"

theorem readsText_brokenText :
    ReadsText brokenText.toList [.openTag ⟨none, ['v']⟩] (.tag 0)
      ([' '] ++ ['a', 'n'] ++ ['d'] ++ ['<', '<']) :=
  .plain (by decide) (Reads.step (s := ⟨.openTag ⟨none, ['v']⟩, .tag 0, _⟩) (by decide)
    (by rfl) (.done _ _))

theorem completeBy_halfTyped_brokenText :
    ∃ (list : CompletionList) (d : Document), complete sampleContext brokenText 5 = .ok list ∧
      completeIn sampleContext d 5 = .ok list ∧ d.cursor? 5 = some ⟨0, 0, ['a', 'n']⟩ ∧
      d.tag 0 = "v" := by
  have hn : (⟨none, ['a', 'n'] ++ caretMarker.toList ++ ['d']⟩ : QualifiedName).Valid :=
    ⟨by decide, by decide +kernel, by decide +kernel⟩
  obtain ⟨list, _, d, node, hlist, -, -, hlist', hcursor, hin, htag⟩ :=
    completeBy_halfTyped .asFound sampleContext .camelHumps (h := ['<', 'v']) (by decide +kernel)
      readsText_brokenText (by decide) (by decide) hn rfl (by decide) (by decide +kernel)
      (by decide +kernel) (by decide +kernel)
  obtain rfl : node = 0 := (Nat.succ.inj hin.1).symm
  exact ⟨list, d, hlist, hlist', hcursor, htag⟩

end LayoutCompletion
