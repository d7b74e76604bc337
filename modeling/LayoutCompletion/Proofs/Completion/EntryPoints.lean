import LayoutCompletion.Proofs.Completion.Agreement
import LayoutCompletion.Proofs.Completion.Outcomes
import LayoutCompletion.Proofs.Completion.Renaming

/-!
# The two ways to ask

A request for a text puts a marker into the name under the cursor and reads the text anew. If the
text has an attribute there anyway, this gives the same completions as asking its document, if both
go through styleables in one order, and the same but for formats if each has its own
(`completeBy_alike_completeInBy`).

The reader comes to the attribute as it did before, finds it with another name, and is then where
it was, so that all further tokens are the same. Their places are not, but no place behind the
cursor matters; and of the attribute under the cursor completion reads nothing but what stands
before the cursor.
-/

namespace LayoutCompletion

open Markup Markup.Scan Text

variable {order : Enumeration} {ctx : CompletionContext} {matcher : Matcher}

/-- A request for a text is one for the document of the text with the marker. -/
theorem completeCharsBy_append {head behind : List Char} {d : Document}
    (h : Document.parseChars (CompletionRequest.splice head behind) = .ok d) :
    completeCharsBy order ctx (head ++ behind) (utf8Length head) matcher =
      completeInBy order ctx d (utf8Length head) matcher := by
  unfold completeCharsBy
  rw [prepareChars_append]
  dsimp only
  rw [h]

/-- There are no completions inside a character. -/
theorem completeCharsBy_eq_error {cs : List Char} {offset : Nat}
    (h : splitAtByte? cs offset = none) :
    completeCharsBy order ctx cs offset matcher = .error (.invalidRequest offset) := by
  have hprepare : CompletionRequest.prepareChars cs offset = .error ⟨offset⟩ := by
    unfold CompletionRequest.prepareChars
    rw [h]
  rw [completeCharsBy, hprepare]

/-- Completions of a text are those of the document that was read with the marker in it. -/
theorem exists_of_completeBy {text : String} {offset : Nat} {list : CompletionList}
    (h : completeBy order ctx text offset matcher = .ok list) :
    ∃ head behind d, text.toList = head ++ behind ∧ offset = utf8Length head ∧
      Document.parseChars (CompletionRequest.splice head behind) = .ok d ∧
      completeInBy order ctx d offset matcher = .ok list := by
  unfold completeBy at h
  cases hsplit : splitAtByte? text.toList offset with
  | none =>
    rw [completeCharsBy_eq_error hsplit] at h
    cases h
  | some cut =>
    obtain ⟨head, behind⟩ := cut
    obtain ⟨htext, rfl⟩ := append_of_splitAtByte? hsplit
    rw [htext] at h
    cases hparse : Document.parseChars (CompletionRequest.splice head behind) with
    | error e =>
      rw [completeCharsBy, prepareChars_append] at h
      dsimp only at h
      rw [hparse] at h
      cases h
    | ok d =>
      rw [completeCharsBy_append hparse] at h
      exact ⟨head, behind, d, htext, rfl, hparse, h⟩

section
variable {cs rest lead equals value typed tail : List Char} {before : List Token} {depth : Nat}
  {name : QualifiedName} {q : Char}

/-- At a place between two characters of a name, the two ways to ask agree. -/
theorem completeCharsBy_eq_completeInBy
    (hreads : ReadsText cs before (.tag depth)
      ((Token.attribute lead name equals q value).text ++ rest))
    (hwf : (Token.attribute lead name equals q value).WellFormed)
    (hspace : String.ofList name.space ≠ "xmlns") (hshown : name.shown = typed ++ tail)
    (htail : AllOf isTypedChar tail) :
    completeCharsBy order ctx cs (utf8Length (textOf before ++ lead ++ name.leadingColon ++ typed))
        matcher =
      completeInBy order ctx (Document.ofTokens (before ++ .attribute lead name equals q value ::
          (tokensFrom (.tag depth) rest).tokens))
        (utf8Length (textOf before ++ lead ++ name.leadingColon ++ typed)) matcher := by
  have hcs : cs = (textOf before ++ lead ++ name.leadingColon ++ typed) ++
      (tail ++ (equals ++ (q :: (value ++ q :: rest)))) := by
    rw [text_of_readsText hreads, hshown]
    simp only [List.append_assoc]
  -- reading comes to either attribute with the same tokens, and to the same cursor in it
  have hfits := Builder.fits_of_runs hreads.runs
  obtain ⟨node, hin⟩ := hfits.inTag depth rfl
  obtain ⟨name', d, hshown', hspace', rfl, hparse, hcursor'⟩ :=
    exists_parseChars_renamed hreads hwf hin hshown (List.append_nil tail).symm htail
      (by simp [Ends]) (by simp [AllOf])
  have hcursor := cursor?_of_readsText hreads hwf hshown hin
  rw [hcs, completeCharsBy_append hparse]
  refine (completeInBy_congr ?_ hcursor hcursor').symm
  rw [Builder.ofTokens_eq, Builder.ofTokens_eq, Builder.after_append, Builder.after_append]
  exact ((Builder.agree_push hfits hin hspace (hspace' hspace)).after _).document

end

/-- In one order of the styleables, the two ways to ask agree. -/
theorem completeBy_eq_completeInBy {text : String} {d : Document} {offset node index : Nat}
    {a : Attribute} (hparse : Document.parse text = .ok d)
    (hfind : d.findAttribute? offset = some (node, index))
    (ha : (d.attributes node)[index]? = some a) (hspace : a.qualifier ≠ "xmlns")
    (htyped : ∀ c ∈ a.name.toList, isTypedChar c = true) :
    completeBy order ctx text offset matcher = completeInBy order ctx d offset matcher := by
  obtain ⟨found, hfound, hstart, hstop⟩ := Document.exists_of_findAttribute? hfind
  obtain rfl : found = a := Option.some.inj (hfound.symm.trans ha)
  cases hcut : splitAtByte? text.toList offset with
  | none =>
    have hnone : d.cursor? offset = none := by
      refine Option.eq_none_iff_forall_ne_some.mpr fun cursor hcursor => ?_
      rw [Document.eq_of_parseChars hparse] at hcursor
      obtain ⟨cut, hsome⟩ := exists_cut_of_cursor? hcursor
      rw [hcut] at hsome
      cases hsome
    exact (completeCharsBy_eq_error hcut).trans (completeInBy_of_cursor?_eq_none hnone).symm
  | some cut =>
    obtain ⟨head, behind⟩ := cut
    obtain ⟨hsplit, rfl⟩ := append_of_splitAtByte? hcut
    obtain ⟨before, depth, lead, name, equals, q, value, rest, typed, tail, hreads, hwf, rfl, -, -,
      rfl, hshown, rfl, -⟩ := exists_readsText_cut hparse ha hsplit hstart hstop
    refine completeCharsBy_eq_completeInBy hreads hwf hspace hshown fun c hc => htyped c ?_
    rw [Builder.toList_name, hshown]
    exact List.mem_append_right typed hc

/--
**Asking a text and asking its document agree.**

They do so at every place in an attribute name that has no `xmlns` before its colon and consists of
characters that may be typed, whatever else stands in the text, and inside a character as well. In
one order of the styleables the outcomes are equal. If each request has an order of its own, they
are equal but for formats that the styleables do not settle.
-/
theorem completeBy_alike_completeInBy {text : String} {d : Document} {offset node index : Nat}
    {a : Attribute} (hparse : Document.parse text = .ok d)
    (hfind : d.findAttribute? offset = some (node, index))
    (ha : (d.attributes node)[index]? = some a) (hspace : a.qualifier ≠ "xmlns")
    (htyped : ∀ c ∈ a.name.toList, isTypedChar c = true) (order order' : Enumeration)
    (ctx : CompletionContext) (matcher : Matcher) :
    completeBy order ctx text offset matcher = completeInBy order ctx d offset matcher ∧
      AlikeAt ctx d offset (completeBy order ctx text offset matcher)
        (completeInBy order' ctx d offset matcher) := by
  have heq : completeBy order ctx text offset matcher = completeInBy order ctx d offset matcher :=
    completeBy_eq_completeInBy hparse hfind ha hspace htyped
  refine ⟨heq, ?_⟩
  rw [heq]
  exact completeInBy_alike (Document.sound_of_parse hparse) order order' ctx offset matcher

theorem completeBy_alike_completeInBy_sample :
    complete sampleContext sampleText 69 = completeIn sampleContext sampleDocument 69 ∧
      AlikeAt sampleContext sampleDocument 69 (complete sampleContext sampleText 69)
        (completeInBy .backwards sampleContext sampleDocument 69) :=
  have hfind : sampleDocument.findAttribute? 69 = some (0, 2) := by decide +kernel
  completeBy_alike_completeInBy (a := ⟨"a", "i", "", ⟨68, 71⟩, ⟨68, 74⟩⟩) parse_sampleText hfind
    (by decide +kernel) (by decide) (List.all_eq_true.mp (by decide +kernel)) .asFound .backwards
    sampleContext .camelHumps

end LayoutCompletion
