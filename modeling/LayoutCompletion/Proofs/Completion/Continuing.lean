import LayoutCompletion.Proofs.Completion.UnderCursor
import LayoutCompletion.Proofs.Document.Extending
import LayoutCompletion.Proofs.Markup.Opening
import LayoutCompletion.Proofs.Styleable.Applicable
import LayoutCompletion.Proofs.Text.Lines

/-!
# Texts that go on differently

Completion reads nothing of elements that begin behind the cursor
(`Document.Extends.completeInBy`). So if two texts differ behind a start tag only, and the tag
decides how reading goes on, completion in the tag does not tell their documents apart, unless they
have none (`sameUpTo_of_opening`).
-/

namespace LayoutCompletion

open Markup Markup.Scan Text

/-! ## Documents with more elements -/

namespace Document.Extends

variable {stop node offset : Nat} {d d' : Document}

theorem cursor? (h : Extends stop d d') (hoffset : offset ≤ stop) :
    d'.cursor? offset = d.cursor? offset := by
  unfold Document.cursor?
  rw [h.findAttribute? hoffset]
  cases hfind : d.findAttribute? offset with
  | none => rfl
  | some found =>
    simp only [Option.bind_eq_bind, Option.bind_some,
      h.attributes _ (lt_size_of_findAttribute? hfind)]

theorem applicableNames (h : Extends stop d d') (hd : d.Sound) (hnode : node < d.size)
    (index : WidgetIndex) : index.applicableNames d' node = index.applicableNames d node := by
  refine WidgetIndex.applicableNames_congr (h.tag node hnode) ?_
  rw [h.parent node hnode]
  cases hparent : d.parent? node with
  | none => rfl
  | some parent =>
    have hlt := Nat.lt_trans (hd.parent_lt node parent hparent) hnode
    rw [Option.map_some, Option.map_some, h.tag parent hlt]

theorem ofTyped (h : Extends stop d d') (hnode : node < d.size) (r : ResourceRegistry)
    (typed : List Char) : Search.ofTyped d' node r typed = Search.ofTyped d node r typed := by
  unfold Search.ofTyped boundSearch? fanOut
  simp only [h.namespaceUri? hnode, h.namespaceDeclarations hnode]

theorem candidatesBy (h : Extends stop d d') (hd : d.Sound) (hnode : node < d.size)
    (order : Enumeration) (s : Search) (matcher : Matcher) (widgets : WidgetIndex) :
    s.candidatesBy order matcher widgets d' node = s.candidatesBy order matcher widgets d node := by
  unfold Search.candidatesBy WidgetIndex.resolve
  simp only [h.applicableNames hd hnode]

/-- Elements that begin behind a place have no influence on completion there. -/
theorem completeInBy (h : Extends stop d d') (hd : d.Sound) (hoffset : offset ≤ stop)
    (order : Enumeration) (ctx : CompletionContext) (matcher : Matcher) :
    completeInBy order ctx d' offset matcher = completeInBy order ctx d offset matcher := by
  unfold LayoutCompletion.completeInBy
  rw [h.cursor? hoffset]
  cases hcursor : d.cursor? offset with
  | none => rfl
  | some cursor =>
    obtain ⟨-, -, hfind, -⟩ := exists_of_cursor? hcursor
    have hnode := lt_size_of_findAttribute? hfind
    dsimp only
    rw [h.ofTyped hnode, h.candidatesBy hd hnode, h.attributes _ hnode]

end Document.Extends

/-! ## The document of a text with a start tag -/

section
variable {cs cs' rest rest' word tail : List Char} {before ts : List Token} {m n : Mode}
  {depth : Nat}

/-- The texts have documents, and completion up to the place does not tell them apart. -/
def SameUpTo (stop : Nat) (cs cs' : List Char) : Prop :=
  ∃ d d', Document.parseChars cs = .ok d ∧ Document.parseChars cs' = .ok d' ∧
    ∀ offset ≤ stop, ∀ order ctx matcher,
      completeInBy order ctx d offset matcher = completeInBy order ctx d' offset matcher

/-- The texts have the same tokens. -/
theorem sameUpTo_of_tokens (hpos : 0 < (Document.ofTokens ts).size)
    (h : (tokens cs).tokens = ts) (h' : (tokens cs').tokens = ts) (stop : Nat) :
    SameUpTo stop cs cs' :=
  ⟨_, _, Document.parseChars_of_tokens h hpos, Document.parseChars_of_tokens h' hpos,
    fun _ _ _ _ _ => rfl⟩

/-- The texts have the same tokens up to the end of a start tag. -/
theorem sameUpTo_of_readsText (hreads : ReadsText cs ts n rest) (hreads' : ReadsText cs' ts n rest')
    (hn : ∀ inner, n ≠ .tag inner) (hpos : 0 < (Document.ofTokens ts).size) :
    SameUpTo (utf8Length (textOf ts)) cs cs' := by
  have hsound := Document.sound_ofTokens hreads.runs
  obtain ⟨d, hd, hextends⟩ := Document.exists_extends hreads hn hpos
  obtain ⟨d', hd', hextends'⟩ := Document.exists_extends hreads' hn hpos
  refine ⟨d, d', hd, hd', fun offset hoffset order ctx matcher => ?_⟩
  rw [hextends.completeInBy hsound hoffset, hextends'.completeInBy hsound hoffset]

/-- The failure to read a name, as people read it. -/
def noNameMessage (place : Place) : String :=
  "invalid element at " ++ place.display ++ " cause " ++ "invalid name token"

/-- If the text before a start tag has no element and the tag no name, there is no document. -/
theorem parseChars_of_no_name {left : List Char}
    (hreads : ReadsText cs before m rest)
    (hfailed : tokensFrom m rest = ⟨[], some (.broken .element rest ⟨.noName, left⟩)⟩)
    (hempty : (Document.ofTokens before).size = 0) :
    Document.parseChars cs =
      .error ⟨noNameMessage (Place.advance ⟨1, 1⟩ (textOf before)),
        Document.offsetOfPlace cs (Place.advance ⟨1, 1⟩ (textOf before))⟩ := by
  have htokens := tokens_of_readsText hreads
  rw [hfailed, List.append_nil] at htokens
  have hplace : Place.before cs rest = Place.advance ⟨1, 1⟩ (textOf before) := by
    rw [hreads.text, before_append]
  have hisEmpty : (Document.ofTokens before).isEmpty = true :=
    Array.isEmpty_iff_size_eq_zero.mpr hempty
  have hopening : "invalid " ++ Construct.element.name ++ " at " = "invalid element at " := by
    decide +kernel
  have hmessage : Failure.message cs (.broken .element rest ⟨.noName, left⟩) =
      noNameMessage (Place.advance ⟨1, 1⟩ (textOf before)) := by
    unfold Failure.message Failure.place Failure.rest
    dsimp only
    rw [hplace, hopening]
    rfl
  unfold Document.parseChars
  rw [htokens]
  dsimp only
  rw [if_pos hisEmpty, hmessage, Failure.place, Failure.rest, hplace]

/-- Two texts that differ behind a start tag only. Completion in the tag does not tell them apart,
or they have no documents, because there is no name in the tag and no element before it. -/
theorem sameUpTo_of_opening (hopening : Opening word tail) (hm : m.around? = some depth)
    (hreads : ReadsText cs before m ('<' :: rest)) (x y : List Char) :
    SameUpTo (utf8Length (textOf before ++ ('<' :: word ++ tail)))
        (textOf before ++ ('<' :: word ++ (tail ++ x)))
        (textOf before ++ ('<' :: word ++ (tail ++ y))) ∨
      ((Document.ofTokens before).size = 0 ∧ ∀ behind,
        Document.parseChars (textOf before ++ ('<' :: word ++ (tail ++ behind))) =
          .error ⟨noNameMessage (Place.advance ⟨1, 1⟩ (textOf before)),
            Document.offsetOfPlace (textOf before ++ ('<' :: word ++ (tail ++ behind)))
              (Place.advance ⟨1, 1⟩ (textOf before))⟩) := by
  have hmarked (behind : List Char) :
      ReadsText (textOf before ++ ('<' :: word ++ (tail ++ behind))) before m
        ('<' :: word ++ (tail ++ behind)) := hreads.replace rfl
  rcases hopening.outcome hm with
    ⟨ts, n, hn, ⟨name, hname⟩, htag⟩ | ⟨ts, ⟨name, hname⟩, htag⟩ | htag
  · have hread (behind : List Char) := (hmarked behind).append (htag behind)
    have htext : textOf (before ++ ts) = textOf before ++ ('<' :: word ++ tail) := by
      refine List.append_cancel_right ((hread []).text.symm.trans ?_)
      simp
    rw [← htext]
    exact Or.inl (sameUpTo_of_readsText (hread x) (hread y) hn
      (Builder.size_pos_of_openTag (List.mem_append_right before hname)))
  · have htokens (behind : List Char) :
        (tokens (textOf before ++ ('<' :: word ++ (tail ++ behind)))).tokens = before ++ ts := by
      rw [tokens_of_readsText (hmarked behind), htag behind]
    exact Or.inl (sameUpTo_of_tokens
      (Builder.size_pos_of_openTag (List.mem_append_right before hname)) (htokens x) (htokens y) _)
  · by_cases hempty : (Document.ofTokens before).size = 0
    · refine Or.inr ⟨hempty, fun behind => ?_⟩
      obtain ⟨left, hleft⟩ := htag behind
      exact parseChars_of_no_name (hmarked behind) hleft hempty
    · have htokens (behind : List Char) :
          (tokens (textOf before ++ ('<' :: word ++ (tail ++ behind)))).tokens = before := by
        obtain ⟨left, hleft⟩ := htag behind
        rw [tokens_of_readsText (hmarked behind), hleft, List.append_nil]
      exact Or.inl (sameUpTo_of_tokens (Nat.pos_of_ne_zero hempty) (htokens x) (htokens y) _)

end

end LayoutCompletion
