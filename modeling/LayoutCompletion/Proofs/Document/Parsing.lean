import LayoutCompletion.Proofs.Document.Building

/-!
# Documents of texts

A document that was parsed is the one of the tokens of its text, and those are a run of well-formed
tokens (`runs_tokens`). So the invariant of the builder holds of it: in particular elements stand
behind those around them, and attributes are named by proper names (`Document.Sound`).
-/

namespace LayoutCompletion

open Markup

namespace Markup

/-- All tokens of a text were read from it, one behind the other. -/
theorem readsText_tokens (cs : List Char) :
    ∃ n rest, ReadsText cs (tokens cs).tokens n rest := by
  have hmark : cs.head? = some '\uFEFF' → (tokens cs).tokens ≠ [] := by
    intro hhead
    obtain ⟨rest, rfl⟩ := List.head?_eq_some_iff.mp hhead
    simp [tokens]
  have hall : (tokens cs).tokens = (tokens cs).tokens ++ [] := (List.append_nil _).symm
  obtain ⟨n, rest, hreads, -⟩ := exists_readsText _ hall hmark
  exact ⟨n, rest, hreads⟩

/-- The tokens of a text are well formed and stand where they may. -/
theorem runs_tokens (cs : List Char) : ∃ n, Mode.Runs .start (tokens cs).tokens n := by
  obtain ⟨n, rest, hreads⟩ := readsText_tokens cs
  exact ⟨n, hreads.runs⟩

end Markup

theorem eq_ok_of_toOption {ε α : Type} {e : Except ε α} {a : α} (h : e.toOption = some a) :
    e = .ok a := by
  cases e with
  | error _ => simp [Except.toOption] at h
  | ok b => exact congrArg Except.ok (Option.some.inj h)

namespace Document

theorem eq_of_parseChars {cs : List Char} {d : Document} (h : parseChars cs = .ok d) :
    d = ofTokens (tokens cs).tokens := by
  unfold parseChars at h
  dsimp only at h
  split at h
  · split at h
    · simp at h
    · exact (Except.ok.inj h).symm
  · exact (Except.ok.inj h).symm

theorem parse_ofList (cs : List Char) : parse (String.ofList cs) = parseChars cs := by
  rw [parse, String.toList_ofList]

/-- A text with an element is never malformed, however it goes on. -/
theorem parseChars_eq_ok {cs : List Char} (h : 0 < (ofTokens (tokens cs).tokens).size) :
    parseChars cs = .ok (ofTokens (tokens cs).tokens) := by
  have hne : (ofTokens (tokens cs).tokens).isEmpty = false := by
    rw [isEmpty, Array.isEmpty_eq_false_iff, ← Array.size_pos_iff]
    exact h
  unfold parseChars
  dsimp only
  split
  · rw [hne]
    rfl
  · rfl

/-- A text in which an element was read has a document. -/
theorem parseChars_of_tokens {cs : List Char} {ts : List Token} (htokens : (tokens cs).tokens = ts)
    (hpos : 0 < (ofTokens ts).size) : parseChars cs = .ok (ofTokens ts) := by
  subst htokens
  exact parseChars_eq_ok hpos

/-- A text that comes to a start tag has a document, however it goes on. -/
theorem parseChars_of_readsText {cs rest : List Char} {ts : List Token} {depth : Nat}
    (h : ReadsText cs ts (.tag depth) rest) :
    parseChars cs = .ok (ofTokens (ts ++ (tokensFrom (.tag depth) rest).tokens)) := by
  have htokens := congrArg Lexed.tokens (tokens_of_readsText h)
  dsimp only at htokens
  rw [← htokens]
  refine parseChars_eq_ok ?_
  obtain ⟨node, hsize, -⟩ := (Builder.fits_of_runs h.runs).inTag depth rfl
  have hgrow := Builder.size_le_size_after (Builder.empty.after ts)
    (tokensFrom (.tag depth) rest).tokens
  rw [htokens, Builder.ofTokens_eq, Builder.after_append]
  omega

/-- What holds of every document that was parsed. -/
structure Sound (d : Document) : Prop where
  parent_lt : ∀ node parent, d.parent? node = some parent → parent < node
  named : ∀ node, ∀ a ∈ d.attributes node, a.Named

theorem sound_ofTokens {ts : List Token} {n : Mode} (hruns : Mode.Runs .start ts n) :
    (ofTokens ts).Sound :=
  ⟨(Builder.fits_of_runs hruns).parent_lt, (Builder.fits_of_runs hruns).named⟩

theorem sound_of_parse {text : String} {d : Document} (h : parse text = .ok d) : d.Sound := by
  obtain ⟨n, hruns⟩ := runs_tokens text.toList
  rw [eq_of_parseChars h]
  exact sound_ofTokens hruns

end Document

end LayoutCompletion
