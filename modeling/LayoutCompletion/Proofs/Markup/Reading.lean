import LayoutCompletion.Proofs.Markup.Steps

/-!
# Reading token by token

`Reads m cs ts n rest` says that a reader in mode `m` before `cs` gives the tokens `ts` and is then
in mode `n` before `rest`. `ReadsText` says the same of the beginning of a whole text. The function
`tokens` goes on in this way as long as it can (`tokens_of_readsText`, `exists_readsText`).

An edit behind a token has no influence on it as long as the character behind it stays
(`ReadsText.replace`): this is what completion in a text under edit rests on.
-/

namespace LayoutCompletion.Markup

/-- The text from which a row of tokens was read. -/
def textOf (ts : List Token) : List Char :=
  ts.flatMap Token.text

@[simp] theorem textOf_nil : textOf [] = [] := rfl

@[simp] theorem textOf_cons (t : Token) (ts : List Token) :
    textOf (t :: ts) = t.text ++ textOf ts := rfl

/-- No start tag is open behind the end of an element. -/
theorem Mode.closing_ne_tag (depth inner : Nat) : Mode.closing depth ≠ .tag inner := by
  cases depth <;> simp [Mode.closing]

/-- A row of well-formed tokens, each admitted behind the ones before it. -/
inductive Mode.Runs : Mode → List Token → Mode → Prop
  | nil (m : Mode) : Runs m [] m
  | cons {m k n : Mode} {t : Token} {ts : List Token} :
    m.Admits t k → t.WellFormed → Runs k ts n → Runs m (t :: ts) n

/-- The reader gives these tokens and leaves this text. -/
inductive Reads : Mode → List Char → List Token → Mode → List Char → Prop
  | done (m : Mode) (cs : List Char) : Reads m cs [] m cs
  | step {m n : Mode} {cs rest : List Char} {ts : List Token} {s : Step} :
    cs ≠ [] → Lexer.next m cs = .ok s → Reads s.mode s.rest ts n rest →
      Reads m cs (s.token :: ts) n rest

namespace Reads

variable {m n : Mode} {cs rest : List Char} {ts us : List Token}

/-- One token. -/
theorem of_next {t : Token} (hne : cs ≠ []) (h : Lexer.next m cs = .ok ⟨t, n, rest⟩) :
    Reads m cs [t] n rest :=
  .step hne h (.done n rest)

theorem text (h : Reads m cs ts n rest) : cs = textOf ts ++ rest := by
  induction h with
  | done m cs => rfl
  | step hne hnext _ ih =>
    obtain ⟨-, -, htext, -⟩ := Lexer.next_spec hne hnext
    rw [textOf_cons, List.append_assoc, ← ih]
    exact htext

theorem runs (h : Reads m cs ts n rest) : m.Runs ts n := by
  induction h with
  | done m cs => exact .nil m
  | step hne hnext _ ih =>
    obtain ⟨hadm, hwf, -, -⟩ := Lexer.next_spec hne hnext
    exact .cons hadm hwf ih

theorem append {k : Mode} {mid : List Char} (h : Reads m cs ts k mid)
    (h' : Reads k mid us n rest) : Reads m cs (ts ++ us) n rest := by
  induction h with
  | done => exact h'
  | step hne hnext _ ih => exact .step hne hnext (ih h')

/-- What was read is read again before any text that begins like the one that was left. -/
theorem replace {other : List Char} (h : Reads m cs ts n rest) (ho : rest.head? = other.head?) :
    Reads m (textOf ts ++ other) ts n other := by
  induction h with
  | done m cs => exact .done m other
  | @step m n cs rest ts s hne hnext hrest ih =>
    obtain ⟨-, -, htext, hagain⟩ := Lexer.next_spec hne hnext
    have hmore : s.token.text ≠ [] := by
      intro hnil
      have hlt := Lexer.length_lt_of_next hne hnext
      rw [htext, hnil, List.nil_append] at hlt
      exact Nat.lt_irrefl _ hlt
    -- behind this token comes the next one, as before, or else what was exchanged
    have hhead : s.rest.head? = (textOf ts ++ other).head? := by
      rw [hrest.text]
      cases textOf ts with
      | nil => exact ho
      | cons c t => rfl
    rw [textOf_cons, List.append_assoc]
    exact Reads.step (s := ⟨s.token, s.mode, textOf ts ++ other⟩) (by simp [hmore])
      (hagain _ hhead) (ih ho)

end Reads

theorem tokensFrom_of_reads {m n : Mode} {cs rest : List Char} {ts : List Token}
    (h : Reads m cs ts n rest) :
    tokensFrom m cs = ⟨ts ++ (tokensFrom n rest).tokens, (tokensFrom n rest).failure⟩ := by
  induction h with
  | done m cs => rfl
  | @step m n cs rest ts s hne hnext _ ih =>
    rw [tokensFrom, dif_neg hne]
    split
    · next failure hfail =>
      rw [hnext] at hfail
      cases hfail
    · next s' hs' =>
      rw [hnext] at hs'
      cases hs'
      simp [ih]

/-- Every beginning of the row of tokens was read in this way. -/
theorem exists_reads {us : List Token} (ts : List Token) : ∀ {m : Mode} {cs : List Char},
    (tokensFrom m cs).tokens = ts ++ us → ∃ n rest, Reads m cs ts n rest ∧
      (tokensFrom n rest).tokens = us := by
  induction ts with
  | nil =>
    intro m cs h
    exact ⟨m, cs, .done m cs, h⟩
  | cons t ts ih =>
    intro m cs h
    rw [tokensFrom] at h
    split at h
    · simp at h
    · next hne =>
      split at h
      · simp at h
      · next s hs =>
        simp only [List.cons_append, List.cons.injEq] at h
        obtain ⟨rfl, h⟩ := h
        obtain ⟨n, rest, hreads, hus⟩ := ih h
        exact ⟨n, rest, .step hne hs hreads, hus⟩

/-- Whatever is read from some mode on is a run. -/
theorem runs_tokensFrom (m : Mode) (cs : List Char) : ∃ n, m.Runs (tokensFrom m cs).tokens n := by
  obtain ⟨n, rest, hreads, -⟩ := exists_reads (tokensFrom m cs).tokens (List.append_nil _).symm
  exact ⟨n, hreads.runs⟩

/-! ## Parts of start tags -/

section
variable {lead equals value behind : List Char} {name : QualifiedName} {q : Char}

/-- In a start tag, an attribute is read, whatever stands behind it. -/
theorem reads_attribute (depth : Nat) (h : (Token.attribute lead name equals q value).WellFormed)
    (rest : List Char) :
    Reads (.tag depth) ((Token.attribute lead name equals q value).text ++ rest)
      [.attribute lead name equals q value] (.tag depth) rest := by
  have hnext : Lexer.next (.tag depth) ((Token.attribute lead name equals q value).text ++ rest) =
      .ok ⟨.attribute lead name equals q value, .tag depth, rest⟩ := by
    show Lexer.tag depth _ = _
    unfold Lexer.tag Lexer.read
    rw [List.drop_zero, Lexer.tagPart_eq_ok.mpr ⟨rfl, h, rfl⟩]
  have hne : (Token.attribute lead name equals q value).text ++ rest ≠ [] := by
    simp [Token.text]
  exact .of_next hne hnext

/-- In a start tag, its end is read, whatever stands behind it. -/
theorem reads_tagEnd (depth : Nat) (hlead : Scan.AllOf isSpace lead) (selfClosing : Bool)
    (rest : List Char) :
    Reads (.tag depth) ((Token.tagEnd lead selfClosing).text ++ rest) [.tagEnd lead selfClosing]
      (if selfClosing then .closing depth else .content depth) rest := by
  have hnext : Lexer.next (.tag depth) ((Token.tagEnd lead selfClosing).text ++ rest) =
      .ok ⟨.tagEnd lead selfClosing,
        if selfClosing then .closing depth else .content depth, rest⟩ := by
    show Lexer.tag depth _ = _
    unfold Lexer.tag Lexer.read
    rw [List.drop_zero, Lexer.tagPart_tagEnd hlead]
    cases selfClosing <;> rfl
  have hne : (Token.tagEnd lead selfClosing).text ++ rest ≠ [] := by
    cases selfClosing <;> simp [Token.text]
  exact .of_next hne hnext

/-- If an attribute was read, a start tag is open, and it stays open behind the attribute. -/
theorem exists_of_reads_attribute {m n : Mode} {cs rest : List Char}
    (h : Reads m cs [.attribute lead name equals q value] n rest) :
    ∃ depth, m = .tag depth ∧ n = .tag depth ∧
      (Token.attribute lead name equals q value).WellFormed := by
  cases h.runs with
  | cons hadm hwf hnil =>
    cases hnil
    cases hadm with
    | part depth => exact ⟨depth, rfl, rfl, hwf⟩

end

/-! ## Whole texts -/

/--
The reader of a whole text has given these tokens, is in this mode and has this text left.

A byte order mark is a token of its own, which the reader passes over before it starts.
-/
inductive ReadsText : List Char → List Token → Mode → List Char → Prop
  | marked {cs rest : List Char} {ts : List Token} {n : Mode} :
    Reads .start cs ts n rest →
      ReadsText ('\uFEFF' :: cs) (.skipped ['\uFEFF'] :: ts) n rest
  | plain {cs rest : List Char} {ts : List Token} {n : Mode} :
    cs.head? ≠ some '\uFEFF' → Reads .start cs ts n rest → ReadsText cs ts n rest

namespace ReadsText

variable {n : Mode} {cs rest : List Char} {ts us : List Token}

theorem text (h : ReadsText cs ts n rest) : cs = textOf ts ++ rest := by
  cases h with
  | marked h => simp [h.text, Token.text]
  | plain _ h => exact h.text

theorem runs (h : ReadsText cs ts n rest) : Mode.Runs .start ts n := by
  cases h with
  | marked h => exact .cons (.before _ rfl rfl) trivial h.runs
  | plain _ h => exact h.runs

theorem append {k : Mode} {mid : List Char} (h : ReadsText cs ts k mid)
    (h' : Reads k mid us n rest) : ReadsText cs (ts ++ us) n rest := by
  cases h with
  | marked h => exact .marked (h.append h')
  | plain hne h => exact .plain hne (h.append h')

/-- An edit has no influence on the tokens that end before the character in front of it. -/
theorem replace {other : List Char} (h : ReadsText cs ts n rest)
    (ho : rest.head? = other.head?) : ReadsText (textOf ts ++ other) ts n other := by
  cases h with
  | marked h => exact .marked (h.replace ho)
  | plain hne h =>
    refine .plain ?_ (h.replace ho)
    rw [h.text] at hne
    cases ht : textOf ts with
    | nil =>
      rw [ht] at hne
      rw [List.nil_append, ← ho]
      exact hne
    | cons c t =>
      rw [ht] at hne
      exact hne

end ReadsText

theorem tokens_of_head?_ne {cs : List Char} (h : cs.head? ≠ some '\uFEFF') :
    tokens cs = tokensFrom .start cs := by
  unfold tokens
  split
  · simp at h
  · rfl

theorem tokens_of_readsText {cs rest : List Char} {ts : List Token} {n : Mode}
    (h : ReadsText cs ts n rest) :
    tokens cs = ⟨ts ++ (tokensFrom n rest).tokens, (tokensFrom n rest).failure⟩ := by
  cases h with
  | marked h => rw [tokens, tokensFrom_of_reads h]; rfl
  | plain hne h => rw [tokens_of_head?_ne hne, tokensFrom_of_reads h]

/-- Every beginning of the tokens of a text was read in this way. -/
theorem exists_readsText {cs : List Char} {us : List Token} (ts : List Token)
    (h : (tokens cs).tokens = ts ++ us) (hmark : cs.head? = some '\uFEFF' → ts ≠ []) :
    ∃ n rest, ReadsText cs ts n rest ∧ (tokensFrom n rest).tokens = us := by
  by_cases hhead : cs.head? = some '\uFEFF'
  · obtain ⟨t, ts, rfl⟩ := List.exists_cons_of_ne_nil (hmark hhead)
    obtain ⟨body, rfl⟩ := List.head?_eq_some_iff.mp hhead
    simp only [tokens, List.cons_append, List.cons.injEq] at h
    obtain ⟨rfl, h⟩ := h
    obtain ⟨n, rest, hreads, hus⟩ := exists_reads ts h
    exact ⟨n, rest, .marked hreads, hus⟩
  · rw [tokens_of_head?_ne hhead] at h
    obtain ⟨n, rest, hreads, hus⟩ := exists_reads ts h
    exact ⟨n, rest, .plain hhead hreads, hus⟩

end LayoutCompletion.Markup
