import LayoutCompletion.Json.Numeral
import LayoutCompletion.Json.StringToken
import LayoutCompletion.Json.Tree

/-!
# Reading a text into a tree

Values, items and members are read in turns. Each reader gives what it read and, unless the text
is broken there, what it left, which is shorter than what it was given; this is why the turns come
to an end.
-/

namespace LayoutCompletion.Json

/-- Space between the parts of a value. -/
def isSpace (c : Char) : Bool :=
  c = ' ' || c = '\n' || c = '\t' || c = '\r'

/-- The text without its leading spaces. -/
def skipSpaces (cs : List Char) : List Char :=
  cs.dropWhile isSpace

theorem length_skipSpaces (cs : List Char) : (skipSpaces cs).length ≤ cs.length :=
  (List.dropWhile_sublist _).length_le

theorem length_of_skipSpaces {cs rest : List Char} {c : Char} (h : skipSpaces cs = c :: rest) :
    rest.length < cs.length := by
  have := length_skipSpaces cs
  rw [h, List.length_cons] at this
  omega

theorem length_skipSpaces_of_skipSpaces {cs rest : List Char} {c : Char}
    (h : skipSpaces cs = c :: rest) : (skipSpaces rest).length < cs.length :=
  Nat.lt_of_le_of_lt (length_skipSpaces rest) (length_of_skipSpaces h)

/-- What is left behind a word of which `wanted` has still to come. -/
def readWord : (wanted : List Char) → List Char → Except Broken (List Char)
  | [], cs => .ok cs
  | _ :: _, [] => .error (.same (.here .endInValue []))
  | w :: wanted, c :: cs =>
    if c = w then readWord wanted cs else .error (.same (.onNext .wantedWord (c :: cs)))

theorem length_readWord {wanted cs rest : List Char} (h : readWord wanted cs = .ok rest) :
    rest.length ≤ cs.length := by
  fun_induction readWord wanted cs with
  | case1 cs => simp_all
  | case2 => simp at h
  | case3 w wanted cs ih =>
    have := ih h
    simp only [List.length_cons]
    omega
  | case4 => simp at h

/-- A value without parts, and what is left behind it. -/
structure ScalarToken where
  value : Except Fault Scalar
  rest : List Char

/-- The word that says `value`, of which `wanted` has still to come. -/
def ScalarToken.ofWord (value : Scalar) (wanted : String) (cs : List Char) :
    Except Broken ScalarToken :=
  match readWord wanted.toList cs with
  | .ok rest => .ok ⟨.ok value, rest⟩
  | .error faults => .error faults

/-- The string whose opening quote has been read. -/
def ScalarToken.ofString (cs : List Char) : Except Broken ScalarToken :=
  match StringToken.read cs with
  | .ok token => .ok ⟨token.value.map .string, token.rest⟩
  | .error faults => .error faults

/-- The number at the front of a text. -/
def ScalarToken.ofNumeral (cs : List Char) : Except Broken ScalarToken :=
  match Numeral.read cs with
  | .ok (numeral, rest) => .ok ⟨numeral.value rest, rest⟩
  | .error faults => .error faults

/-- The value without parts at the front of a text, if one begins there. -/
def ScalarToken.read? : List Char → Option (Except Broken ScalarToken)
  | [] => none
  | c :: cs =>
    if c = 'n' then some (ofWord .null "ull" cs)
    else if c = 't' then some (ofWord (.boolean true) "rue" cs)
    else if c = 'f' then some (ofWord (.boolean false) "alse" cs)
    else if c = '\x22' then some (ofString cs)
    else if c = '-' || Text.isDigit c then some (ofNumeral (c :: cs))
    else none

theorem length_stringToken {cs : List Char} {token : StringToken}
    (h : StringToken.read cs = .ok token) : token.rest.length < cs.length := by
  simp only [StringToken.read] at h
  split at h
  · next hs hv =>
    obtain rfl := Except.ok.inj h
    cases he : (scanPieces cs).2 <;> simp_all [StringEnd.skip]
    exact length_lt_of_scanPieces he
  · exact absurd h (by simp)
  · exact absurd h (by simp)

theorem length_scalarToken {cs : List Char} {token : ScalarToken}
    (h : ScalarToken.read? cs = some (.ok token)) : token.rest.length < cs.length := by
  have word : ∀ {value : Scalar} {wanted : String} {cs : List Char},
      ScalarToken.ofWord value wanted cs = .ok token → token.rest.length ≤ cs.length := by
    intro value wanted cs h
    simp only [ScalarToken.ofWord] at h
    split at h
    · next hr =>
      obtain rfl := Except.ok.inj h
      exact length_readWord hr
    · exact absurd h (by simp)
  cases cs with
  | nil => simp [ScalarToken.read?] at h
  | cons c cs =>
    simp only [ScalarToken.read?] at h
    split at h
    · exact Nat.lt_succ_of_le (word (Option.some.inj h))
    · split at h
      · exact Nat.lt_succ_of_le (word (Option.some.inj h))
      · split at h
        · exact Nat.lt_succ_of_le (word (Option.some.inj h))
        · split at h
          · simp only [Option.some.injEq, ScalarToken.ofString] at h
            split at h
            · next hs =>
              obtain rfl := Except.ok.inj h
              have := length_stringToken hs
              simp only [List.length_cons]
              omega
            · exact absurd h (by simp)
          · split at h
            · simp only [Option.some.injEq, ScalarToken.ofNumeral] at h
              split at h
              · next hn =>
                obtain rfl := Except.ok.inj h
                exact Numeral.length_read hn
              · exact absurd h (by simp)
            · exact absurd h (by simp)

/-- What was left of a text by a reader that read something, unless it could not go on. -/
abbrev Left (cs : List Char) := Option { rest : List Char // rest.length < cs.length }

/-- What was left of a part of a text is left of the text. -/
def Left.widen {cs ds : List Char} (h : ds.length ≤ cs.length) (left : Left ds) : Left cs :=
  left.map fun rest => ⟨rest.1, Nat.lt_of_lt_of_le rest.2 h⟩

mutual

/-- The value at the front of a text without leading spaces. -/
def readTree (cs : List Char) : Tree × Left cs :=
  match cs with
  | '[' :: inner =>
    let (items, left) := readFirstItem inner
    (.array ('[' :: inner) items, left.widen (by simp))
  | '\x7b' :: inner =>
    let (members, left) := readFirstMember inner
    (.object ('\x7b' :: inner) members, left.widen (by simp))
  | cs =>
    match h : ScalarToken.read? cs with
    | some (.ok token) => (.scalar token.value token.rest, some ⟨token.rest, length_scalarToken h⟩)
    | some (.error faults) => (.broken faults, none)
    | none => (.absent cs, none)
termination_by (cs.length, 0)

/-- What follows the opening bracket of an array. -/
def readFirstItem (cs : List Char) : Items × Left cs :=
  match h : skipSpaces cs with
  | [] => (.noComma [], none)
  | ']' :: rest => (.close rest, some ⟨rest, length_of_skipSpaces h⟩)
  | first =>
    let (items, left) := readItem first
    (items, left.widen (h ▸ length_skipSpaces cs))
termination_by (cs.length, 2)
decreasing_by exact Prod.Lex.right' _ (h ▸ length_skipSpaces cs) (by decide)

/-- An item at the front of a text without leading spaces, and what follows it. -/
def readItem (cs : List Char) : Items × Left cs :=
  match readTree cs with
  | (value, none) => (.item cs value .unread, none)
  | (value, some ⟨behind, hb⟩) =>
    let (later, left) := readLaterItems behind
    (.item cs value later, left.widen (Nat.le_of_lt hb))
termination_by (cs.length, 1)
decreasing_by
  · exact Prod.Lex.right _ (by decide)
  · exact Prod.Lex.left _ _ hb

/-- What follows an item of an array. -/
def readLaterItems (cs : List Char) : Items × Left cs :=
  match h : skipSpaces cs with
  | ']' :: rest => (.close rest, some ⟨rest, length_of_skipSpaces h⟩)
  | ',' :: rest =>
    let (items, left) := readItem (skipSpaces rest)
    (items, left.widen (Nat.le_of_lt (length_skipSpaces_of_skipSpaces h)))
  | rest => (.noComma rest, none)
termination_by (cs.length, 2)
decreasing_by exact Prod.Lex.left _ _ (length_skipSpaces_of_skipSpaces h)

/-- What follows the opening brace of an object. -/
def readFirstMember (cs : List Char) : Members × Left cs :=
  match h : skipSpaces cs with
  | [] => (.noComma [], none)
  | '\x7d' :: rest => (.close rest, some ⟨rest, length_of_skipSpaces h⟩)
  | first =>
    let (members, left) := readMember first
    (members, left.widen (h ▸ length_skipSpaces cs))
termination_by (cs.length, 2)
decreasing_by exact Prod.Lex.right' _ (h ▸ length_skipSpaces cs) (by decide)

/-- A member at the front of a text without leading spaces, and what follows it. -/
def readMember (cs : List Char) : Members × Left cs :=
  match cs with
  | '\x22' :: inner =>
    match hk : StringToken.read inner with
    | .error faults => (.badKey faults, none)
    | .ok key =>
      match h : skipSpaces key.rest with
      | ':' :: rest =>
        let (value, later, left) := readMemberValue (skipSpaces rest)
        (.member key.value (':' :: rest) value later,
          left.widen (Nat.le_of_lt
            (Nat.lt_trans (length_skipSpaces_of_skipSpaces h)
              (Nat.lt_succ_of_lt (length_stringToken hk)))))
      | behind => (.noColon key.value behind, none)
  | _ => (.noKey cs, none)
termination_by (cs.length, 1)
decreasing_by
  exact Prod.Lex.left _ _ (Nat.lt_trans (length_skipSpaces_of_skipSpaces h)
    (Nat.lt_succ_of_lt (length_stringToken hk)))

/-- The value of a member at the front of a text without leading spaces, and what follows it. -/
def readMemberValue (cs : List Char) : Tree × Members × Left cs :=
  match readTree cs with
  | (value, none) => (value, .unread, none)
  | (value, some ⟨behind, hb⟩) =>
    let (later, left) := readLaterMembers behind
    (value, later, left.widen (Nat.le_of_lt hb))
termination_by (cs.length, 2)
decreasing_by
  · exact Prod.Lex.right _ (by decide)
  · exact Prod.Lex.left _ _ hb

/-- What follows a member of an object. -/
def readLaterMembers (cs : List Char) : Members × Left cs :=
  match h : skipSpaces cs with
  | '\x7d' :: rest => (.close rest, some ⟨rest, length_of_skipSpaces h⟩)
  | ',' :: rest =>
    let (later, left) := readMember (skipSpaces rest)
    (.comma (',' :: rest) later,
      left.widen (Nat.le_of_lt (length_skipSpaces_of_skipSpaces h)))
  | rest => (.noComma rest, none)
termination_by (cs.length, 2)
decreasing_by exact Prod.Lex.left _ _ (length_skipSpaces_of_skipSpaces h)

end

/-- The value that a text holds, as far as it can be read, and what is left behind it. -/
def Tree.ofText (text : List Char) : Tree × List Char :=
  let (tree, left) := readTree (skipSpaces text)
  (tree, (left.map fun rest => skipSpaces rest.1).getD [])

end LayoutCompletion.Json
