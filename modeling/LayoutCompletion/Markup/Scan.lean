import LayoutCompletion.Markup.Character
import LayoutCompletion.Markup.Failure

/-!
# Reading from the front of a text

A `Scan` reads some characters from the front of a text and leaves the rest, or stops with a
cause. All scans of this library are put together from the ones here, and none gives back
anything but a tail of what it was given (`Scan.Suffix`), which is why reading token by token
comes to an end.
-/

namespace LayoutCompletion.Markup

/-- Reads a value from the front of a text, or stops. -/
abbrev Scan (α : Type) := StateT (List Char) (Except Stop) α

namespace Scan

/-- Stops here. -/
def fail {α : Type} (cause : Cause) : Scan α :=
  fun cs => .error ⟨cause, cs⟩

/-- The next character, which is not read. -/
def peek : Scan (Option Char) :=
  fun cs => .ok (cs.head?, cs)

/-- Stops here if the condition holds. -/
def failIf (condition : Bool) (cause : Cause) : Scan Unit :=
  if condition then fail cause else pure ()

/-- Does the rest begin with `opening`? -/
def begins (opening : String) (cs : List Char) : Bool :=
  opening.toList.isPrefixOf cs

/-- Does the rest begin with `opening`? Nothing is read. -/
def sees (opening : String) : Scan Bool :=
  fun cs => .ok (begins opening cs, cs)

/-- Reads `n` characters, or all if there are fewer. -/
def advance (n : Nat) : Scan Unit :=
  fun cs => .ok ((), cs.drop n)

/-- Reads as long as the characters satisfy `p`. -/
def takeWhile (p : Char → Bool) : Scan (List Char) :=
  fun cs => .ok (cs.takeWhile p, cs.dropWhile p)

/-- Reads spaces, if there are any. -/
def spaces : Scan (List Char) :=
  takeWhile isSpace

/-- Reads the character `want`. -/
def char (want : Char) : Scan Unit
  | [] => .error ⟨.unexpectedEnd, []⟩
  | c :: cs => if c = want then .ok ((), cs) else .error ⟨.wanted want, c :: cs⟩

/-- Reads the text `want`. -/
def text (want : String) : Scan Unit :=
  fun cs =>
    if begins want cs then .ok ((), cs.drop want.toList.length)
    else .error ⟨.wantedText want, cs⟩

/-- If the rest begins with `opening`, reads it and goes on with `p`; otherwise reads nothing. -/
def optionally (opening : String) (p : Scan Unit) : Scan Unit :=
  fun cs => if begins opening cs then p (cs.drop opening.toList.length) else .ok ((), cs)

/-- Reads spaces, of which there must be one. -/
def someSpace : Scan (List Char)
  | [] => .error ⟨.unexpectedEnd, []⟩
  | c :: cs =>
    if isSpace c then .ok ((c :: cs).takeWhile isSpace, (c :: cs).dropWhile isSpace)
    else .error ⟨.wantedSpace, c :: cs⟩

/-- Reads a single or a double quote. -/
def quote : Scan Char
  | [] => .error ⟨.unexpectedEnd, []⟩
  | c :: cs =>
    if c = '\x22' || c = '\x27' then .ok (c, cs) else .error ⟨.wantedQuote, c :: cs⟩

/-- Reads legal characters up to a place where `stop` holds of what is left, or to the end. -/
def upTo (stop : List Char → Bool) : Scan (List Char)
  | [] => .ok ([], [])
  | c :: cs =>
    if !isLegal c then .error ⟨.illegal, c :: cs⟩
    else if stop (c :: cs) then .ok ([], c :: cs)
    else (upTo stop cs).map fun (taken, rest) => (c :: taken, rest)

/-- Runs a scan, and keeps the characters that it read. -/
def lexeme {α : Type} (p : Scan α) : Scan (α × List Char) :=
  fun cs => (p cs).map fun (a, rest) => ((a, cs.take (cs.length - rest.length)), rest)

/-- A plain name: no colon is special in it, and it may begin with one. -/
def name : Scan (List Char)
  | [] => .error ⟨.noName, []⟩
  | c :: cs =>
    if isNameStart c || c = ':' then
      let inName := fun c => isNameChar c || c = ':'
      .ok ((c :: cs).takeWhile inName, (c :: cs).dropWhile inName)
    else .error ⟨.noName, c :: cs⟩

/-! ## What is left is a tail of what was given -/

/-- The scan leaves a tail of its input whenever it succeeds. -/
def Suffix {α : Type} (p : Scan α) : Prop :=
  ∀ {cs a rest}, p cs = .ok (a, rest) → rest <:+ cs

theorem suffix_pure {α : Type} (a : α) : Suffix (pure a : Scan α) := by
  intro cs b rest h
  cases h
  exact List.suffix_refl _

theorem suffix_bind {α β : Type} {p : Scan α} {f : α → Scan β} (hp : Suffix p)
    (hf : ∀ a, Suffix (f a)) : Suffix (p >>= f) := by
  intro cs b rest h
  cases hcs : p cs with
  | error e => simp [bind, StateT.bind, hcs, Except.bind] at h
  | ok v =>
    obtain ⟨a, mid⟩ := v
    simp only [bind, StateT.bind, hcs, Except.bind] at h
    exact (hf a h).trans (hp hcs)

theorem suffix_map {α β : Type} {p : Scan α} {f : α → β} (hp : Suffix p) : Suffix (f <$> p) := by
  intro cs b rest h
  cases hcs : p cs with
  | error e => simp [Functor.map, StateT.map, hcs, bind, Except.bind] at h
  | ok v =>
    obtain ⟨a, mid⟩ := v
    simp only [Functor.map, StateT.map, hcs, bind, Except.bind, pure, Except.pure] at h
    cases h
    exact hp hcs

theorem suffix_fail {α : Type} (cause : Cause) : Suffix (fail cause : Scan α) := by
  intro cs a rest h
  cases h

theorem suffix_failIf (condition : Bool) (cause : Cause) : Suffix (failIf condition cause) := by
  cases condition
  · exact suffix_pure ()
  · exact suffix_fail cause

theorem suffix_peek : Suffix peek := by
  intro cs a rest h
  cases h
  exact List.suffix_refl _

theorem suffix_sees (text : String) : Suffix (sees text) := by
  intro cs a rest h
  cases h
  exact List.suffix_refl _

theorem suffix_advance (n : Nat) : Suffix (advance n) := by
  intro cs a rest h
  cases h
  exact List.drop_suffix _ _

theorem suffix_takeWhile (p : Char → Bool) : Suffix (takeWhile p) := by
  intro cs a rest h
  cases h
  exact List.dropWhile_suffix p

theorem suffix_spaces : Suffix spaces :=
  suffix_takeWhile isSpace

theorem suffix_char (want : Char) : Suffix (char want) := by
  intro cs a rest h
  cases cs with
  | nil => simp [char] at h
  | cons c cs =>
    simp only [char] at h
    split at h
    · cases h
      exact List.suffix_cons _ _
    · simp at h

theorem suffix_text (want : String) : Suffix (text want) := by
  intro cs a rest h
  simp only [text] at h
  split at h
  · cases h
    exact List.drop_suffix _ cs
  · simp at h

theorem suffix_optionally (opening : String) {p : Scan Unit} (hp : Suffix p) :
    Suffix (optionally opening p) := by
  intro cs a rest h
  simp only [optionally] at h
  split at h
  · exact (hp h).trans (List.drop_suffix _ _)
  · cases h
    exact List.suffix_refl _

theorem suffix_someSpace : Suffix someSpace := by
  intro cs a rest h
  cases cs with
  | nil => simp [someSpace] at h
  | cons c cs =>
    simp only [someSpace] at h
    split at h
    · cases h
      exact List.dropWhile_suffix isSpace
    · simp at h

theorem suffix_quote : Suffix quote := by
  intro cs a rest h
  cases cs with
  | nil => simp [quote] at h
  | cons c cs =>
    simp only [quote] at h
    split at h
    · cases h
      exact List.suffix_cons _ _
    · simp at h

theorem suffix_upTo (stop : List Char → Bool) : Suffix (upTo stop) := by
  intro cs
  induction cs with
  | nil =>
    intro a rest h
    cases h
    exact List.suffix_refl []
  | cons c cs ih =>
    intro a rest h
    simp only [upTo] at h
    split at h
    · simp at h
    · split at h
      · cases h
        exact List.suffix_refl _
      · cases hcs : upTo stop cs with
        | error e => simp [hcs, Except.map] at h
        | ok v =>
          obtain ⟨taken, mid⟩ := v
          simp only [hcs, Except.map, Except.ok.injEq, Prod.mk.injEq] at h
          obtain ⟨-, rfl⟩ := h
          exact (ih hcs).trans (List.suffix_cons c cs)

theorem suffix_lexeme {α : Type} {p : Scan α} (hp : Suffix p) : Suffix (lexeme p) := by
  intro cs a rest h
  cases hcs : p cs with
  | error e => simp [lexeme, hcs, Except.map] at h
  | ok v =>
    obtain ⟨b, mid⟩ := v
    simp only [lexeme, hcs, Except.map, Except.ok.injEq, Prod.mk.injEq] at h
    obtain ⟨-, rfl⟩ := h
    exact hp hcs

theorem suffix_name : Suffix name := by
  intro cs a rest h
  cases cs with
  | nil => simp [name] at h
  | cons c cs =>
    simp only [name] at h
    split at h
    · cases h
      exact List.dropWhile_suffix _
    · simp at h

end Scan

end LayoutCompletion.Markup
