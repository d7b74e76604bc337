import LayoutCompletion.Text.Uppercase

/-!
# Humps

A camel-case name falls into humps: a new one begins before every uppercase letter and behind
every underscore and every colon.
-/

namespace LayoutCompletion.Text

/-- Does a hump end behind this character? -/
def isSeparator (c : Char) : Bool :=
  c = '_' || c = ':'

/-- Puts a character before the first hump. -/
def consHump (c : Char) : List (List Char) → List (List Char)
  | [] => [[c]]
  | hump :: rest => (c :: hump) :: rest

/-- The humps of a name. -/
def humps : List Char → List (List Char)
  | [] => []
  | c :: cs =>
    if isSeparator c || cs.head?.any isUppercase then [c] :: humps cs else consHump c (humps cs)

theorem flatten_consHump (c : Char) (hs : List (List Char)) :
    (consHump c hs).flatten = c :: hs.flatten := by
  cases hs <;> rfl

/-- The humps of a name in a row are the name. -/
theorem flatten_humps (cs : List Char) : (humps cs).flatten = cs := by
  induction cs with
  | nil => rfl
  | cons c cs ih =>
    rw [humps]
    split
    · simp [ih]
    · rw [flatten_consHump, ih]

end LayoutCompletion.Text
