import LayoutCompletion.PathPattern.Basic

/-!
# Reading patterns

A star stands for any name, two stars between slashes or at an end for any directories. Brackets
hold a class, braces hold patterns between commas, and a backslash takes away the meaning of the
character behind it. The parser keeps the parts that it has read, last first, and the groups that
are still open.
-/

namespace LayoutCompletion.PathPattern

/-- Why a text is no pattern. -/
inductive Fault
  | unclosedClass
  | emptyRange (first last : Char)
  | unopenedGroup
  | unclosedGroup
  | danglingEscape
deriving DecidableEq, Repr

/-- What people read about it. -/
def Fault.message : Fault → String
  | unclosedClass => "unclosed character class; missing ']'"
  | emptyRange first last =>
    "invalid range; '" ++ first.toString ++ "' > '" ++ last.toString ++ "'"
  | unopenedGroup =>
    "unopened alternate group; missing '\x7b' (maybe escape '\x7d' with '[\x7d]'?)"
  | unclosedGroup =>
    "unclosed alternate group; missing '\x7d' (maybe escape '\x7b' with '[\x7b]'?)"
  | danglingEscape => "dangling '\\'"

/-- The bytes that a character is written in. -/
def bytesOf (c : Char) : List UInt8 := String.utf8EncodeChar c

/-- The ranges of bytes that a range of characters stands for: every byte of the two characters
by itself, but the last of the first character and the first of the last one span a range. -/
def byteRanges (first last : Char) : List (UInt8 × UInt8) :=
  let single := fun b => (b, b)
  if first = last then (bytesOf first).map single
  else
    (bytesOf first).dropLast.map single ++
      ((bytesOf first).getLast?.toList.zip (bytesOf last).head?.toList) ++
      (bytesOf last).tail.map single

/-- The class that has been read so far: its ranges, last first, and whether a hyphen behind the
last of them has begun another end. -/
structure ClassState where
  ranges : List (Char × Char)
  inRange : Bool
deriving DecidableEq, Repr

/-- A class and what is left behind its bracket. -/
structure ClassToken where
  ranges : List (Char × Char)
  rest : List Char
deriving DecidableEq, Repr

namespace ClassState

/-- Takes a character as the other end of the last range, or as a range of its own. -/
def push (s : ClassState) (c : Char) : Except Fault ClassState :=
  match s.inRange, s.ranges with
  | true, (low, _) :: ranges =>
    if c < low then .error (.emptyRange low c) else .ok ⟨(low, c) :: ranges, false⟩
  | _, ranges => .ok ⟨(c, c) :: ranges, false⟩

/-- The ranges in order. A hyphen at the end stands for itself. -/
def finish (s : ClassState) : List (Char × Char) :=
  (if s.inRange then ('-', '-') :: s.ranges else s.ranges).reverse

/-- Reads on to the bracket. A bracket or a hyphen in the first place stands for itself. -/
def read (s : ClassState) (isFirst : Bool) : List Char → Except Fault ClassToken
  | [] => .error .unclosedClass
  | c :: cs =>
    if c = ']' && !isFirst then .ok ⟨s.finish, cs⟩
    else if c = '-' && !isFirst && !s.inRange then read ⟨s.ranges, true⟩ false cs
    else
      match s.push c with
      | .error fault => .error fault
      | .ok s => read s false cs

theorem length_read {s : ClassState} {isFirst : Bool} {cs : List Char} {token : ClassToken}
    (h : s.read isFirst cs = .ok token) : token.rest.length < cs.length := by
  induction cs generalizing s isFirst with
  | nil => simp [read] at h
  | cons c cs ih =>
    simp only [read] at h
    split at h
    · obtain rfl := Except.ok.inj h
      simp
    · split at h
      · have := ih h
        simp only [List.length_cons]
        omega
      · split at h
        · exact absurd h (by simp)
        · have := ih h
          simp only [List.length_cons]
          omega

end ClassState

/-- Does a class begin with the sign that negates it? -/
def isNegated (cs : List Char) : Bool :=
  cs.head? = some '!' || cs.head? = some '^'

/-- A group whose closing brace has not been read: the parts before it, last first, and the
branches that are complete. -/
structure OpenGroup where
  before : List Part
  branches : List (List Part)

/-- What has been read of a pattern: the parts of the innermost branch, last first, and the groups
around it, innermost first. -/
structure ParseState where
  parts : List Part
  groups : List OpenGroup

namespace ParseState

/-- Nothing has been read. -/
def start : ParseState := ⟨[], []⟩

/-- Puts a part behind the others. -/
def push (s : ParseState) (part : Part) : ParseState :=
  { s with parts := part :: s.parts }

/-- Is a group open? -/
def inGroup (s : ParseState) : Bool := !s.groups.isEmpty

/-- Begins a group. -/
def openGroup (s : ParseState) : ParseState :=
  ⟨[], ⟨s.parts, []⟩ :: s.groups⟩

/-- Ends a branch. Outside of groups a comma stands for itself. -/
def comma (s : ParseState) : ParseState :=
  match s.groups with
  | [] => s.push (.literal (bytesOf ','))
  | group :: groups =>
    ⟨[], { group with branches := group.branches ++ [s.parts.reverse] } :: groups⟩

/-- Ends a group. -/
def closeGroup (s : ParseState) : Except Fault ParseState :=
  match s.groups with
  | [] => .error .unopenedGroup
  | group :: groups =>
    .ok ⟨.choice (group.branches ++ [s.parts.reverse]) :: group.before, groups⟩

/-- Two stars that stand for no directories are two stars. -/
def twoStars (s : ParseState) : ParseState :=
  (s.push .anyBytes).push .anyBytes

/-- Directories in place of the part before them, which is a slash as a rule. Directories that
follow on such are one with them. -/
def directories (s : ParseState) (part : Part) : ParseState :=
  match s.parts with
  | .leadingDirectories :: _ => s
  | .everythingBelow :: _ => s
  | _ :: before => { s with parts := part :: before }
  | [] => s

/-- Takes two stars, of which `before` is the character before and `rest` is left. Gives what is
left behind them, a slash that belongs to them included. -/
def doubleStar (s : ParseState) (before : Option Char) (rest : List Char) :
    ParseState × List Char :=
  let next := rest.head?
  if s.parts.isEmpty then
    if next = none || next = some '/' then (s.push .leadingDirectories, rest.drop 1)
    else (s.twoStars, rest)
  else if before ≠ some '/' && !(s.inGroup && (before = some ',' || before = some '\x7b')) then
    (s.twoStars, rest)
  else if next = none || (s.inGroup && (next = some ',' || next = some '\x7d')) then
    (s.directories .everythingBelow, rest)
  else if next = some '/' then (s.directories .innerDirectories, rest.drop 1)
  else (s.twoStars, rest)

theorem length_doubleStar (s : ParseState) (before : Option Char) (rest : List Char) :
    (s.doubleStar before rest).2.length ≤ rest.length := by
  simp only [doubleStar]
  split
  · split <;> simp
  · split
    · simp
    · split
      · simp
      · split <;> simp

/-- The pattern that has been read. -/
def finish (s : ParseState) : Except Fault (List Part) :=
  if s.inGroup then .error .unclosedGroup else .ok s.parts.reverse

/-- Reads on to the end. `before` is the character that was read last. -/
def read (s : ParseState) (before : Option Char) (cs : List Char) : Except Fault (List Part) :=
  match cs with
  | [] => s.finish
  | '?' :: rest => (s.push .anyByte).read (some '?') rest
  | '*' :: '*' :: rest =>
    match _h : s.doubleStar before rest with
    | (next, behind) =>
      next.read (if behind.length < rest.length then some '/' else some '*') behind
  | '*' :: rest => (s.push .anyBytes).read (some '*') rest
  | '[' :: rest =>
    match _h : ClassState.read ⟨[], false⟩ true (if isNegated rest then rest.tail else rest) with
    | .error fault => .error fault
    | .ok token =>
      let ranges := token.ranges.flatMap fun (first, last) => byteRanges first last
      (s.push (.oneOf (isNegated rest) ranges)).read (some ']') token.rest
  | '\x7b' :: rest => s.openGroup.read (some '\x7b') rest
  | '\x7d' :: rest =>
    match s.closeGroup with
    | .error fault => .error fault
    | .ok next => next.read (some '\x7d') rest
  | ',' :: rest => s.comma.read (some ',') rest
  | ['\\'] => .error .danglingEscape
  | '\\' :: c :: rest => (s.push (.literal (bytesOf c))).read (some c) rest
  | c :: rest => (s.push (.literal (bytesOf c))).read (some c) rest
termination_by cs.length
decreasing_by
  all_goals simp only [List.length_cons]
  all_goals try omega
  · have := length_doubleStar s before rest
    simp only [_h] at this
    omega
  · have := ClassState.length_read _h
    split at this <;> simp_all <;> omega

end ParseState

/-- The pattern that a text says. -/
def parse (text : List Char) : Except Fault (List Part) :=
  ParseState.start.read none text

end LayoutCompletion.PathPattern
