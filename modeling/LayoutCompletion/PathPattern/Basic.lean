/-!
# Patterns for paths

A pattern is a row of parts. What it matches are the bytes of a path: a wildcard for one
character stands for one byte, and so does a class, whatever character the byte belongs to.

`Part.rests` gives what can be left of a text behind a part. A pattern matches a text if nothing
can be left of it.
-/

namespace LayoutCompletion.PathPattern

/-- A part of a pattern. -/
inductive Part
  /-- These bytes. -/
  | literal (bytes : List UInt8)
  /-- One byte, which is no slash. -/
  | anyByte
  /-- Any bytes without a slash. -/
  | anyBytes
  /-- Directories before everything else, perhaps none. -/
  | leadingDirectories
  /-- A slash and anything behind it. -/
  | everythingBelow
  /-- A slash, with directories and another slash behind it, perhaps. -/
  | innerDirectories
  /-- One byte of a class, or one that is not in it. The class is given by ranges, ends
  included. -/
  | oneOf (negated : Bool) (ranges : List (UInt8 × UInt8))
  /-- One of some patterns. Those that are empty do not count. -/
  | choice (branches : List (List Part))

/-- The byte that separates the components of a path. -/
def slash : UInt8 := 0x2F

/-- A text and everything that is left of it behind some first bytes. -/
def suffixes : List UInt8 → List (List UInt8)
  | [] => [[]]
  | b :: bs => (b :: bs) :: suffixes bs

/-- What is left behind the first bytes, as many as are no slash. -/
def behindName : List UInt8 → List (List UInt8)
  | [] => [[]]
  | b :: bs => (b :: bs) :: (if b = slash then [] else behindName bs)

/-- What is left behind the slashes. -/
def behindSlashes : List UInt8 → List (List UInt8)
  | [] => []
  | b :: bs => if b = slash then bs :: behindSlashes bs else behindSlashes bs

/-- Is the byte in a class? -/
def inClass (negated : Bool) (ranges : List (UInt8 × UInt8)) (b : UInt8) : Bool :=
  ranges.any (fun (low, high) => low ≤ b && b ≤ high) != negated

/-- What is left behind a byte that satisfies `p`. -/
def behindByte (p : UInt8 → Bool) : List UInt8 → List (List UInt8)
  | [] => []
  | b :: bs => if p b then [bs] else []

mutual

/-- Is there nothing in a part that could match? -/
def Part.isVacuous : Part → Bool
  | .choice branches => allVacuous branches
  | _ => false

/-- Is there nothing in a pattern that could match? -/
def isVacuous : List Part → Bool
  | [] => true
  | part :: parts => part.isVacuous && isVacuous parts

/-- Is there nothing in any of the patterns? -/
def allVacuous : List (List Part) → Bool
  | [] => true
  | branch :: branches => isVacuous branch && allVacuous branches

end

mutual

/-- What can be left of a text behind a part. -/
def Part.rests (text : List UInt8) : Part → List (List UInt8)
  | .literal bytes => if bytes.isPrefixOf text then [text.drop bytes.length] else []
  | .anyByte => behindByte (· ≠ slash) text
  | .anyBytes => behindName text
  | .leadingDirectories => text :: behindSlashes text
  | .everythingBelow => if text.head? = some slash then suffixes text.tail else []
  | .innerDirectories => if text.head? = some slash then behindSlashes text else []
  | .oneOf negated ranges => behindByte (inClass negated ranges) text
  | .choice branches => if allVacuous branches then [text] else branchRests text branches

/-- What can be left of a text behind a pattern. -/
def rests (text : List UInt8) : List Part → List (List UInt8)
  | [] => [text]
  | part :: parts =>
    (part.rests text).eraseDups.flatMap fun rest => rests rest parts

/-- What can be left of a text behind one of the patterns. -/
def branchRests (text : List UInt8) : List (List Part) → List (List UInt8)
  | [] => []
  | branch :: branches =>
    (if isVacuous branch then [] else rests text branch) ++ branchRests text branches

end

/-- Does the pattern match the whole text? Directories alone match everything. -/
def isMatch (parts : List Part) (text : List UInt8) : Bool :=
  match parts with
  | [.leadingDirectories] => true
  | _ => (rests text parts).contains []

end LayoutCompletion.PathPattern
