import LayoutCompletion.PathPattern.Parse
import LayoutCompletion.Text.Blank

/-!
# Rules that pick files

A rule is a pattern with marks around it: an exclamation mark before it turns what it picks into
what it drops, a slash before it holds it to the beginning of a path, a slash behind it holds it to
directories. Of several rules that match a path the last decides. A file is picked if the last
rule that matches it picks it and no directory that it is in is dropped.
-/

namespace LayoutCompletion.PathPattern

/-- A rule. -/
structure Rule where
  /-- Does the rule drop what it matches? -/
  drops : Bool
  directoriesOnly : Bool
  parts : List Part

/-- A text that is no rule. -/
structure RuleFault where
  rule : String
  fault : Fault
deriving DecidableEq, Repr

/-- What people read about it. -/
def RuleFault.message (f : RuleFault) : String :=
  "error parsing glob '" ++ f.rule ++ "': " ++ f.fault.message

/-- Does the text end with `ending`? -/
def endsWith (ending text : List Char) : Bool :=
  ending.reverse.isPrefixOf text.reverse

namespace Rule

/-- The text of a rule without the marks before it. -/
structure Unmarked where
  drops : Bool
  /-- Is the rule held to the beginning of a path? -/
  anchored : Bool
  text : List Char
deriving DecidableEq, Repr

/-- Takes off the marks before a rule. A backslash takes away the meaning of a mark. -/
def unmark : List Char → Unmarked
  | '\\' :: '!' :: rest => ⟨false, false, '!' :: rest⟩
  | '\\' :: '#' :: rest => ⟨false, false, '#' :: rest⟩
  | '!' :: '/' :: rest => ⟨true, true, rest⟩
  | '!' :: rest => ⟨true, false, rest⟩
  | '/' :: rest => ⟨false, true, rest⟩
  | text => ⟨false, false, text⟩

/-- The text without a slash behind it, be it behind a backslash. -/
def withoutSlash (text : List Char) : List Char :=
  if endsWith ['\\', '/'] text then text.dropLast.dropLast
  else if endsWith ['/'] text then text.dropLast
  else text

/-- A pattern without slashes may match at the end of any path. -/
def spread (anchored : Bool) (text : List Char) : List Char :=
  if anchored || text.contains '/' || text = ['*', '*'] then text else "**/".toList ++ text

/-- A pattern that ends with a slash and two stars is for what is in a directory only. -/
def onlyInside (text : List Char) : List Char :=
  if endsWith "/**".toList text then text ++ "/*".toList else text

/-- The text of a rule without blanks behind it, unless the first of them is escaped. A star alone
is for the files of the directory itself. -/
def tidy (text : List Char) : List Char :=
  if text = ['*'] then ['/', '*']
  else if endsWith ['\\', ' '] text then text
  else Text.trimEnd text

/-- The rule that a text says. Blank texts and remarks say none. -/
def parse (text : String) : Except RuleFault (Option Rule) :=
  let tidied := tidy text.toList
  if text.toList.head? = some '#' || tidied.isEmpty then .ok none
  else
    let bare := unmark tidied
    match PathPattern.parse (onlyInside (spread bare.anchored (withoutSlash bare.text))) with
    | .ok parts => .ok (some ⟨bare.drops, endsWith ['/'] bare.text, parts⟩)
    | .error fault => .error ⟨String.ofList tidied, fault⟩

/-- Does the rule match a path? -/
def applies (rule : Rule) (isDirectory : Bool) (path : List UInt8) : Bool :=
  (!rule.directoriesOnly || isDirectory) && isMatch rule.parts path

end Rule

/-- Rules, those that decide later last. -/
structure RuleSet where
  rules : List Rule

namespace RuleSet

/-- The rules that texts say, or the first text that is no rule. -/
def parse (texts : List String) : Except RuleFault RuleSet :=
  (texts.mapM Rule.parse).map fun rules => ⟨rules.filterMap id⟩

/-- The bytes of a path with slashes between its components. -/
def bytesOfPath (components : List String) : List UInt8 :=
  ("/".intercalate components).toList.flatMap bytesOf

/-- A path without the text of the directory below which it is, if it should begin with that by
chance. A name alone is left as it is. -/
def withoutRoot (root : String) (path : List UInt8) : List UInt8 :=
  let shown := root.toList
  let own := (if "./".toList.isPrefixOf shown then shown.drop 2 else shown).flatMap bytesOf
  if root ≠ "." && path.contains slash && own.isPrefixOf path then
    match path.drop own.length with
    | b :: rest => if b = slash then rest else b :: rest
    | [] => []
  else path

/-- Does the last rule that matches a path below `root` drop it? If none matches it, there is no
answer. -/
def decide? (s : RuleSet) (root : String) (isDirectory : Bool) (components : List String) :
    Option Bool :=
  let path := withoutRoot root (bytesOfPath components)
  (s.rules.reverse.find? (·.applies isDirectory path)).map Rule.drops

/-- The directories that a path is in, the root included. -/
def directoriesOf (components : List String) : List (List String) :=
  (List.range components.length).map components.take

/-- Is a file below `root` picked? -/
def picks (s : RuleSet) (root : String) (components : List String) : Bool :=
  (directoriesOf components).all (s.decide? root true · ≠ some true) &&
    s.decide? root false components = some false

end RuleSet

end LayoutCompletion.PathPattern
