/-!
# Files

What the library asks of a file system: the text of a file, and the files below a directory. The
answers come in a monad, so that a program can ask the system it runs on and a proof or a test a
tree that it made.
-/

namespace LayoutCompletion

/-- Why a file could not be read. -/
inductive FileProblem
  | notFound
  | notDirectory
  | isDirectory
  | nameTooLong
  /-- The path holds a character that no path may hold. -/
  | badPath
  /-- The file holds no text. -/
  | notText
  /-- Any other reason, in the words of the system. -/
  | other (reason : String)
deriving DecidableEq, Repr

/-- What people read about it. -/
def FileProblem.message : FileProblem → String
  | notFound => "No such file or directory (os error 2)"
  | notDirectory => "Not a directory (os error 20)"
  | isDirectory => "Is a directory (os error 21)"
  | nameTooLong => "File name too long (os error 36)"
  | badPath => "file name contained an unexpected NUL byte"
  | notText => "stream did not contain valid UTF-8"
  | other reason => reason

/-- Access to files. -/
structure FileAccess (m : Type → Type) where
  /-- The text of the file at a path. -/
  read : String → m (Except FileProblem String)
  /-- The files below a directory, by the components of their paths from there. -/
  filesBelow : String → m (List (List String))

/-- The text of the contents of a file. -/
def textOfContents (contents : ByteArray) : Except FileProblem String :=
  match String.fromUTF8? contents with
  | some text => .ok text
  | none => .error .notText

/-- A path without the slashes and dots at its end that make no difference, both paths given from
the last character to the first. -/
def trimPathEnd : List Char → List Char
  | ['/'] => ['/']
  | '/' :: rest => trimPathEnd rest
  | '.' :: '/' :: rest => trimPathEnd ('/' :: rest)
  | path => path
termination_by path => path.length

/-- The directory of the file at a path. -/
def directoryOf (path : String) : String :=
  match path.toList.reverse.dropWhile (· ≠ '/') with
  | [] => "."
  | directory => String.ofList (trimPathEnd directory).reverse

/-- The path `rest` seen from a directory. -/
def joinPath (directory rest : String) : String :=
  if rest.toList.head? = some '/' then rest
  else if directory.toList.getLast? = some '/' then directory ++ rest
  else directory ++ "/" ++ rest

/-- May the path with these components stand before the other? Paths are ordered component by
component. -/
def pathLE (a b : List String) : Bool :=
  (List.compareLex compare a b).isLE

end LayoutCompletion
