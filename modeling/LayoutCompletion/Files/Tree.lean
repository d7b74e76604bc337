import LayoutCompletion.Files.Basic
import LayoutCompletion.Text.Split
import LayoutCompletion.Text.Utf8

/-!
# Trees of files

A working directory and everything in it, as a list of files and directories by the components of
their paths. Directories on the way to an entry need no entry of their own. What lies around the
working directory is not known; no file is found there.
-/

namespace LayoutCompletion

/-- What stands at a path. -/
inductive FileNode
  | directory
  | file (contents : ByteArray)

/-- Files and directories in a working directory. -/
structure FileTree where
  entries : List (List String × FileNode)

namespace FileTree

/-- A place in the tree, or one that is not in it. -/
inductive Location
  | inside (components : List String)
  | outside
deriving DecidableEq, Repr

/-- The longest name that a file may have, in bytes. -/
def maxNameLength : Nat := 255

/-- A path has to be shorter than this, in bytes. -/
def pathLengthLimit : Nat := 4096

/-- What stands at a place in the tree. -/
def node? (t : FileTree) (components : List String) : Option FileNode :=
  match t.entries.find? (·.1 = components) with
  | some (_, node) => some node
  | none =>
    if components.isEmpty || t.entries.any (components.isPrefixOf ·.1) then some .directory
    else none

/-- Goes from a directory to the next component of a path. -/
def step (t : FileTree) (location : Location) (component : String) :
    Except FileProblem Location :=
  match location with
  | .outside =>
    if component = "" || component = "." || component = ".." then .ok .outside
    else .error .notFound
  | .inside here =>
    match t.node? here with
    | none => .error .notFound
    | some (.file _) => .error .notDirectory
    | some .directory =>
      if component = "" || component = "." then .ok (.inside here)
      else if component = ".." then
        .ok (if here.isEmpty then .outside else .inside here.dropLast)
      else if maxNameLength < component.utf8ByteSize then .error .nameTooLong
      else
        match t.node? (here ++ [component]) with
        | none => .error .notFound
        | some _ => .ok (.inside (here ++ [component]))

/-- The place that a path leads to. -/
def locate (t : FileTree) (path : String) : Except FileProblem Location :=
  if path.toList.contains '\x00' then .error .badPath
  else if path.isEmpty then .error .notFound
  else if pathLengthLimit ≤ path.utf8ByteSize then .error .nameTooLong
  else
    let start : Location := if path.toList.head? = some '/' then .outside else .inside []
    ((Text.splitAll '/' path.toList).map String.ofList).foldlM t.step start

/-- The text of the file at a path. -/
def read (t : FileTree) (path : String) : Except FileProblem String :=
  match t.locate path with
  | .error problem => .error problem
  | .ok .outside => .error .isDirectory
  | .ok (.inside components) =>
    match t.node? components with
    | some (.file contents) => textOfContents contents
    | some .directory => .error .isDirectory
    | none => .error .notFound

/-- What is left of a path behind the components of a directory, if the path is in it. -/
def below? (directory components : List String) : Option (List String) :=
  if directory.isPrefixOf components then some (components.drop directory.length) else none

/-- The files below a directory. -/
def filesBelow (t : FileTree) (path : String) : List (List String) :=
  match t.locate path with
  | .ok (.inside directory) =>
    t.entries.filterMap fun (components, node) =>
      match node with
      | .file _ => below? directory components
      | .directory => none
  | _ => []

/-- Access to the files of the tree. -/
def access (t : FileTree) : FileAccess Id where
  read := t.read
  filesBelow := t.filesBelow

end FileTree

end LayoutCompletion
