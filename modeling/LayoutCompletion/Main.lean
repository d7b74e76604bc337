import LayoutCompletion.CommandLine.Run

/-!
# The program

The command line on the files of the system.
-/

namespace LayoutCompletion

/-- The number of a system error, which may come with its sign turned. -/
def errorNumber (code : UInt32) : Nat :=
  min code.toNat (0 - code).toNat

/-- Why the system could not read a file. -/
def problemOf : IO.Error → FileProblem
  | .noFileOrDirectory _ _ _ => .notFound
  | .inappropriateType _ code _ =>
    if errorNumber code = 20 then .notDirectory else .isDirectory
  | .invalidArgument file code details =>
    if errorNumber code = 36 then .nameTooLong
    else .other (toString (IO.Error.invalidArgument file code details))
  | e => .other (toString e)

/-- Reads a file of the system. -/
def readSystemFile (path : String) : IO (Except FileProblem String) := do
  if path.isEmpty then return .error .notFound
  if path.toList.contains '\x00' then return .error .badPath
  try
    return textOfContents (← IO.FS.readBinFile path)
  catch e => return .error (problemOf e)

/-- The files among the entries of a directory and below them. The components of the directory are
put before theirs. Links are not followed, and what cannot be read is left out. -/
partial def filesOfEntries (directory : List String) (entries : Array IO.FS.DirEntry) :
    IO (List (List String)) := do
  let mut found := []
  for entry in entries do
    let path := directory ++ [entry.fileName]
    try
      match (← entry.path.symlinkMetadata).type with
      | .dir => found := (← filesOfEntries path (← entry.path.readDir)) ++ found
      | .file => found := path :: found
      | _ => pure ()
    catch _ => pure ()
  return found

/-- The files below a directory of the system. -/
def listSystemFiles (path : String) : IO (List (List String)) := do
  try
    filesOfEntries [] (← ((← IO.currentDir) / path).readDir)
  catch _ => return []

/-- Access to the files of the system. -/
def systemFiles : FileAccess IO where
  read := readSystemFile
  filesBelow := listSystemFiles

end LayoutCompletion

open LayoutCompletion in
/-- Runs the program. -/
def main (arguments : List String) : IO UInt32 := do
  let outcome ← CommandLine.run systemFiles arguments
  IO.print outcome.output
  IO.eprint outcome.remarks
  return outcome.exitCode.toUInt32
