import LayoutCompletion.CommandLine.Arguments
import LayoutCompletion.CommandLine.Target
import LayoutCompletion.Project.Load
import LayoutCompletion.View.Include

/-!
# Running a command

A command prints something, or ends with a report of what went wrong.
-/

namespace LayoutCompletion

/-- What went wrong, told to the people at the command line. -/
structure Report where
  message : String
  /-- Why that was so, the nearest reason first. -/
  causes : List String
  help : Option String
  /-- A fixed name for the kind of error. -/
  code : Option String
deriving DecidableEq, Repr

namespace Report

/-- A report that says no more than a message. -/
def ofMessage (message : String) : Report := ⟨message, [], none, none⟩

/-- A report with help. -/
def withHelp (message help : String) : Report := ⟨message, [], some help, none⟩

/-- The report of a file that could not be read. -/
def unreadable (path : String) (problem : FileProblem) : Report :=
  ⟨"could not read " ++ path, [problem.message], none, none⟩

/-- The report of a request that has no answer. -/
def ofCompletionError (e : CompletionError) : Report :=
  ⟨e.message, [], e.help?, some e.code⟩

/-- The lines of a report. -/
def text (r : Report) : String :=
  let line := fun (label content : String) => label ++ ": " ++ content
  "\n".intercalate
    ((line "error" r.message) :: (r.causes.map (line "cause")) ++ (r.help.toList.map (line "help"))
      ++ (r.code.toList.map (line "code")))

end Report

/-- How the program ends. -/
inductive Outcome
  /-- It did what it was asked to do and printed this. -/
  | printed (text : String)
  /-- It tells people something instead. -/
  | told (succeeds : Bool) (text : String)
  | failed (report : Report)
deriving DecidableEq, Repr

namespace Outcome

/-- How the program ends if reading the arguments ends it. -/
def ofExit (exit : EarlyExit) : Outcome := .told exit.succeeds exit.text

/-- The number that the program ends with. -/
def exitCode : Outcome → Nat
  | printed _ => 0
  | told succeeds _ => if succeeds then 0 else 1
  | failed _ => 1

/-- What is printed for other programs. -/
def output : Outcome → String
  | printed text => text
  | _ => ""

/-- What is printed for people. -/
def remarks : Outcome → String
  | printed _ => ""
  | told _ text => text ++ "\n"
  | failed report => report.text ++ "\n"

end Outcome

/-- The line of a completion. -/
def Candidate.line (c : Candidate) : String :=
  c.label ++ "\t" ++ c.package.text ++ "\t" ++ c.format.display ++ "\n"

/-- The lines of a list of completions. -/
def CompletionList.lines (l : CompletionList) : String :=
  String.join (l.items.map Candidate.line) ++
    (if l.isIncomplete then "(more candidates omitted)\n" else "")

namespace CommandLine

variable {m : Type → Type} [Monad m]

/-- Reads a file that was named on the command line. -/
def readNamed (files : FileAccess m) (path : String) : ExceptT Report m String := do
  match ← files.read path with
  | .ok text => pure text
  | .error problem => throw (.unreadable path problem)

/-- Reads a layout that was named on the command line. -/
def readLayout (files : FileAccess m) (path : String) : ExceptT Report m Document := do
  let text ← readNamed files path
  match Document.parse text with
  | .ok d => pure d
  | .error e => throw (.ofCompletionError (.malformed e))

/-- Lists the completions at a target. -/
def completeAt (files : FileAccess m) (project : Project) (target : String) :
    ExceptT Report m String := do
  match Target.parse? target with
  | none =>
    throw (.withHelp ("invalid target " ++ target) "expected <layout.xml>:<line>:<column>")
  | some t =>
    let text ← readNamed files t.path
    match t.position.toOffset? text.toList with
    | none => throw (.ofMessage (t.position.display ++ " is outside of " ++ t.path))
    | some offset =>
      match complete project.context text offset with
      | .ok l => pure l.lines
      | .error e => throw (.ofCompletionError e)

/-- Loads the project and lists the completions at a target. -/
def runComplete (files : FileAccess m) (project? : Option String) (target : String) :
    ExceptT Report m String :=
  match project? with
  | none => throw (.withHelp "no project file given" "pass --project <project.json>")
  | some path => do
    match ← (Project.load files path).run with
    | .error e => throw (.ofMessage e.message)
    | .ok project => completeAt files project target

/-- Reads the layouts that may be included. -/
def readLayouts (files : FileAccess m) (includes : List (String × String)) :
    ExceptT Report m Layouts := do
  let layouts ← includes.mapM fun (name, path) => do
    let d ← readLayout files path
    pure (name, d)
  pure (Dictionary.ofList layouts)

/-- Shows a layout with its included layouts. -/
def runTree (files : FileAccess m) (layout : String) (includes : List (String × String)) :
    ExceptT Report m String := do
  let layouts ← readLayouts files includes
  let d ← readLayout files layout
  match d.view? layouts with
  | some view => pure view.render
  | none => throw (.ofMessage (layout ++ " has no elements"))

/-- Runs a command that needs files. -/
def runCommand (command : ExceptT Report m String) : m Outcome := do
  match ← command.run with
  | .ok text => pure (.printed text)
  | .error report => pure (.failed report)

/-- Runs what the arguments say. -/
def runArguments (files : FileAccess m) (a : Arguments) : m Outcome :=
  match a.command with
  | .help => pure (.ofExit (Arguments.usageExit true ""))
  | .complete "" => pure (.failed (.withHelp "missing layout argument" usage))
  | .tree "" => pure (.failed (.withHelp "missing layout argument" usage))
  | .complete target => runCommand (runComplete files a.project target)
  | .tree layout => runCommand (runTree files layout a.includes)

/-- Runs the program. -/
def run (files : FileAccess m) (arguments : List String) : m Outcome :=
  match Arguments.parse arguments with
  | .error exit => pure (.ofExit exit)
  | .ok a => runArguments files a

end CommandLine

end LayoutCompletion
