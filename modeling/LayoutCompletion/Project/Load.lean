import LayoutCompletion.Completion.Complete
import LayoutCompletion.Files.Basic
import LayoutCompletion.PathPattern.Rules
import LayoutCompletion.Project.Config
import LayoutCompletion.Resource.Decode
import LayoutCompletion.Text.Quoted
import LayoutCompletion.Widget.Decode

/-!
# Loading a project

A project is what its project file says and everything that the file refers to. The resource
tables are the files that the patterns pick, in the order of their paths. Loading stops at the
first thing that is wrong.
-/

namespace LayoutCompletion

/-- A project and what was loaded for it. -/
structure Project where
  /-- The directory of the project file. -/
  root : String
  config : Config
  widgets : WidgetIndex
  resources : ResourceRegistry
deriving DecidableEq, Repr

/-- What a file of a project holds. -/
inductive ProjectPart
  | project
  | widgets
  | table
deriving DecidableEq, Repr

/-- How a part is called when it cannot be used. -/
def ProjectPart.label : ProjectPart → String
  | project => "project file"
  | widgets => "widget table"
  | table => "resource table"

/-- Why a project could not be loaded. -/
inductive ProjectError
  /-- A file could not be read. -/
  | unreadable (part : ProjectPart) (path : String) (problem : FileProblem)
  /-- A file is not what it should be. -/
  | invalid (part : ProjectPart) (path : String) (text : List Char) (fault : Json.Fault)
  /-- One of the patterns is none. -/
  | badPattern (patterns : List String) (fault : PathPattern.RuleFault)
deriving DecidableEq, Repr

/-- What people read about it. -/
def ProjectError.message : ProjectError → String
  | unreadable .project path problem =>
    "could not read project file " ++ path ++ ": " ++ problem.message
  | unreadable _ path problem => "could not read " ++ path ++ ": " ++ problem.message
  | invalid part path text fault =>
    "invalid " ++ part.label ++ " " ++ path ++ ": " ++ fault.message text
  | badPattern patterns fault =>
    "bad resource pattern in " ++ Text.quotedList patterns ++ ": " ++ fault.message

namespace Project

variable {m : Type → Type} [Monad m]

/-- Reads a file of a project. -/
def loadFile {α : Type} (files : FileAccess m) (part : ProjectPart)
    (decode : List Char → Except Json.Fault α) (path : String) : ExceptT ProjectError m α := do
  match ← files.read path with
  | .error problem => throw (.unreadable part path problem)
  | .ok text =>
    match decode text.toList with
    | .error fault => throw (.invalid part path text.toList fault)
    | .ok a => pure a

/-- The paths of the files below `root` that patterns pick, in order. -/
def pickedPaths (rules : PathPattern.RuleSet) (root : String) (found : List (List String)) :
    List String :=
  ((found.filter (rules.picks root)).mergeSort pathLE).map fun components =>
    joinPath root ("/".intercalate components)

/-- Loads the tables that patterns pick. Without patterns no file is looked at. -/
def loadTables (files : FileAccess m) (root : String) (patterns : List String) :
    ExceptT ProjectError m ResourceRegistry :=
  if patterns.isEmpty then pure .empty
  else
    match PathPattern.RuleSet.parse patterns with
    | .error fault => throw (.badPattern patterns fault)
    | .ok rules => do
      let found ← files.filesBelow root
      let tables ← (pickedPaths rules root found).mapM
        (loadFile files .table ResourceTable.decode)
      pure (ResourceRegistry.ofTables tables)

/-- Loads the widget table, if there is one. -/
def loadWidgets (files : FileAccess m) (root : String) (path? : Option String) :
    ExceptT ProjectError m WidgetIndex :=
  match path? with
  | none => pure .empty
  | some path => loadFile files .widgets WidgetIndex.decode (joinPath root path)

/-- Loads the project with the project file at a path. -/
def load (files : FileAccess m) (path : String) : ExceptT ProjectError m Project := do
  let config ← loadFile files .project Config.decode path
  let root := directoryOf path
  let widgets ← loadWidgets files root config.widgets
  let resources ← loadTables files root (config.resources.getD [])
  pure ⟨root, config, widgets, resources⟩

end Project

/-- What completion requests read of a project. -/
def Project.context (p : Project) : CompletionContext :=
  ⟨p.widgets, p.resources, p.config.settings⟩

end LayoutCompletion
