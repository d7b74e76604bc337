import LayoutCompletion.Text.Split

/-!
# Arguments of the command line

Arguments are read from first to last. Options may stand anywhere; a command may be followed by
one argument of its own. Reading ends early if help or the version is asked for, or if an argument
makes no sense.
-/

namespace LayoutCompletion

/-- How the program is used. -/
def usage : String := "\n".intercalate [
  "layout-attrs: attribute completions for Android layout XML",
  "",
  "USAGE:",
  "\tlayout-attrs complete --project <project.json> <layout.xml>:<line>:<column>",
  "\tlayout-attrs tree <layout.xml> [--include <name>=<layout.xml>]...",
  "",
  "OPTIONS:",
  "\t-p, --project <path>       Project file naming the widget table and resource tables",
  "\t    --include <name>=<path>",
  "\t                           Layout to splice in for <include layout=\x22@layout/name\x22/>",
  "\t    --log-format json      Emit logs as JSON lines",
  "\t-v, --version              Print version information",
  "\t-h, --help                 Print this message",
  "",
  "Logging is controlled through RUST_LOG, e.g. RUST_LOG=layout_attrs=debug.",
  "Lines and columns are 1-based; the column is counted in characters."]

/-- The version of the program, and the revision that it was built from. -/
def version : String := "layout-attrs v0.3.0 git:unknown"

/-- What the program is asked to do. -/
inductive Command
  | help
  /-- List the completions at a place in a layout. -/
  | complete (target : String)
  /-- Show a layout with its included layouts. -/
  | tree (layout : String)
deriving DecidableEq, Repr

/-- The command with an argument of its own, if it still takes one. -/
def Command.withArgument? (argument : String) : Command → Option Command
  | .complete "" => some (.complete argument)
  | .tree "" => some (.tree argument)
  | _ => none

/-- How the log is written. -/
inductive LogFormat
  | compact
  | json
deriving DecidableEq, Repr

/-- What the arguments say. -/
structure Arguments where
  project : Option String
  /-- Names of layouts and the paths of their files, in written order. -/
  includes : List (String × String)
  logFormat : LogFormat
  command : Command
deriving DecidableEq, Repr

/-- Reading the arguments ends the program. -/
structure EarlyExit where
  succeeds : Bool
  /-- What people read about it. -/
  text : String
deriving DecidableEq, Repr

namespace Arguments

/-- What holds if nothing is said. -/
def default : Arguments := ⟨none, [], .compact, .help⟩

/-- The text of an argument of `--include` on either side of its first equals sign. -/
def splitInclude? (argument : String) : Option (String × String) :=
  (Text.splitFirst? '=' argument.toList).map fun (name, path) =>
    (String.ofList name, String.ofList path)

/-- Does the argument look like an option? -/
def isOption (argument : String) : Bool :=
  argument.toList.head? = some '-'

/-- Tells how the program is used, and leaves a blank line behind that. -/
def usageExit (succeeds : Bool) (opening : String) : EarlyExit :=
  ⟨succeeds, opening ++ usage ++ "\n"⟩

/-- Reads the arguments that are left. -/
def parseFrom (a : Arguments) : List String → Except EarlyExit Arguments
  | [] => .ok a
  | "complete" :: rest => parseFrom { a with command := .complete "" } rest
  | "tree" :: rest => parseFrom { a with command := .tree "" } rest
  | "-p" :: path :: rest => parseFrom { a with project := some path } rest
  | "--project" :: path :: rest => parseFrom { a with project := some path } rest
  | "--include" :: argument :: rest =>
    match splitInclude? argument with
    | some pair => parseFrom { a with includes := a.includes ++ [pair] } rest
    | none => .error ⟨false, "--include expects <name>=<path>, got " ++ argument⟩
  | "--log-format" :: "json" :: rest => parseFrom { a with logFormat := .json } rest
  | "-h" :: _ => .error (usageExit true "")
  | "--help" :: _ => .error (usageExit true "")
  | "-v" :: _ => .error ⟨true, version⟩
  | "--version" :: _ => .error ⟨true, version⟩
  | argument :: rest =>
    if isOption argument then .error (usageExit false "")
    else
      match a.command.withArgument? argument with
      | some command => parseFrom { a with command := command } rest
      | none => .error (usageExit false ("unexpected argument " ++ argument ++ "\n\n"))

/-- Reads all arguments. -/
def parse (arguments : List String) : Except EarlyExit Arguments :=
  default.parseFrom arguments

end Arguments

end LayoutCompletion
