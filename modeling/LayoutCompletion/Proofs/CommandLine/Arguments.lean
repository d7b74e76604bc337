import LayoutCompletion.CommandLine.Arguments
import Mathlib.Data.List.Basic
import Mathlib.Logic.Relation

/-!
# Options among other arguments

Arguments are put together from pieces of one or two of them: the name of a command, what the
command is about, and options with their values (`Piece`). A piece at the front is read as what it
is, whatever stands behind it (`parseFrom_words`). So the value of an option may look like a command
or like an option.

All pieces together say what those of each kind say, in their order (`parseFrom_written`). So pieces
of different kinds may change places (`parse_written_congr`), and options may stand anywhere
(`parse_written`).
-/

namespace LayoutCompletion

namespace Arguments

/-! ## Pieces -/

/-- The words that name a command. -/
inductive CommandName
  | complete
  | tree
deriving DecidableEq

/-- The word itself. -/
def CommandName.text : CommandName → String
  | complete => "complete"
  | tree => "tree"

/-- The command of that name with an argument of its own. -/
def CommandName.command : CommandName → String → Command
  | complete => .complete
  | tree => .tree

/-- A word that can be a command's own argument: it does not begin with a hyphen and names no
command. -/
structure IsOperand (text : String) : Prop where
  head?_ne : text.toList.head? ≠ some '-'
  ne_name : ∀ name : CommandName, text ≠ name.text

/--
What arguments are put together from.

* `command`: the name of a command.
* `operand`: the argument that belongs to a command.
* `project`: the option for the project file, in its short or its long form, with any value.
* `layout`: the option for an included layout, with any value that has an equals sign.
* `json`: the option for a log in JSON.
-/
inductive Piece
  | command (name : CommandName)
  | operand (text : String) (h : IsOperand text)
  | project (short : Bool) (path : String)
  | layout (argument : String) (h : '=' ∈ argument.toList)
  | json
deriving DecidableEq

/-- What a piece is about. -/
inductive Kind
  | command
  | project
  | layout
  | log
deriving DecidableEq

/-- What stands before the first equals sign of a text and what stands behind it. -/
def atEquals (argument : String) : String × String :=
  (String.ofList (argument.toList.takeWhile (· ≠ '=')),
    String.ofList (argument.toList.dropWhile (· ≠ '=')).tail)

namespace Piece

/-- The arguments of a piece. -/
def words : Piece → List String
  | command name => [name.text]
  | operand text _ => [text]
  | project short path => [if short then "-p" else "--project", path]
  | layout argument _ => ["--include", argument]
  | json => ["--log-format", "json"]

/-- A command's own argument belongs to the command, and all other pieces are options. -/
def kind : Piece → Kind
  | command _ => .command
  | operand _ _ => .command
  | project _ _ => .project
  | layout _ _ => .layout
  | json => .log

/-- The project file that is given, if any. -/
def project? : Piece → Option String
  | project _ path => some path
  | _ => none

/-- The layout that is included, if any, and the path of its file. -/
def included? : Piece → Option (String × String)
  | layout argument _ => some (atEquals argument)
  | _ => none

end Piece

/-- The arguments of all pieces. -/
def written (pieces : List Piece) : List String :=
  pieces.flatMap Piece.words

end Arguments

open Arguments in
/-- The command behind one more piece. A command takes no more than one argument. -/
def Command.read (command : Command) : Piece → Except EarlyExit Command
  | .command name => .ok (name.command "")
  | .operand text _ =>
    match command.withArgument? text with
    | some command => .ok command
    | none => .error (usageExit false ("unexpected argument " ++ text ++ "\n\n"))
  | _ => .ok command

namespace Arguments

/-- What the arguments say behind one more piece that is not about the command. -/
def record (a : Arguments) : Piece → Arguments
  | .project _ path => { a with project := some path }
  | .layout argument _ => { a with includes := a.includes ++ [atEquals argument] }
  | .json => { a with logFormat := .json }
  | _ => a

/-- What the arguments say behind some more pieces, which make the command what is given. -/
def behind (a : Arguments) (pieces : List Piece) (command : Command) : Arguments where
  project := (pieces.filterMap Piece.project?).getLast?.or a.project
  includes := a.includes ++ pieces.filterMap Piece.included?
  logFormat := if .json ∈ pieces then .json else a.logFormat
  command := command

variable {a : Arguments} {pieces pieces' : List Piece} {text argument : String}

/-! ## Reading pieces -/

theorem splitInclude?_of_mem (h : '=' ∈ argument.toList) :
    splitInclude? argument = some (atEquals argument) := by
  rw [splitInclude?, Text.splitFirst?_of_mem h]
  rfl

/-- What a command may be about is never read as anything else. -/
theorem parseFrom_operand (a : Arguments) (h : IsOperand text) (rest : List String) :
    a.parseFrom (text :: rest) =
      (a.command.read (.operand text h)).bind fun command =>
        parseFrom { a with command := command } rest := by
  have hoption : ∀ option : String, option.toList.head? = some '-' → text ≠ option := by
    rintro _ hhead rfl
    exact h.head?_ne hhead
  rw [parseFrom, if_neg]
  · unfold Command.read
    dsimp only
    cases a.command.withArgument? text <;> rfl
  · exact fun hhead => h.head?_ne (of_decide_eq_true hhead)
  · exact h.ne_name .complete
  · exact h.ne_name .tree
  · exact fun _ _ hname _ => hoption "-p" (by decide) hname
  · exact fun _ _ hname _ => hoption "--project" (by decide) hname
  · exact fun _ _ hname _ => hoption "--include" (by decide) hname
  · exact fun _ hname _ => hoption "--log-format" (by decide) hname
  · exact hoption "-h" (by decide)
  · exact hoption "--help" (by decide)
  · exact hoption "-v" (by decide)
  · exact hoption "--version" (by decide)

/-- A piece at the front is read as what it is, whatever stands behind it. -/
theorem parseFrom_words (a : Arguments) (piece : Piece) (rest : List String) :
    a.parseFrom (piece.words ++ rest) =
      (a.command.read piece).bind fun command =>
        parseFrom { a.record piece with command := command } rest := by
  cases piece with
  | command name => cases name <;> rfl
  | operand text h => exact parseFrom_operand a h rest
  | project short path => cases short <;> rfl
  | layout argument h =>
    rw [Piece.words, List.cons_append, List.singleton_append, parseFrom, splitInclude?_of_mem h]
    rfl
  | json => rfl

theorem behind_nil (a : Arguments) : a.behind [] a.command = a := by
  rw [behind, List.filterMap_nil, List.filterMap_nil, List.append_nil]
  rfl

/-- What a piece says is kept, unless a later one of its kind says otherwise. -/
theorem behind_cons (a : Arguments) (piece : Piece) (pieces : List Piece) (command : Command) :
    behind { a.record piece with command := command } pieces = a.behind (piece :: pieces) := by
  funext command'
  cases piece <;>
    simp [behind, record, List.filterMap_cons, Piece.project?, Piece.included?, List.getLast?_cons]

/-- All pieces are read, unless there is an argument too many for the commands. -/
theorem parseFrom_written (a : Arguments) (pieces : List Piece) :
    a.parseFrom (written pieces) =
      (pieces.foldlM Command.read a.command).map (a.behind pieces) := by
  induction pieces generalizing a with
  | nil =>
    rw [List.foldlM_nil]
    exact congrArg Except.ok (behind_nil a).symm
  | cons piece pieces ih =>
    rw [written, List.flatMap_cons, parseFrom_words, List.foldlM_cons]
    cases a.command.read piece with
    | error e => rfl
    | ok command =>
      rw [← behind_cons a piece pieces command]
      exact ih _

/-! ## Kinds of pieces -/

/-- The pieces of one kind, in the order in which they stand. -/
def ofKind (kind : Kind) (pieces : List Piece) : List Piece :=
  pieces.filter (·.kind = kind)

theorem ofKind_cons (kind : Kind) (piece : Piece) (pieces : List Piece) :
    ofKind kind (piece :: pieces) =
      if piece.kind = kind then piece :: ofKind kind pieces else ofKind kind pieces := by
  simp only [ofKind, List.filter_cons, decide_eq_true_iff]

theorem filterMap_ofKind {α : Type} {f : Piece → Option α} {kind : Kind}
    (h : ∀ piece : Piece, piece.kind ≠ kind → f piece = none) (pieces : List Piece) :
    (ofKind kind pieces).filterMap f = pieces.filterMap f := by
  rw [ofKind, List.filterMap_filter]
  refine List.filterMap_congr fun piece _ => ?_
  by_cases hkind : piece.kind = kind
  · rw [if_pos (decide_eq_true hkind)]
  · rw [if_neg (mt of_decide_eq_true hkind), h piece hkind]

theorem filterMap_project?_ofKind (pieces : List Piece) :
    (ofKind .project pieces).filterMap Piece.project? = pieces.filterMap Piece.project? := by
  refine filterMap_ofKind (fun piece hkind => ?_) pieces
  cases piece with
  | project short path => exact absurd rfl hkind
  | _ => rfl

theorem filterMap_included?_ofKind (pieces : List Piece) :
    (ofKind .layout pieces).filterMap Piece.included? = pieces.filterMap Piece.included? := by
  refine filterMap_ofKind (fun piece hkind => ?_) pieces
  cases piece with
  | layout argument h => exact absurd rfl hkind
  | _ => rfl

theorem json_mem_ofKind (pieces : List Piece) : .json ∈ ofKind .log pieces ↔ .json ∈ pieces := by
  simp [ofKind, Piece.kind]

/-- Options leave the command as it is. -/
theorem read_of_kind_ne {piece : Piece} (command : Command) (h : piece.kind ≠ .command) :
    command.read piece = .ok command := by
  cases piece with
  | command name => exact absurd rfl h
  | operand text htext => exact absurd rfl h
  | _ => rfl

/-- The command is made from the pieces of its kind alone. -/
theorem foldlM_ofKind_command (command : Command) (pieces : List Piece) :
    (ofKind .command pieces).foldlM Command.read command =
      pieces.foldlM Command.read command := by
  induction pieces generalizing command with
  | nil => rfl
  | cons piece pieces ih =>
    rw [ofKind_cons, List.foldlM_cons]
    split
    · rw [List.foldlM_cons]
      exact bind_congr ih
    · next hkind =>
      rw [read_of_kind_ne command hkind, ih]
      rfl

theorem behind_congr (a : Arguments) (h : ∀ kind : Kind, ofKind kind pieces = ofKind kind pieces') :
    a.behind pieces = a.behind pieces' := by
  have hproject : pieces.filterMap Piece.project? = pieces'.filterMap Piece.project? := by
    rw [← filterMap_project?_ofKind, h, filterMap_project?_ofKind]
  have hincluded : pieces.filterMap Piece.included? = pieces'.filterMap Piece.included? := by
    rw [← filterMap_included?_ofKind, h, filterMap_included?_ofKind]
  have hjson : .json ∈ pieces ↔ .json ∈ pieces' := by
    rw [← json_mem_ofKind, h, json_mem_ofKind]
  funext command
  simp only [behind, hproject, hincluded, hjson]

/-- What the pieces say depends on the rows that those of one kind stand in, and not on how these
rows are mixed. -/
theorem parse_written_congr (h : ∀ kind : Kind, ofKind kind pieces = ofKind kind pieces') :
    parse (written pieces) = parse (written pieces') := by
  rw [parse, parse, parseFrom_written, parseFrom_written, behind_congr _ h,
    ← foldlM_ofKind_command, h, foldlM_ofKind_command]

/-- Two pieces of different kinds that stand next to each other change places. -/
inductive Swaps : List Piece → List Piece → Prop
  | swap (front rest : List Piece) {p q : Piece} (h : p.kind ≠ q.kind) :
      Swaps (front ++ p :: q :: rest) (front ++ q :: p :: rest)

/-- The order within a kind stays as it is. -/
theorem Swaps.ofKind_eq (h : Swaps pieces pieces') (kind : Kind) :
    ofKind kind pieces = ofKind kind pieces' := by
  obtain @⟨front, rest, p, q, hne⟩ := h
  induction front with
  | nil =>
    simp only [List.nil_append, ofKind_cons]
    split
    · next hp =>
      have hq : q.kind ≠ kind := fun hq => hne (hp.trans hq.symm)
      rw [if_neg hq, if_neg hq]
    · rfl
  | cons piece front ih => rw [List.cons_append, List.cons_append, ofKind_cons, ofKind_cons, ih]

theorem ofKind_of_swaps (h : Relation.ReflTransGen Swaps pieces pieces') (kind : Kind) :
    ofKind kind pieces = ofKind kind pieces' := by
  induction h with
  | refl => rfl
  | tail _ hlast ih => exact ih.trans (hlast.ofKind_eq kind)

/--
**Options may stand anywhere.**

If a command is named and its argument stands somewhere behind that, all arguments are read, with
any options before, between and behind these two. The last option for the project file counts, and
layouts are included in written order. If pieces of different kinds change places, this makes no
difference.
-/
theorem parse_written (name : CommandName) (htext : IsOperand text)
    (hpieces : ofKind .command pieces = [.command name, .operand text htext]) :
    parse (written pieces) = .ok
      { project := (pieces.filterMap Piece.project?).getLast?
        includes := pieces.filterMap Piece.included?
        logFormat := if .json ∈ pieces then .json else .compact
        command := name.command text } ∧
    ∀ pieces', Relation.ReflTransGen Swaps pieces pieces' →
      parse (written pieces') = parse (written pieces) := by
  have hcommand : pieces.foldlM Command.read Command.help = .ok (name.command text) := by
    rw [← foldlM_ofKind_command, hpieces]
    cases name <;> rfl
  refine ⟨?_, fun pieces' hswaps => (parse_written_congr (ofKind_of_swaps hswaps)).symm⟩
  rw [parse, parseFrom_written, default, hcommand, Except.map, behind, Option.or_none,
    List.nil_append]

theorem isOperand_mainTarget : IsOperand "main.xml:3:9" where
  head?_ne := by decide
  ne_name name := by cases name <;> decide

/-- Options with values that look like commands and options. -/
def disguised : List Piece :=
  [.project true "tree", .layout "-h=tree=complete" (by decide), .command .complete,
    .project false "--include", .operand "main.xml:3:9" isOperand_mainTarget, .json]

theorem parse_written_disguised :
    ofKind .command disguised =
        [.command .complete, .operand "main.xml:3:9" isOperand_mainTarget] ∧
      parse ["-p", "tree", "--include", "-h=tree=complete", "complete", "--project", "--include",
          "main.xml:3:9", "--log-format", "json"] = .ok
        ⟨some "--include", [("-h", "tree=complete")], .json, .complete "main.xml:3:9"⟩ ∧
      parse ["-p", "tree", "complete", "--include", "-h=tree=complete", "--project", "--include",
          "--log-format", "json", "main.xml:3:9"] =
        parse (written disguised) := by
  have hpieces : ofKind .command disguised =
      [.command .complete, .operand "main.xml:3:9" isOperand_mainTarget] := by decide
  obtain ⟨hall, hswaps⟩ := parse_written .complete isOperand_mainTarget hpieces
  refine ⟨hpieces, hall, hswaps
    [.project true "tree", .command .complete, .layout "-h=tree=complete" (by decide),
      .project false "--include", .json, .operand "main.xml:3:9" isOperand_mainTarget] ?_⟩
  refine .tail (.single (.swap [.project true "tree"] _ (by decide))) ?_
  exact .swap [.project true "tree", .command .complete, .layout "-h=tree=complete" (by decide),
      .project false "--include"] [] (by decide)

end Arguments

end LayoutCompletion
