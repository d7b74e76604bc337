import LayoutCompletion.Json.Read

/-!
# Reading trees

A reader takes a tree for a value of one type, or says what is the first thing wrong with it:
either that the text is broken, or that another kind of value stands there. A value of another
kind is reported behind it, an array or object before it, since that has not been read yet.

`decodeText` reads a whole text, behind which nothing may be left.
-/

namespace LayoutCompletion.Json

/-- Reads a tree as a value of one type. -/
abbrev Reader (α : Type) := Tree → Except Fault α

/-- What is wrong with a value that ought to be of another kind. -/
def Tree.wrongKind (wanted : String) : Tree → Fault
  | .scalar (.ok value) behind => .here (.wrongKind (.scalar value) wanted) behind
  | .scalar (.error fault) _ => fault
  | .broken faults => faults.reading
  | .absent rest => noValue rest
  | .array rest _ => .here (.wrongKind .array wanted) rest
  | .object rest _ => .here (.wrongKind .object wanted) rest

/-- A string. -/
def readString : Reader String
  | .scalar (.ok (.string text)) _ => .ok (String.ofList text)
  | tree => .error (tree.wrongKind "a string")

/-- One of the two truth values. -/
def readBoolean : Reader Bool
  | .scalar (.ok (.boolean b)) _ => .ok b
  | tree => .error (tree.wrongKind "a boolean")

/-- A whole number that is not negative. -/
def readNatural : Reader Nat
  | .scalar (.ok (.integer (.ofNat n))) _ => .ok n
  | .scalar (.ok (.integer (.negSucc n))) behind =>
    .error (.here (.wrongValue (.scalar (.integer (.negSucc n))) "usize") behind)
  | tree => .error (tree.wrongKind "usize")

/-- Nothing, written as null, or what `read` reads. -/
def readOptional {α : Type} (read : Reader α) : Reader (Option α)
  | .scalar (.ok .null) _ => .ok none
  | tree => (read tree).map some

/-- What is wrong where an item ought to begin: a bracket that follows a comma. -/
def checkItem (rest : List Char) : Except Fault Unit :=
  if rest.head? = some ']' then .error (.onNext .commaAtEnd rest) else .ok ()

/-- All items, read one after the other. -/
def Items.readAll {α : Type} (read : Reader α) : Items → Except Fault (List α)
  | .unread => .ok []
  | .close _ => .ok []
  | .noComma rest => .error (noItemEnd rest)
  | .item rest value later => do
    checkItem rest
    let a ← read value
    let as ← later.readAll read
    pure (a :: as)

/-- An array of values of one type. -/
def readList {α : Type} (read : Reader α) : Reader (List α)
  | .array _ items => items.readAll read
  | tree => .error (tree.wrongKind "a sequence")

/-- What is wrong where a key ought to begin. A brace or the end of the text can only follow a
comma there. -/
def noKeyFault (rest : List Char) : Fault :=
  match rest with
  | [] => .here .endInValue []
  | c :: _ => .onNext (if c = '\x7d' then .commaAtEnd else .wantedKey) rest

/-- Behind the brace that may close an object here. -/
def behindBrace (rest : List Char) : List Char :=
  match rest with
  | '\x7d' :: behind => behind
  | _ => rest

/-- All members, read one after the other. The reader of the values is told the key, and where a
complaint about the whole of a value is placed. -/
def Members.readAll {α : Type} (read : (key : String) → (settled : List Char) → Reader α) :
    Members → Except Fault (List (String × α))
  | .unread => .ok []
  | .close _ => .ok []
  | .noComma rest => .error (noMemberEnd rest)
  | .comma _ later => later.readAll read
  | .noKey rest => .error (noKeyFault rest)
  | .badKey faults => .error faults.reading
  | .noColon key behind => do
    let _ ← key
    .error (noColonFault behind)
  | .member key _ value later => do
    let key ← key.map String.ofList
    let a ← read key later.settled value
    let as ← later.readAll read
    pure ((key, a) :: as)

/-- An object whose values are of one type, with all its keys in the order of the text. -/
def readObject {α : Type} (read : (key : String) → (settled : List Char) → Reader α) :
    Reader (List (String × α))
  | .object _ members => members.readAll read
  | tree => .error (tree.wrongKind "a map")

/-- Reads the value that a text holds. -/
def decodeText {α : Type} (read : Reader α) (text : List Char) : Except Fault α := do
  let (tree, rest) := Tree.ofText text
  let a ← read tree
  if rest.isEmpty then pure a else .error (.onNext .leftOver rest)

end LayoutCompletion.Json
