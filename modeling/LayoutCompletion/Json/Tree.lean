import LayoutCompletion.Json.Fault

/-!
# JSON as far as it can be read

A `Tree` is a JSON value together with everything that is wrong with it, each fault in its place.
Reading a text into a tree never fails; it stops where the text is broken for everyone. What is
wrong for the sake of one reader only, such as a number that is too large, does not stop it. So a
reader of trees meets faults in the order of the text, and its own complaints in between.

`Tree.skip` is the reader that wants to know nothing but where the value ends.
-/

namespace LayoutCompletion.Json

mutual

/-- A value as far as it can be read. -/
inductive Tree
  /-- A value without parts, and what is left behind it. -/
  | scalar (value : Except Fault Scalar) (behind : List Char)
  /-- A value that breaks off. -/
  | broken (faults : Broken)
  /-- No value begins at what is left here. -/
  | absent (rest : List Char)
  /-- An array; `rest` begins with its bracket. -/
  | array (rest : List Char) (items : Items)
  /-- An object; `rest` begins with its brace. -/
  | object (rest : List Char) (members : Members)

/-- What follows the opening bracket of an array, or an item of it. -/
inductive Items
  /-- Unknown, because the item before breaks off. -/
  | unread
  /-- The closing bracket, and what is left behind it. -/
  | close (behind : List Char)
  /-- Neither bracket nor comma. -/
  | noComma (rest : List Char)
  /-- An item that begins at what is left in `rest`, and what follows it. -/
  | item (rest : List Char) (value : Tree) (later : Items)

/-- What follows the opening brace of an object, or a comma or a member in it. -/
inductive Members
  /-- Unknown, because the member before breaks off. -/
  | unread
  /-- The closing brace, and what is left behind it. -/
  | close (behind : List Char)
  /-- Neither brace nor comma. -/
  | noComma (rest : List Char)
  /-- A comma at the front of `rest`, and what follows it. -/
  | comma (rest : List Char) (later : Members)
  /-- No key begins at what is left here. -/
  | noKey (rest : List Char)
  /-- A key that breaks off. -/
  | badKey (faults : Broken)
  /-- A key without a colon; `behind` is left behind the key. -/
  | noColon (key : Except Fault (List Char)) (behind : List Char)
  /-- A key, what is left behind it, its value and what follows. -/
  | member (key : Except Fault (List Char)) (behind : List Char) (value : Tree) (later : Members)

end

/-- What is wrong where no value begins. -/
def noValue (rest : List Char) : Fault :=
  .onNextOr .endInValue .wantedValue rest

/-- What is wrong where an array ought to go on. -/
def noItemEnd (rest : List Char) : Fault :=
  .onNextOr .endInArray .wantedItemEnd rest

/-- What is wrong where an object ought to go on. -/
def noMemberEnd (rest : List Char) : Fault :=
  .onNextOr .endInObject .wantedMemberEnd rest

/-- What is wrong where a colon ought to stand. -/
def noColonFault (rest : List Char) : Fault :=
  .onNextOr .endInObject .wantedColon rest

mutual

/-- What is wrong with a value for a reader that skips it. -/
def Tree.skip : Tree → Except Fault Unit
  | .scalar _ _ => .ok ()
  | .broken faults => .error faults.skipping
  | .absent rest => .error (noValue rest)
  | .array _ items => items.skip
  | .object _ members => members.skip

/-- What is wrong with the items for a reader that skips them. -/
def Items.skip : Items → Except Fault Unit
  | .unread => .ok ()
  | .close _ => .ok ()
  | .noComma rest => .error (noItemEnd rest)
  | .item _ value later =>
    match value.skip with
    | .error fault => .error fault
    | .ok () => later.skip

/-- What is wrong with the members for a reader that skips them. -/
def Members.skip : Members → Except Fault Unit
  | .unread => .ok ()
  | .close _ => .ok ()
  | .noComma rest => .error (noMemberEnd rest)
  | .comma _ later => later.skip
  | .noKey rest => .error (.onNextOr .endInObject .wantedKey rest)
  | .badKey faults => .error faults.skipping
  | .noColon _ behind => .error (noColonFault behind)
  | .member _ _ value later =>
    match value.skip with
    | .error fault => .error fault
    | .ok () => later.skip

end

/-- Where a complaint about the member before is placed: behind the brace if it follows, and
before anything else. -/
def Members.settled : Members → List Char
  | .unread => []
  | .close behind => behind
  | .noComma rest => rest
  | .comma rest _ => rest
  | .noKey rest => rest
  | .badKey faults => faults.reading.rest
  | .noColon _ behind => behind
  | .member _ behind _ _ => behind

end LayoutCompletion.Json
