import LayoutCompletion.Json.Decode

/-!
# Records

A record is written as an object with the names of its fields as keys, or as an array with the
fields in their order. Keys that name no field are skipped, a field that is named twice is a
fault. While a record is read, the fields that have been met are kept in slots.
-/

namespace LayoutCompletion.Json

/-- A field of a record that is kept in the slots `σ` while it is read. -/
structure Field (σ : Type) where
  name : String
  /-- Must an array have an item for the field? -/
  required : Bool
  /-- Has the field been met? -/
  isSet : σ → Bool
  /-- Reads the field and puts it into its slot. -/
  read : σ → Reader σ

/-- How a record of type `α` is read. -/
structure Record (σ α : Type) where
  name : String
  fields : List (Field σ)
  /-- No field has been met. -/
  start : σ
  /-- The record, or the name of the first field that is missing. -/
  finish : σ → Except String α

namespace Record

variable {σ α : Type}

/-- The field that a key names, which must not have been met before. A complaint is placed behind
the key. -/
def fieldOfKey (r : Record σ α) (slots : σ) (behind : List Char) (key : List Char) :
    Except Fault (Option (Field σ)) :=
  match r.fields.find? (·.name.toList = key) with
  | none => .ok none
  | some field =>
    if field.isSet slots then .error (.here (.repeatedField field.name) (behindBrace behind))
    else .ok (some field)

/-- The slots after all members, and what is left behind the object. -/
def readMembers (r : Record σ α) (slots : σ) : Members → Except Fault (σ × List Char)
  | .unread => .ok (slots, [])
  | .close behind => .ok (slots, behind)
  | .noComma rest => .error (noMemberEnd rest)
  | .comma _ later => r.readMembers slots later
  | .noKey rest => .error (noKeyFault rest)
  | .badKey faults => .error faults.reading
  | .noColon key behind => do
    let _ ← r.fieldOfKey slots behind (← key)
    .error (noColonFault behind)
  | .member key behind value later => do
    match ← r.fieldOfKey slots behind (← key) with
    | some field => r.readMembers (← field.read slots value) later
    | none =>
      value.skip
      r.readMembers slots later

/-- What is wrong if anything but the bracket follows the items of all fields. -/
def checkEnd : Items → Except Fault Unit
  | .unread => .ok ()
  | .close _ => .ok ()
  | .noComma rest => .error (.onNextOr .endInArray .leftOver rest)
  | .item rest _ _ => do
    checkItem rest
    .error (.onNext .leftOver rest)

/-- What is wrong if the items end before the field that has this number. -/
def checkMissing (r : Record σ α) (number : Nat) (field : Field σ) (behind : List Char) :
    Except Fault Unit :=
  if field.required then
    .error (.here (.wrongLength number r.name r.fields.length) behind)
  else .ok ()

/-- The slots after the items for these fields, of which the first has this number. -/
def readItems (r : Record σ α) (number : Nat) (slots : σ) :
    List (Field σ) → Items → Except Fault σ
  | [], items => (checkEnd items).map fun _ => slots
  | field :: fields, .close behind => do
    r.checkMissing number field behind
    r.readItems (number + 1) slots fields (.close behind)
  | _ :: _, .unread => .ok slots
  | _ :: _, .noComma rest => .error (noItemEnd rest)
  | field :: fields, .item rest value later => do
    checkItem rest
    r.readItems (number + 1) (← field.read slots value) fields later

/-- The record in these slots. A complaint is placed behind it. -/
def build (r : Record σ α) (slots : σ) (behind : List Char) : Except Fault α :=
  match r.finish slots with
  | .ok a => .ok a
  | .error name => .error (.here (.missingField name) behind)

/-- Reads the record. -/
def read (r : Record σ α) : Reader α
  | .object _ members => do
    let (slots, behind) ← r.readMembers r.start members
    r.build slots behind
  | .array _ items => do
    let slots ← r.readItems 0 r.start r.fields items
    r.build slots []
  | tree => .error (tree.wrongKind ("struct " ++ r.name))

end Record

end LayoutCompletion.Json
