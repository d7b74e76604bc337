import LayoutCompletion.Json.Decode

/-!
# Values

A value that was read without knowing what it should be. Objects keep all their members in the
order of the text. Values may be nested to a limit only.
-/

namespace LayoutCompletion.Json

/-- Any value. -/
inductive Value
  | scalar (value : Scalar)
  | array (items : List Value)
  | object (members : List (String × Value))

/-- How deeply arrays and objects may be nested, the ones around a value included. -/
def nestingLimit : Nat := 128

mutual

/-- Any value. It may hold arrays and objects nested less deeply than `depth`. -/
def readValue (depth : Nat) : Reader Value
  | .scalar value _ => value.map .scalar
  | .broken faults => .error faults.reading
  | .absent rest => .error (noValue rest)
  | .array rest items =>
    if depth ≤ 1 then .error (.onNext .tooDeep rest)
    else (readValues (depth - 1) items).map .array
  | .object rest members =>
    if depth ≤ 1 then .error (.onNext .tooDeep rest)
    else (readEntries (depth - 1) members).map .object

/-- Items of any kind. -/
def readValues (depth : Nat) : Items → Except Fault (List Value)
  | .unread => .ok []
  | .close _ => .ok []
  | .noComma rest => .error (noItemEnd rest)
  | .item rest value later => do
    checkItem rest
    let a ← readValue depth value
    let as ← readValues depth later
    pure (a :: as)

/-- Members of any kind. -/
def readEntries (depth : Nat) : Members → Except Fault (List (String × Value))
  | .unread => .ok []
  | .close _ => .ok []
  | .noComma rest => .error (noMemberEnd rest)
  | .comma _ later => readEntries depth later
  | .noKey rest => .error (noKeyFault rest)
  | .badKey faults => .error faults.reading
  | .noColon key behind => do
    let _ ← key
    .error (noColonFault behind)
  | .member key _ value later => do
    let key ← key.map String.ofList
    let a ← readValue depth value
    let as ← readEntries depth later
    pure ((key, a) :: as)

end

end LayoutCompletion.Json
