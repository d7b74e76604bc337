import LayoutCompletion.Json.Record
import LayoutCompletion.Json.Value
import LayoutCompletion.Resource.Basic

/-!
# Resource tables as JSON

A table names its namespace and holds packages by name, a package holds entries by name. An entry
has one of two shapes: one value, for the default configuration, or values by configuration. A
value is an object with the kind of the value as its only key, so that no entry has both shapes.

An entry is read as a value of any kind first. If it has neither shape, nothing is said about
what is wrong inside.
-/

namespace LayoutCompletion

open Json

/-- The text of a string. -/
def stringOf? : Value → Option String
  | .scalar (.string text) => some (String.ofList text)
  | _ => none

/-- Nothing, written as null, or the text of a string. -/
def optionalStringOf? : Value → Option (Option String)
  | .scalar .null => some none
  | value => (stringOf? value).map some

/-- Why a value is no format. -/
inductive FormatFault
  /-- The text is none. -/
  | text (error : FormatError)
  /-- The value is no text. -/
  | wrongKind (found : Found)
deriving DecidableEq, Repr

/-- What people read about it. -/
def FormatFault.message : FormatFault → String
  | text error => error.message
  | wrongKind found =>
    (Cause.wrongKind found "a string value of `|` separated flags").describe

/-- The format that a string says. -/
def AttrFormat.ofValue : Value → Except FormatFault AttrFormat
  | .scalar (.string text) => (ofString (String.ofList text)).mapError .text
  | .scalar other => .error (.wrongKind (.scalar other))
  | .array _ => .error (.wrongKind .array)
  | .object _ => .error (.wrongKind .object)

/-- The format that a string says. -/
def formatOf? (value : Value) : Option AttrFormat :=
  (AttrFormat.ofValue value).toOption

namespace AttributeEntry

/-- The values of all members with a key. -/
def valuesOf (key : String) (members : List (String × Value)) : List Value :=
  members.filterMap fun (k, value) => if k = key then some value else none

/-- The attribute that three fields describe. The format may be left out, and the package may be
left out or null; then it is the one that the styleable is in. -/
def ofFields? (package : PackageName) (name : Value) (owner format : Option Value) :
    Option AttributeEntry := do
  let name ← stringOf? name
  let owner ← (owner.map optionalStringOf?).getD (some none)
  let format ← (format.map formatOf?).getD (some .empty)
  pure ⟨name, (owner.map Symbol.mk).getD package, format⟩

/-- The attribute that an object describes. No field may come twice; other keys do not matter. -/
def ofMembers? (package : PackageName) (members : List (String × Value)) :
    Option AttributeEntry :=
  match valuesOf "name" members, valuesOf "package" members, valuesOf "format" members with
  | [name], [], [] => ofFields? package name none none
  | [name], [owner], [] => ofFields? package name (some owner) none
  | [name], [], [format] => ofFields? package name none (some format)
  | [name], [owner], [format] => ofFields? package name (some owner) (some format)
  | _, _, _ => none

/-- The attribute that a value describes. In an array only the format may be left out. -/
def ofValue? (package : PackageName) : Value → Option AttributeEntry
  | .object members => ofMembers? package members
  | .array [name, owner] => ofFields? package name (some owner) none
  | .array [name, owner, format] => ofFields? package name (some owner) (some format)
  | _ => none

end AttributeEntry

namespace ResourceValue

/-- The value of a kind that stands for the kind's name. -/
def ofKind? (package : PackageName) (kind : String) (value : Value) : Option ResourceValue :=
  match kind with
  | "styleable" =>
    match value with
    | .array items =>
      (items.mapM (AttributeEntry.ofValue? package)).map fun attributes => .styleable ⟨attributes⟩
    | _ => none
  | "string" => (stringOf? value).map .string
  | "color" => (stringOf? value).map .color
  | "dimen" => (stringOf? value).map .dimen
  | _ => none

/-- The value that an object with one key describes. -/
def ofValue? (package : PackageName) : Value → Option ResourceValue
  | .object [(kind, value)] => ofKind? package kind value
  | _ => none

end ResourceValue

namespace ResourceEntry

/-- Values with their configurations, in written order. -/
abbrev Settings := List (String × ResourceValue)

/-- The shape with one value. -/
def single? (package : PackageName) (value : Value) : Option Settings :=
  (ResourceValue.ofValue? package value).map fun v => [(defaultConfiguration, v)]

/-- The shape with values by configuration. -/
def configured? (package : PackageName) : Value → Option Settings
  | .object members =>
    members.mapM fun (configuration, value) =>
      (ResourceValue.ofValue? package value).map fun v => (configuration, v)
  | _ => none

/-- The settings of an entry of either shape. -/
def settingsOf? (package : PackageName) (value : Value) : Option Settings :=
  (single? package value).or (configured? package value)

end ResourceEntry

namespace Package

/-- Gives an entry its values one after the other. -/
def insertAll (p : Package) (name : String) (settings : ResourceEntry.Settings) : Package :=
  settings.foldl (fun p (configuration, value) => p.insert name configuration value) p

/-- The package with these entries. Of two entries with one name the later holds. -/
def ofEntries (name : PackageName) (entries : List (String × ResourceEntry.Settings)) : Package :=
  (Dictionary.ofList entries).entries.foldl
    (fun p (entry, settings) => p.insertAll entry settings) (Package.empty name)

end Package

namespace ResourceTable

/-- The table with these packages. Of two packages with one name the later holds. -/
def ofPackages (namespaceUri : String) (packages : List Package) : ResourceTable :=
  packages.foldl insert (empty namespaceUri)

/-- How many objects an entry is inside of. -/
def entryDepth : Nat := 3

/-- Reads an entry of a package. -/
def readEntry (package : PackageName) (settled : List Char) : Reader ResourceEntry.Settings :=
  fun tree => do
    let value ← readValue (nestingLimit - entryDepth) tree
    match ResourceEntry.settingsOf? package value with
    | some settings => pure settings
    | none => .error (.here (.noShape "RawEntry") settled)

/-- Reads the packages of a table. -/
def readPackages : Reader (List Package) := fun tree => do
  let packages ← readObject (fun name _ => readObject fun _ => readEntry ⟨name⟩) tree
  pure (packages.map fun (name, entries) => Package.ofEntries ⟨name⟩ entries)

/-- What has been met of a table. -/
structure Slots where
  namespaceUri : Option String
  packages : Option (List Package)

/-- How a table is written. -/
def record : Record Slots ResourceTable where
  name := "RawTable"
  fields := [
    { name := "namespace"
      required := true
      isSet := fun slots => slots.namespaceUri.isSome
      read := fun slots tree => do
        let uri ← readString tree
        pure { slots with namespaceUri := some uri } },
    { name := "packages"
      required := false
      isSet := fun slots => slots.packages.isSome
      read := fun slots tree => do
        let packages ← readPackages tree
        pure { slots with packages := some packages } }]
  start := ⟨none, none⟩
  finish := fun slots =>
    match slots.namespaceUri with
    | none => .error "namespace"
    | some uri => .ok (ofPackages uri (slots.packages.getD []))

/-- The table that a text describes. -/
def decode (text : List Char) : Except Fault ResourceTable :=
  decodeText record.read text

end ResourceTable

end LayoutCompletion
