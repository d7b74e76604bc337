import LayoutCompletion.Json.Record
import LayoutCompletion.Widget.Basic

/-!
# Widget classes as JSON

A widget table is an array of classes. A class has a qualified name and may name classes that it
extends.
-/

namespace LayoutCompletion

open Json

/-- What has been met of a widget class. -/
structure Widget.Slots where
  qualifiedName : Option String
  superclasses : Option (List String)

/-- How a widget class is written. -/
def Widget.record : Record Widget.Slots Widget where
  name := "RawWidget"
  fields := [
    { name := "qualified_name"
      required := true
      isSet := fun slots => slots.qualifiedName.isSome
      read := fun slots tree => do
        let name ← readString tree
        pure { slots with qualifiedName := some name } },
    { name := "superclasses"
      required := false
      isSet := fun slots => slots.superclasses.isSome
      read := fun slots tree => do
        let names ← readList readString tree
        pure { slots with superclasses := some names } }]
  start := ⟨none, none⟩
  finish := fun slots =>
    match slots.qualifiedName with
    | none => .error "qualified_name"
    | some name => .ok ⟨name, slots.superclasses.getD []⟩

/-- The index of the classes that a text describes. -/
def WidgetIndex.decode (text : List Char) : Except Fault WidgetIndex :=
  decodeText (fun tree => (readList Widget.record.read tree).map WidgetIndex.ofList) text

end LayoutCompletion
