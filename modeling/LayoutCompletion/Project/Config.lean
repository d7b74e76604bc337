import LayoutCompletion.Completion.Ranking
import LayoutCompletion.Json.Record

/-!
# Project files

A project file says where the widget table and the resource tables are, and how completions are
listed. All of it may be left out or null in an object.
-/

namespace LayoutCompletion

open Json

/-- What has been met of the settings of completions. -/
structure CompletionSettings.Slots where
  limit : Option Nat
  dedup : Option Bool
  skipExisting : Option Bool

/-- How the settings of completions are written. What is left out has its default. -/
def CompletionSettings.record : Record CompletionSettings.Slots CompletionSettings where
  name := "CompletionsConfig"
  fields := [
    { name := "limit"
      required := false
      isSet := fun slots => slots.limit.isSome
      read := fun slots tree => do
        let limit ← readNatural tree
        pure { slots with limit := some limit } },
    { name := "dedup"
      required := false
      isSet := fun slots => slots.dedup.isSome
      read := fun slots tree => do
        let dedup ← readBoolean tree
        pure { slots with dedup := some dedup } },
    { name := "skip_existing"
      required := false
      isSet := fun slots => slots.skipExisting.isSome
      read := fun slots tree => do
        let skipExisting ← readBoolean tree
        pure { slots with skipExisting := some skipExisting } }]
  start := ⟨none, none, none⟩
  finish := fun slots => .ok
    { limit := slots.limit.getD default.limit
      dedup := slots.dedup.getD default.dedup
      skipExisting := slots.skipExisting.getD default.skipExisting }

/-- The settings of completions that a text describes. -/
def CompletionSettings.decode (text : List Char) : Except Fault CompletionSettings :=
  decodeText record.read text

/-- What a project file says. Paths are relative to the file. -/
structure Config where
  /-- The widget table. -/
  widgets : Option String
  /-- Patterns for the paths of the resource tables. -/
  resources : Option (List String)
  completions : Option CompletionSettings
deriving DecidableEq, Repr

namespace Config

/-- What has been met of a project file. -/
structure Slots where
  widgets : Option (Option String)
  resources : Option (Option (List String))
  completions : Option (Option CompletionSettings)

/-- How a project file is written. -/
def record : Record Slots Config where
  name := "Config"
  fields := [
    { name := "widgets"
      required := true
      isSet := fun slots => slots.widgets.isSome
      read := fun slots tree => do
        let widgets ← readOptional readString tree
        pure { slots with widgets := some widgets } },
    { name := "resources"
      required := true
      isSet := fun slots => slots.resources.isSome
      read := fun slots tree => do
        let resources ← readOptional (readList readString) tree
        pure { slots with resources := some resources } },
    { name := "completions"
      required := true
      isSet := fun slots => slots.completions.isSome
      read := fun slots tree => do
        let completions ← readOptional CompletionSettings.record.read tree
        pure { slots with completions := some completions } }]
  start := ⟨none, none, none⟩
  finish := fun slots => .ok
    { widgets := slots.widgets.join
      resources := slots.resources.join
      completions := slots.completions.join }

/-- The configuration that a text describes. -/
def decode (text : List Char) : Except Fault Config :=
  decodeText record.read text

/-- The settings of completions that hold for the project. -/
def settings (c : Config) : CompletionSettings :=
  c.completions.getD .default

end Config

end LayoutCompletion
