import LayoutCompletion.Resource.Decode
import Mathlib.Data.List.Forall2

/-!
# How resources are written

Attributes, values and entries, each with the values of JSON that say it: relations that a reader
can be held against, apart from the functions that read (`AttributeEntry.ofValue?_eq_some`,
`ResourceValue.ofValue?_eq_some`, `ResourceEntry.settingsOf?_eq_some`).

An entry has two shapes, and what a key means depends on the shape. No value has both
(`ResourceEntry.single?_or_configured?_eq_none`): with one key it has the first shape only if a text
or an array stands under the key, and the second only if an object does.
-/

namespace LayoutCompletion

open Json

/-- Reading item by item succeeds if each item can be read. -/
theorem mapM_eq_some {α β : Type} {f : α → Option β} {l : List α} {l' : List β} :
    l.mapM f = some l' ↔ List.Forall₂ (fun a b => f a = some b) l l' := by
  induction l generalizing l' with
  | nil => simp [eq_comm]
  | cons a l ih =>
    rw [List.mapM_cons, List.forall₂_cons_left_iff]
    simp only [Option.bind_eq_bind, Option.bind_eq_some_iff, Option.pure_def, Option.some.injEq, ih]
    constructor
    · rintro ⟨b, hb, bs, hbs, rfl⟩
      exact ⟨b, bs, hb, hbs, rfl⟩
    · rintro ⟨b, bs, hb, hbs, rfl⟩
      exact ⟨b, hb, bs, hbs, rfl⟩

theorem stringOf?_eq_some {value : Value} {text : String} :
    stringOf? value = some text ↔
      ∃ cs, value = .scalar (.string cs) ∧ text = String.ofList cs := by
  unfold stringOf?
  split
  · next cs => simp [eq_comm]
  · next hnot => simpa using fun cs hcs => absurd hcs (hnot cs)

/-! ## Attributes -/

namespace AttributeEntry

variable {declaring package : PackageName} {format : AttrFormat} {value : Value}
  {members : List (String × Value)}

/--
Where the fields of an attribute stand: its name, its package and its format.

* `object`: under their keys. No field comes twice; other keys do not matter.
* `pair`, `triple`: in an array, in this order.
-/
inductive HasFields : Value → Value → Option Value → Option Value → Prop
  | object {members : List (String × Value)} {name : Value} {owner format : Option Value}
      (hname : valuesOf "name" members = [name])
      (howner : valuesOf "package" members = owner.toList)
      (hformat : valuesOf "format" members = format.toList) :
      HasFields (.object members) name owner format
  | pair (name owner : Value) : HasFields (.array [name, owner]) name (some owner) none
  | triple (name owner format : Value) :
      HasFields (.array [name, owner, format]) name (some owner) (some format)

/-- The package of an attribute: the one that is given, or else the one that declares it. -/
inductive HasPackage (declaring : PackageName) : Option Value → PackageName → Prop
  | leftOut : HasPackage declaring none declaring
  | null : HasPackage declaring (some (.scalar .null)) declaring
  | given (text : List Char) :
      HasPackage declaring (some (.scalar (.string text))) ⟨String.ofList text⟩

/-- The format of an attribute: the one that is given, or else the empty one. -/
inductive HasFormat : Option Value → AttrFormat → Prop
  | leftOut : HasFormat none .empty
  | given {text : List Char} {format : AttrFormat}
      (hformat : AttrFormat.ofString (String.ofList text) = .ok format) :
      HasFormat (some (.scalar (.string text))) format

/-- A value says an attribute of a package that declares it. -/
inductive Written (declaring : PackageName) : Value → AttributeEntry → Prop
  | fields {value : Value} {name : List Char} {owner format : Option Value}
      {package : PackageName} {meant : AttrFormat}
      (hfields : HasFields value (.scalar (.string name)) owner format)
      (hpackage : HasPackage declaring owner package) (hformat : HasFormat format meant) :
      Written declaring value ⟨String.ofList name, package, meant⟩

theorem hasPackage_iff {owner : Option Value} :
    HasPackage declaring owner package ↔
      ∃ own, (owner.map optionalStringOf?).getD (some none) = some own ∧
        package = (own.map Symbol.mk).getD declaring := by
  constructor
  · intro h
    cases h with
    | leftOut => exact ⟨none, rfl, rfl⟩
    | null => exact ⟨none, rfl, rfl⟩
    | given text => exact ⟨some (String.ofList text), rfl, rfl⟩
  · rintro ⟨own, hown, rfl⟩
    cases owner with
    | none =>
      obtain rfl := Option.some.inj hown
      exact .leftOut
    | some value =>
      rw [Option.map_some, Option.getD_some] at hown
      unfold optionalStringOf? at hown
      split at hown
      · obtain rfl := Option.some.inj hown
        exact .null
      · obtain ⟨text, htext, rfl⟩ := Option.map_eq_some_iff.mp hown
        obtain ⟨cs, rfl, rfl⟩ := stringOf?_eq_some.mp htext
        exact .given cs

theorem formatOf?_eq_some :
    formatOf? value = some format ↔
      ∃ cs, value = .scalar (.string cs) ∧ AttrFormat.ofString (String.ofList cs) = .ok format := by
  unfold formatOf? AttrFormat.ofValue
  split
  · next cs =>
    cases hformat : AttrFormat.ofString (String.ofList cs) <;>
      simp [Except.mapError, Except.toOption, hformat]
  · next hnot => simpa [Except.toOption] using fun cs hcs => absurd hcs (hnot cs)
  · simp [Except.toOption]
  · simp [Except.toOption]

theorem hasFormat_iff {written : Option Value} :
    HasFormat written format ↔ (written.map formatOf?).getD (some .empty) = some format := by
  constructor
  · intro h
    cases h with
    | leftOut => rfl
    | given hformat => exact formatOf?_eq_some.mpr ⟨_, rfl, hformat⟩
  · intro h
    cases written with
    | none =>
      obtain rfl := Option.some.inj h
      exact .leftOut
    | some value =>
      obtain ⟨cs, rfl, hformat⟩ := formatOf?_eq_some.mp h
      exact .given hformat

theorem ofFields?_eq_some {name : Value} {owner written : Option Value} {a : AttributeEntry} :
    ofFields? declaring name owner written = some a ↔
      ∃ cs package format, name = .scalar (.string cs) ∧ HasPackage declaring owner package ∧
        HasFormat written format ∧ a = ⟨String.ofList cs, package, format⟩ := by
  unfold ofFields?
  simp only [Option.bind_eq_bind, Option.bind_eq_some_iff, stringOf?_eq_some, hasPackage_iff,
    hasFormat_iff, Option.pure_def, Option.some.injEq]
  constructor
  · rintro ⟨_, ⟨cs, rfl, rfl⟩, own, hown, format, hformat, rfl⟩
    exact ⟨cs, _, format, rfl, ⟨own, hown, rfl⟩, hformat, rfl⟩
  · rintro ⟨cs, _, format, rfl, ⟨own, hown, rfl⟩, hformat, rfl⟩
    exact ⟨_, ⟨cs, rfl, rfl⟩, own, hown, format, hformat, rfl⟩

theorem ofMembers?_eq_some {a : AttributeEntry} :
    ofMembers? declaring members = some a ↔
      ∃ name owner format, HasFields (.object members) name owner format ∧
        ofFields? declaring name owner format = some a := by
  constructor
  · intro h
    unfold ofMembers? at h
    split at h
    · next name hname howner hformat => exact ⟨name, none, none, .object hname howner hformat, h⟩
    · next name owner hname howner hformat =>
      exact ⟨name, some owner, none, .object hname howner hformat, h⟩
    · next name format hname howner hformat =>
      exact ⟨name, none, some format, .object hname howner hformat, h⟩
    · next name owner format hname howner hformat =>
      exact ⟨name, some owner, some format, .object hname howner hformat, h⟩
    · cases h
  · rintro ⟨name, owner, format, hfields, h⟩
    cases hfields with
    | object hname howner hformat =>
      unfold ofMembers?
      rw [hname, howner, hformat]
      cases owner <;> cases format <;> exact h

/-- What is read is the attribute that is written. -/
theorem ofValue?_eq_some {a : AttributeEntry} :
    ofValue? declaring value = some a ↔ Written declaring value a := by
  have hread : ofValue? declaring value = some a ↔
      ∃ name owner format, HasFields value name owner format ∧
        ofFields? declaring name owner format = some a := by
    unfold ofValue?
    split
    · exact ofMembers?_eq_some
    · next name owner =>
      refine ⟨fun h => ⟨_, _, _, .pair name owner, h⟩, ?_⟩
      rintro ⟨_, _, _, hfields, h⟩
      cases hfields
      exact h
    · next name owner format =>
      refine ⟨fun h => ⟨_, _, _, .triple name owner format, h⟩, ?_⟩
      rintro ⟨_, _, _, hfields, h⟩
      cases hfields
      exact h
    · next hobject hpair htriple =>
      refine ⟨fun h => absurd h (by simp), ?_⟩
      rintro ⟨_, _, _, hfields, -⟩
      cases hfields with
      | object => exact absurd rfl (hobject _)
      | pair => exact absurd rfl (hpair _ _)
      | triple => exact absurd rfl (htriple _ _ _)
  rw [hread]
  constructor
  · rintro ⟨_, _, _, hfields, h⟩
    obtain ⟨cs, package, format, rfl, hpackage, hformat, rfl⟩ := ofFields?_eq_some.mp h
    exact .fields hfields hpackage hformat
  · rintro ⟨hfields, hpackage, hformat⟩
    exact ⟨_, _, _, hfields, ofFields?_eq_some.mpr ⟨_, _, _, rfl, hpackage, hformat, rfl⟩⟩

end AttributeEntry

/-! ## Values -/

namespace ResourceValue

variable {declaring : PackageName} {value : Value} {v : ResourceValue}

/-- A value of JSON says a value of a resource: an object with the kind of the value as its only
key. A styleable has its attributes in written order. -/
inductive Written (declaring : PackageName) : Value → ResourceValue → Prop
  | styleable {items : List Value} {attributes : List AttributeEntry}
      (hattributes : List.Forall₂ (AttributeEntry.Written declaring) items attributes) :
      Written declaring (.object [("styleable", .array items)]) (.styleable ⟨attributes⟩)
  | string (text : List Char) :
      Written declaring (.object [("string", .scalar (.string text))])
        (.string (String.ofList text))
  | color (text : List Char) :
      Written declaring (.object [("color", .scalar (.string text))]) (.color (String.ofList text))
  | dimen (text : List Char) :
      Written declaring (.object [("dimen", .scalar (.string text))]) (.dimen (String.ofList text))

theorem map_stringOf?_eq_some {make : String → ResourceValue} :
    (stringOf? value).map make = some v ↔
      ∃ cs, value = .scalar (.string cs) ∧ v = make (String.ofList cs) := by
  rw [Option.map_eq_some_iff]
  constructor
  · rintro ⟨_, htext, rfl⟩
    obtain ⟨cs, rfl, rfl⟩ := stringOf?_eq_some.mp htext
    exact ⟨cs, rfl, rfl⟩
  · rintro ⟨cs, rfl, rfl⟩
    exact ⟨_, rfl, rfl⟩

theorem ofKind?_eq_some {kind : String} :
    ofKind? declaring kind value = some v ↔ Written declaring (.object [(kind, value)]) v := by
  constructor
  · intro h
    unfold ofKind? at h
    split at h
    · split at h
      · obtain ⟨attributes, hattributes, rfl⟩ := Option.map_eq_some_iff.mp h
        rw [mapM_eq_some] at hattributes
        exact .styleable (hattributes.imp fun _ _ => AttributeEntry.ofValue?_eq_some.mp)
      · cases h
    · obtain ⟨cs, rfl, rfl⟩ := map_stringOf?_eq_some.mp h
      exact .string cs
    · obtain ⟨cs, rfl, rfl⟩ := map_stringOf?_eq_some.mp h
      exact .color cs
    · obtain ⟨cs, rfl, rfl⟩ := map_stringOf?_eq_some.mp h
      exact .dimen cs
    · cases h
  · intro h
    cases h with
    | styleable hattributes =>
      refine Option.map_eq_some_iff.mpr ⟨_, mapM_eq_some.mpr ?_, rfl⟩
      exact hattributes.imp fun _ _ => AttributeEntry.ofValue?_eq_some.mpr
    | string text => rfl
    | color text => rfl
    | dimen text => rfl

/-- What is read is the value that is written. -/
theorem ofValue?_eq_some : ofValue? declaring value = some v ↔ Written declaring value v := by
  unfold ofValue?
  split
  · exact ofKind?_eq_some
  · next hnot =>
    refine ⟨fun h => absurd h (by simp), fun h => ?_⟩
    cases h <;> exact absurd rfl (hnot _ _)

end ResourceValue

/-! ## Entries -/

namespace ResourceEntry

variable {declaring : PackageName} {value : Value} {settings : Settings}

/--
A value says the settings of an entry.

* `single`: one value, which is for the default configuration.
* `configured`: a value for each configuration that is a key, in written order.
-/
inductive Written (declaring : PackageName) : Value → Settings → Prop
  | single {value : Value} {v : ResourceValue} (h : ResourceValue.Written declaring value v) :
      Written declaring value [(defaultConfiguration, v)]
  | configured {members : List (String × Value)} {settings : Settings}
      (h : List.Forall₂ (fun member setting =>
        setting.1 = member.1 ∧ ResourceValue.Written declaring member.2 setting.2)
        members settings) :
      Written declaring (.object members) settings

theorem single?_eq_some :
    single? declaring value = some settings ↔
      ∃ v, ResourceValue.Written declaring value v ∧ settings = [(defaultConfiguration, v)] := by
  simp only [single?, Option.map_eq_some_iff, ResourceValue.ofValue?_eq_some,
    eq_comm (a := settings)]

theorem configured?_eq_some :
    configured? declaring value = some settings ↔
      ∃ members, value = .object members ∧
        List.Forall₂ (fun member setting =>
          setting.1 = member.1 ∧ ResourceValue.Written declaring member.2 setting.2)
          members settings := by
  have hsetting (member : String × Value) (setting : String × ResourceValue) :
      ((ResourceValue.ofValue? declaring member.2).map fun v => (member.1, v)) = some setting ↔
        setting.1 = member.1 ∧ ResourceValue.Written declaring member.2 setting.2 := by
    rw [Option.map_eq_some_iff]
    constructor
    · rintro ⟨v, hv, rfl⟩
      exact ⟨rfl, ResourceValue.ofValue?_eq_some.mp hv⟩
    · rintro ⟨hkey, hv⟩
      exact ⟨_, ResourceValue.ofValue?_eq_some.mpr hv, by rw [← hkey]⟩
  unfold configured?
  split
  · next members =>
    rw [mapM_eq_some]
    simp only [hsetting, Value.object.injEq, exists_eq_left']
  · next hnot => simpa using fun members hmembers => absurd hmembers (hnot members)

/-- No value has both shapes of an entry, whatever its configurations are called. -/
theorem single?_or_configured?_eq_none (declaring : PackageName) (value : Value) :
    single? declaring value = none ∨ configured? declaring value = none := by
  cases hconfigured : configured? declaring value with
  | none => exact .inr rfl
  | some settings =>
    obtain ⟨members, rfl, hmembers⟩ := configured?_eq_some.mp hconfigured
    cases hsingle : single? declaring (.object members) with
    | none => exact .inl rfl
    | some single =>
      -- The only key is a kind, and what stands under it is an object.
      obtain ⟨v, hv, -⟩ := single?_eq_some.mp hsingle
      cases hv <;>
      · obtain ⟨_, -, ⟨-, hinner⟩, -, -⟩ := List.forall₂_cons_left_iff.mp hmembers
        cases hinner

/-- What is read are the settings that are written. -/
theorem settingsOf?_eq_some :
    settingsOf? declaring value = some settings ↔ Written declaring value settings := by
  have hshape : settingsOf? declaring value = some settings ↔
      single? declaring value = some settings ∨ configured? declaring value = some settings := by
    unfold settingsOf?
    rcases single?_or_configured?_eq_none declaring value with hnone | hnone <;> simp [hnone]
  rw [hshape, single?_eq_some, configured?_eq_some]
  constructor
  · rintro (⟨v, hv, rfl⟩ | ⟨members, rfl, h⟩)
    · exact .single hv
    · exact .configured h
  · intro h
    cases h with
    | single hv => exact .inl ⟨_, hv, rfl⟩
    | configured h => exact .inr ⟨_, rfl, h⟩

end ResourceEntry

end LayoutCompletion
