/-!
# Dictionaries

A dictionary is the list of its keys and values, in the order in which the keys first came in, and
has no key twice. A key that comes in again keeps its place and gets the new value. The view is
`get?`; its laws are `get?_insert` and `get?_insertNew`. Two dictionaries that list the same
entries in different orders are the same to `get?` (`get?_of_perm`).
-/

namespace LayoutCompletion

/-- Values by key, in the order in which the keys came in. -/
structure Dictionary (κ α : Type) where
  entries : List (κ × α)
  nodup : (entries.map Prod.fst).Nodup
deriving DecidableEq, Repr

namespace Dictionary

variable {κ α : Type} [DecidableEq κ]

/-- A dictionary without keys. -/
def empty : Dictionary κ α := ⟨[], List.nodup_nil⟩

instance : EmptyCollection (Dictionary κ α) := ⟨empty⟩

/-- The value of the first entry with the key. -/
def find? (key : κ) : List (κ × α) → Option α
  | [] => none
  | (k, a) :: rest => if k = key then some a else find? key rest

/-- Replaces the value of the key, or adds the key at the end. -/
def replace (key : κ) (value : α) : List (κ × α) → List (κ × α)
  | [] => [(key, value)]
  | (k, a) :: rest => if k = key then (k, value) :: rest else (k, a) :: replace key value rest

/-- A new key comes last, a known one keeps its place. -/
theorem keys_replace (key : κ) (value : α) (entries : List (κ × α)) :
    (replace key value entries).map Prod.fst =
      if key ∈ entries.map Prod.fst then entries.map Prod.fst
      else entries.map Prod.fst ++ [key] := by
  induction entries with
  | nil => simp [replace]
  | cons e rest ih =>
    obtain ⟨k, a⟩ := e
    by_cases hk : k = key
    · simp [replace, hk]
    · by_cases hm : key ∈ rest.map Prod.fst <;> simp_all [replace, Ne.symm hk]

theorem nodup_replace {entries : List (κ × α)} (h : (entries.map Prod.fst).Nodup) (key : κ)
    (value : α) : ((replace key value entries).map Prod.fst).Nodup := by
  rw [keys_replace]
  split
  · exact h
  · next hnew =>
    refine List.nodup_append.mpr ⟨h, List.pairwise_singleton _ key, fun a ha b hb => ?_⟩
    obtain rfl := List.mem_singleton.mp hb
    rintro rfl
    exact hnew ha

/-- The value of a key. -/
def get? (d : Dictionary κ α) (key : κ) : Option α :=
  find? key d.entries

/-- Gives a key a value. -/
def insert (d : Dictionary κ α) (key : κ) (value : α) : Dictionary κ α :=
  ⟨replace key value d.entries, nodup_replace d.nodup key value⟩

/-- Gives a key a value, unless it has one. -/
def insertNew (d : Dictionary κ α) (key : κ) (value : α) : Dictionary κ α :=
  match d.get? key with
  | some _ => d
  | none => d.insert key value

/-- The keys, in order. -/
def keys (d : Dictionary κ α) : List κ :=
  d.entries.map Prod.fst

/-- The values, in the order of their keys. -/
def values (d : Dictionary κ α) : List α :=
  d.entries.map Prod.snd

/-- The number of keys. -/
def size (d : Dictionary κ α) : Nat :=
  d.entries.length

/-- The dictionary of a list of keys and values; the last value of a key holds. -/
def ofList (entries : List (κ × α)) : Dictionary κ α :=
  entries.foldl (fun d (k, a) => d.insert k a) empty

@[simp] theorem get?_empty (key : κ) : (empty : Dictionary κ α).get? key = none := rfl

theorem find?_replace (key other : κ) (value : α) (entries : List (κ × α)) :
    find? other (replace key value entries) =
      if key = other then some value else find? other entries := by
  induction entries with
  | nil => simp [replace, find?]
  | cons e rest ih =>
    obtain ⟨k, a⟩ := e
    by_cases hk : k = key
    · subst hk
      by_cases ho : k = other <;> simp [replace, find?, ho]
    · by_cases ho : k = other
      · subst ho
        simp [replace, find?, hk, Ne.symm hk]
      · simp [replace, find?, hk, ho, ih]

/-- Only the key that was given a value is touched. -/
theorem get?_insert (d : Dictionary κ α) (key other : κ) (value : α) :
    (d.insert key value).get? other = if key = other then some value else d.get? other :=
  find?_replace key other value d.entries

/-- A value that a key has is left, and no other key is touched. -/
theorem get?_insertNew (d : Dictionary κ α) (key other : κ) (value : α) :
    (d.insertNew key value).get? other =
      (d.get? other).or (if key = other then some value else none) := by
  unfold insertNew
  split
  · next a ha =>
    by_cases hkey : key = other
    · subst hkey
      simp [ha]
    · simp [hkey]
  · next hnone =>
    rw [get?_insert]
    by_cases hkey : key = other
    · subst hkey
      simp [hnone]
    · simp [hkey]

theorem keys_insert (d : Dictionary κ α) (key : κ) (value : α) :
    (d.insert key value).keys = if key ∈ d.keys then d.keys else d.keys ++ [key] :=
  keys_replace key value d.entries

/-! ## Entries -/

theorem find?_eq_some {entries : List (κ × α)} (hnodup : (entries.map Prod.fst).Nodup) {key : κ}
    {a : α} : find? key entries = some a ↔ (key, a) ∈ entries := by
  induction entries with
  | nil => simp [find?]
  | cons e rest ih =>
    obtain ⟨k, b⟩ := e
    rw [List.map_cons, List.nodup_cons] at hnodup
    by_cases hk : k = key
    · subst hk
      have hnot : (k, a) ∉ rest := fun h => hnodup.1 (List.mem_map.mpr ⟨(k, a), h, rfl⟩)
      simp [find?, hnot, eq_comm]
    · rw [find?, if_neg hk, ih hnodup.2]
      simp [Ne.symm hk]

variable {d d' : Dictionary κ α} {key : κ} {a : α}

theorem get?_eq_some : d.get? key = some a ↔ (key, a) ∈ d.entries :=
  find?_eq_some d.nodup

/-- A dictionary lists exactly the values of its keys. -/
theorem mem_values_iff : a ∈ d.values ↔ ∃ key, d.get? key = some a := by
  constructor
  · intro h
    obtain ⟨⟨key, b⟩, hmem, rfl⟩ := List.mem_map.mp h
    exact ⟨key, get?_eq_some.mpr hmem⟩
  · rintro ⟨key, hkey⟩
    exact List.mem_map.mpr ⟨(key, a), get?_eq_some.mp hkey, rfl⟩

/-- No look-up tells in which order the entries are listed. -/
theorem get?_of_perm (h : d.entries.Perm d'.entries) (key : κ) : d.get? key = d'.get? key := by
  refine Option.ext fun a => ?_
  rw [get?_eq_some, get?_eq_some]
  exact h.mem_iff

end Dictionary

end LayoutCompletion
