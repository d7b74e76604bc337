import LayoutCompletion.Json.Record
import LayoutCompletion.Json.Value
import Mathlib.Data.List.Forall2

/-!
# What a tree says

Where nothing is wrong with a tree, it says a value (`Tree.value?`), and already the trees of its
items (`Tree.items?`) or members (`Tree.fields?`) say something, whatever is wrong further inside.
Readers that succeed read what is said: `value?_of_readValue`, `fields?_of_readObject`, and for the
fields of a record `Record.takes_of_readMembers`.
-/

namespace LayoutCompletion.Json

variable {α β σ : Type}

/-! ## Contents -/

mutual

/-- The value that a tree says, unless something is wrong with it. -/
def Tree.value? : Tree → Option Value
  | .scalar value _ => value.toOption.map .scalar
  | .broken _ => none
  | .absent _ => none
  | .array _ items => items.values?.map .array
  | .object _ members => members.entries?.map .object

/-- The values of all items, unless something is wrong with them. -/
def Items.values? : Items → Option (List Value)
  | .unread => some []
  | .close _ => some []
  | .noComma _ => none
  | .item rest value later =>
    if rest.head? = some ']' then none
    else value.value?.bind fun a => later.values?.map (a :: ·)

/-- The keys and values of all members, unless something is wrong with them. -/
def Members.entries? : Members → Option (List (String × Value))
  | .unread => some []
  | .close _ => some []
  | .noComma _ => none
  | .comma _ later => later.entries?
  | .noKey _ => none
  | .badKey _ => none
  | .noColon _ _ => none
  | .member key _ value later =>
    key.toOption.bind fun key =>
      value.value?.bind fun a => later.entries?.map ((String.ofList key, a) :: ·)

end

/-- The items, of which each may have its own faults. -/
def Items.trees? : Items → Option (List Tree)
  | .unread => some []
  | .close _ => some []
  | .noComma _ => none
  | .item rest value later => if rest.head? = some ']' then none else later.trees?.map (value :: ·)

/-- The keys and their values, of which each may have its own faults. -/
def Members.fields? : Members → Option (List (String × Tree))
  | .unread => some []
  | .close _ => some []
  | .noComma _ => none
  | .comma _ later => later.fields?
  | .noKey _ => none
  | .badKey _ => none
  | .noColon _ _ => none
  | .member key _ value later =>
    key.toOption.bind fun key => later.fields?.map ((String.ofList key, value) :: ·)

/-- The items of an array. -/
def Tree.items? : Tree → Option (List Tree)
  | .array _ items => items.trees?
  | _ => none

/-- The members of an object, in the order of the text. -/
def Tree.fields? : Tree → Option (List (String × Tree))
  | .object _ members => members.fields?
  | _ => none

/-- The trees of all members with a key. -/
def treesOf (key : String) (fields : List (String × Tree)) : List Tree :=
  fields.filterMap fun (k, tree) => if k = key then some tree else none

theorem treesOf_cons (key k : String) (tree : Tree) (fields : List (String × Tree)) :
    treesOf key ((k, tree) :: fields) =
      if k = key then tree :: treesOf key fields else treesOf key fields := by
  unfold treesOf
  by_cases hk : k = key <;> simp [hk]

/-! ## Readers -/

theorem bind_eq_ok {e : Except Fault α} {f : α → Except Fault β} {b : β} :
    e >>= f = .ok b ↔ ∃ a, e = .ok a ∧ f a = .ok b := by
  cases e <;> simp [bind, Except.bind]

theorem map_eq_ok {e : Except Fault α} {f : α → β} {b : β} :
    e.map f = .ok b ↔ ∃ a, e = .ok a ∧ f a = b := by
  cases e <;> simp [Except.map]

theorem checkItem_eq_ok {rest : List Char} : checkItem rest = .ok () ↔ rest.head? ≠ some ']' := by
  unfold checkItem
  split <;> simp_all

mutual

/-- Whoever reads a value reads what the tree says. -/
theorem value?_of_readValue {depth : Nat} :
    ∀ (tree : Tree) {v : Value}, readValue depth tree = .ok v → tree.value? = some v
  | .scalar value _, v, h => by
    obtain ⟨scalar, rfl, rfl⟩ := map_eq_ok.mp h
    rfl
  | .broken _, _, h => by cases h
  | .absent _, _, h => by cases h
  | .array rest items, v, h => by
    rw [readValue] at h
    split at h
    · cases h
    · obtain ⟨vs, hvs, rfl⟩ := map_eq_ok.mp h
      rw [Tree.value?, values?_of_readValues items hvs]
      rfl
  | .object rest members, v, h => by
    rw [readValue] at h
    split at h
    · cases h
    · obtain ⟨es, hes, rfl⟩ := map_eq_ok.mp h
      rw [Tree.value?, entries?_of_readEntries members hes]
      rfl

theorem values?_of_readValues {depth : Nat} :
    ∀ (items : Items) {vs : List Value}, readValues depth items = .ok vs → items.values? = some vs
  | .unread, _, h => congrArg some (Except.ok.inj h)
  | .close _, _, h => congrArg some (Except.ok.inj h)
  | .noComma _, _, h => by cases h
  | .item rest value later, vs, h => by
    obtain ⟨_, hcheck, h⟩ := bind_eq_ok.mp h
    obtain ⟨a, ha, h⟩ := bind_eq_ok.mp h
    obtain ⟨as, has, h⟩ := bind_eq_ok.mp h
    obtain rfl := Except.ok.inj h
    rw [Items.values?, if_neg (checkItem_eq_ok.mp hcheck), value?_of_readValue value ha,
      values?_of_readValues later has]
    rfl

theorem entries?_of_readEntries {depth : Nat} :
    ∀ (members : Members) {es : List (String × Value)}, readEntries depth members = .ok es →
      members.entries? = some es
  | .unread, _, h => congrArg some (Except.ok.inj h)
  | .close _, _, h => congrArg some (Except.ok.inj h)
  | .noComma _, _, h => by cases h
  | .comma _ later, _, h => entries?_of_readEntries later h
  | .noKey _, _, h => by cases h
  | .badKey _, _, h => by cases h
  | .noColon _ _, _, h => by
    obtain ⟨_, _, h⟩ := bind_eq_ok.mp h
    cases h
  | .member key _ value later, es, h => by
    obtain ⟨_, hkey, h⟩ := bind_eq_ok.mp h
    obtain ⟨key, rfl, rfl⟩ := map_eq_ok.mp hkey
    obtain ⟨a, ha, h⟩ := bind_eq_ok.mp h
    obtain ⟨as, has, h⟩ := bind_eq_ok.mp h
    obtain rfl := Except.ok.inj h
    rw [Members.entries?, value?_of_readValue value ha, entries?_of_readEntries later has]
    rfl

end

theorem value?_of_readString {tree : Tree} {text : String} (h : readString tree = .ok text) :
    ∃ cs, tree.value? = some (.scalar (.string cs)) ∧ text = String.ofList cs := by
  unfold readString at h
  split at h
  · next cs _ => exact ⟨cs, rfl, (Except.ok.inj h).symm⟩
  · cases h

theorem fields?_of_readAll {read : String → List Char → Reader α} {members : Members}
    {rows : List (String × α)} (h : members.readAll read = .ok rows) :
    ∃ fields, members.fields? = some fields ∧
      List.Forall₂ (fun field row => row.1 = field.1 ∧ ∃ settled,
        read field.1 settled field.2 = .ok row.2) fields rows := by
  fun_induction Members.fields? members generalizing rows with
  | case1 =>
    obtain rfl := Except.ok.inj h
    exact ⟨[], rfl, .nil⟩
  | case2 =>
    obtain rfl := Except.ok.inj h
    exact ⟨[], rfl, .nil⟩
  | case3 => cases h
  | case4 _ later ih => exact ih h
  | case5 => cases h
  | case6 => cases h
  | case7 =>
    obtain ⟨_, _, h⟩ := bind_eq_ok.mp h
    cases h
  | case8 key behind value later ih =>
    obtain ⟨_, hkey, h⟩ := bind_eq_ok.mp h
    obtain ⟨key, rfl, rfl⟩ := map_eq_ok.mp hkey
    obtain ⟨a, ha, h⟩ := bind_eq_ok.mp h
    obtain ⟨as, has, h⟩ := bind_eq_ok.mp h
    obtain rfl := Except.ok.inj h
    obtain ⟨fields, hfields, hrows⟩ := ih has
    exact ⟨(String.ofList key, value) :: fields, by rw [hfields]; rfl,
      .cons ⟨rfl, later.settled, ha⟩ hrows⟩

/-- Whoever reads the members of an object reads one after the other. -/
theorem fields?_of_readObject {read : String → List Char → Reader α} {tree : Tree}
    {rows : List (String × α)} (h : readObject read tree = .ok rows) :
    ∃ fields, tree.fields? = some fields ∧
      List.Forall₂ (fun field row => row.1 = field.1 ∧ ∃ settled,
        read field.1 settled field.2 = .ok row.2) fields rows := by
  unfold readObject at h
  split at h
  · exact fields?_of_readAll h
  · cases h

/-- Whoever reads a text reads one value, behind which nothing is left. -/
theorem decodeText_eq_ok {read : Reader α} {text : List Char} {a : α} :
    decodeText read text = .ok a ↔
      read (Tree.ofText text).1 = .ok a ∧ (Tree.ofText text).2 = [] := by
  unfold decodeText
  rw [bind_eq_ok]
  constructor
  · rintro ⟨b, hread, h⟩
    split at h
    · next hempty =>
      obtain rfl := Except.ok.inj h
      exact ⟨hread, List.isEmpty_iff.mp hempty⟩
    · cases h
  · rintro ⟨hread, hrest⟩
    exact ⟨a, hread, if_pos (List.isEmpty_iff.mpr hrest)⟩

/-! ## Records -/

namespace Record

variable {r : Record σ α} {slots before after : σ}

/--
From the fields of an object the slots are filled, one after the other.

* `skip`: a key that names no field of the record does not matter.
* `take`: a field is read into its slot, which must be empty.
-/
inductive Takes (r : Record σ α) : σ → List (String × Tree) → σ → Prop
  | nil (slots : σ) : Takes r slots [] slots
  | skip {before after : σ} {key : String} (tree : Tree) {later : List (String × Tree)}
      (hkey : ∀ field ∈ r.fields, field.name ≠ key) (htakes : Takes r before later after) :
      Takes r before ((key, tree) :: later) after
  | take {before slots after : σ} {field : Field σ} {tree : Tree} {later : List (String × Tree)}
      (hmem : field ∈ r.fields) (hunset : field.isSet before = false)
      (hread : field.read before tree = .ok slots) (htakes : Takes r slots later after) :
      Takes r before ((field.name, tree) :: later) after

theorem fieldOfKey_eq_none {behind key : List Char} (h : r.fieldOfKey slots behind key = .ok none) :
    ∀ field ∈ r.fields, field.name ≠ String.ofList key := by
  unfold fieldOfKey at h
  split at h
  · next hnone =>
    intro field hfield hname
    have hnot := List.find?_eq_none.mp hnone field hfield
    rw [hname, String.toList_ofList] at hnot
    exact hnot (decide_eq_true rfl)
  · split at h <;> cases h

theorem fieldOfKey_eq_some {behind key : List Char} {field : Field σ}
    (h : r.fieldOfKey slots behind key = .ok (some field)) :
    field ∈ r.fields ∧ field.name = String.ofList key ∧ field.isSet slots = false := by
  unfold fieldOfKey at h
  split at h
  · cases h
  · next found hfound =>
    split at h
    · cases h
    · next hunset =>
      obtain rfl : found = field := by simpa using h
      have hname : found.name.toList = key := by simpa using List.find?_some hfound
      refine ⟨List.mem_of_find?_eq_some hfound, ?_, by simpa using hunset⟩
      rw [← hname, String.ofList_toList]

/-- The slots are filled from what the object says. -/
theorem takes_of_readMembers {members : Members} {behind : List Char}
    (h : r.readMembers slots members = .ok (after, behind)) :
    ∃ fields, members.fields? = some fields ∧ r.Takes slots fields after := by
  fun_induction Members.fields? members generalizing slots with
  | case1 =>
    obtain ⟨rfl, -⟩ := Prod.mk.inj (Except.ok.inj h)
    exact ⟨[], rfl, .nil _⟩
  | case2 =>
    obtain ⟨rfl, -⟩ := Prod.mk.inj (Except.ok.inj h)
    exact ⟨[], rfl, .nil _⟩
  | case3 => cases h
  | case4 _ later ih => exact ih h
  | case5 => cases h
  | case6 => cases h
  | case7 =>
    obtain ⟨_, _, h⟩ := bind_eq_ok.mp h
    obtain ⟨_, _, h⟩ := bind_eq_ok.mp h
    cases h
  | case8 key colon value later ih =>
    obtain ⟨key, rfl, hkey⟩ := bind_eq_ok.mp h
    obtain ⟨found, hfound, h⟩ := bind_eq_ok.mp hkey
    cases found with
    | some field =>
      obtain ⟨filled, hread, h⟩ := bind_eq_ok.mp h
      obtain ⟨fields, hfields, htakes⟩ := ih h
      obtain ⟨hmem, hname, hunset⟩ := fieldOfKey_eq_some hfound
      refine ⟨(String.ofList key, value) :: fields, by rw [hfields]; rfl, ?_⟩
      rw [← hname]
      exact .take hmem hunset hread htakes
    | none =>
      obtain ⟨-, -, h⟩ := bind_eq_ok.mp h
      obtain ⟨fields, hfields, htakes⟩ := ih h
      exact ⟨(String.ofList key, value) :: fields, by rw [hfields]; rfl,
        .skip value (fieldOfKey_eq_none hfound) htakes⟩

end Record

end LayoutCompletion.Json
