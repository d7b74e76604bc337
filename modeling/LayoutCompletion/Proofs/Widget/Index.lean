import LayoutCompletion.Widget.Decode
import Mathlib.Data.Finset.Card

/-!
# The index of the classes that came in

`WidgetIndex.Records` says what an index has of a row of classes that came in: of each qualified
name the first class, and for every name that is asked for the first class that came in with it.
A class that comes in is found from then on by every test that its qualified name decides, or the
test has found another one already (`find?_insert`). So a look-up in the index is a search of all
that came in (`find?_foldl_insert`), and the rest follows from that (`ofList_records`).
-/

namespace LayoutCompletion

open Json

/-- The text is read once, whatever is made of its value. -/
theorem Json.decodeText_map {α β : Type} (read : Reader α) (f : α → β) (text : List Char) :
    decodeText (fun tree => (read tree).map f) text = (decodeText read text).map f := by
  unfold decodeText
  generalize Tree.ofText text = parts
  obtain ⟨tree, rest⟩ := parts
  cases hread : read tree with
  | error fault => simp [bind, Except.bind, Except.map, hread]
  | ok a =>
    simp only [bind, Except.bind, Except.map, hread]
    split <;> rfl

/-- Every place that is kept is a place in the row. -/
theorem LeadsToFirst.lt_length {places : Dictionary String Nat} {nameOf : Widget → String}
    {ws : List Widget} (h : LeadsToFirst places nameOf ws) {name : String} {place : Nat}
    (hplace : places.get? name = some place) : place < ws.length := by
  rw [h name] at hplace
  exact (List.findIdx?_eq_some_iff_getElem.mp hplace).1

namespace WidgetIndex

variable {index : WidgetIndex} {w : Widget} {ws : List Widget} {name : String}
  {p : Widget → Bool}

/-! ## One class that comes in -/

theorem widgets_insert (index : WidgetIndex) (w : Widget) :
    (index.insert w).widgets =
      if index.widgets.any (·.qualifiedName = w.qualifiedName) then index.widgets
      else index.widgets ++ [w] := by
  have hplace : (index.qualifiedPlaces.get? w.qualifiedName).isSome =
      index.widgets.any (·.qualifiedName = w.qualifiedName) := by
    rw [index.qualified_leads, List.findIdx?_isSome]
  rw [← hplace]
  unfold insert
  split
  · next hsome => simp [hsome]
  · next hnone => simp [hnone]

/-- A class that is not let in would not have been found: one with its qualified name stands before
it. -/
theorem find?_insert (hp : ∀ v, v.qualifiedName = w.qualifiedName → p v = p w) :
    (index.insert w).widgets.find? p =
      (index.widgets.find? p).or (if p w then some w else none) := by
  rw [widgets_insert]
  split
  · next htaken =>
    obtain ⟨v, hv, hname⟩ := List.any_eq_true.mp htaken
    by_cases hw : p w = true
    · have hfound : (index.widgets.find? p).isSome = true :=
        List.find?_isSome.mpr ⟨v, hv, (hp v (of_decide_eq_true hname)).trans hw⟩
      obtain ⟨u, hu⟩ := Option.isSome_iff_exists.mp hfound
      rw [hu, Option.some_or]
    · rw [if_neg hw, Option.or_none]
  · rw [List.find?_append, List.find?_singleton]

theorem nodup_insert (h : (index.widgets.map Widget.qualifiedName).Nodup) :
    ((index.insert w).widgets.map Widget.qualifiedName).Nodup := by
  rw [widgets_insert]
  split
  · exact h
  · next hnew =>
    rw [List.map_append, List.nodup_append]
    refine ⟨h, List.nodup_singleton _, fun a ha b hb => ?_⟩
    obtain ⟨v, hv, rfl⟩ := List.mem_map.mp ha
    obtain rfl := List.mem_singleton.mp hb
    exact fun hsame => hnew (List.any_eq_true.mpr ⟨v, hv, decide_eq_true hsame⟩)

theorem sublist_insert (index : WidgetIndex) (w : Widget) :
    (index.insert w).widgets.Sublist (index.widgets ++ [w]) := by
  rw [widgets_insert]
  split
  · exact List.sublist_append_left _ _
  · exact List.Sublist.refl _

/-! ## All classes that come in -/

theorem find?_foldl_insert (hp : ∀ v w : Widget, v.qualifiedName = w.qualifiedName → p v = p w)
    (ws : List Widget) (index : WidgetIndex) :
    (ws.foldl insert index).widgets.find? p = (index.widgets.find? p).or (ws.find? p) := by
  induction ws generalizing index with
  | nil => rw [List.foldl_nil, List.find?_nil, Option.or_none]
  | cons w ws ih =>
    rw [List.foldl_cons, ih, find?_insert fun v => hp v w, Option.or_assoc, List.find?_cons]
    cases p w <;> simp

theorem nodup_foldl_insert (ws : List Widget) (index : WidgetIndex)
    (h : (index.widgets.map Widget.qualifiedName).Nodup) :
    ((ws.foldl insert index).widgets.map Widget.qualifiedName).Nodup := by
  induction ws generalizing index with
  | nil => exact h
  | cons w ws ih => exact ih (index.insert w) (nodup_insert h)

theorem sublist_foldl_insert (ws : List Widget) (index : WidgetIndex) :
    (ws.foldl insert index).widgets.Sublist (index.widgets ++ ws) := by
  induction ws generalizing index with
  | nil => rw [List.append_nil]; exact List.Sublist.refl _
  | cons w ws ih =>
    have hfirst := (sublist_insert index w).append_right ws
    rw [List.append_assoc, List.singleton_append] at hfirst
    exact (ih (index.insert w)).trans hfirst

theorem nodup_ofList (ws : List Widget) :
    ((ofList ws).widgets.map Widget.qualifiedName).Nodup :=
  nodup_foldl_insert ws empty List.nodup_nil

/-- A search of the index by what the qualified name decides is a search of all that came in. -/
theorem find?_ofList (hp : ∀ v w : Widget, v.qualifiedName = w.qualifiedName → p v = p w)
    (ws : List Widget) : (ofList ws).widgets.find? p = ws.find? p :=
  find?_foldl_insert hp ws empty

theorem byQualifiedName?_ofList (ws : List Widget) (name : String) :
    (ofList ws).byQualifiedName? name = ws.find? (·.qualifiedName = name) := by
  rw [byQualifiedName?_eq]
  exact find?_ofList (fun v w hname => by rw [hname]) ws

/-- The simple name is part of the qualified one, so a class that is not let in is not missed. -/
theorem bySimpleName?_ofList (ws : List Widget) (name : String) :
    (ofList ws).bySimpleName? name = ws.find? (·.simpleName = name) := by
  rw [bySimpleName?_eq]
  exact find?_ofList (fun v w hname => by rw [Widget.simpleName, Widget.simpleName, hname]) ws

/-! ## What the index has -/

/--
The index has of these classes, which came in one after the other, what it should.

* `distinct`, `mem_iff`: the classes that it keeps have different qualified names, and are those
  that were the first to come in with theirs.
* `sublist`, `size`: they are in the order in which they came in, and as many as there are
  qualified names.
* `qualified`, `simple`: by each name the first class is found that came in with it.
* `qualified_lt`, `simple_lt`: every place that is kept for a name is a place in the row.
* `lookup`: a name finds a class by no other name than this one.
-/
structure Records (index : WidgetIndex) (ws : List Widget) : Prop where
  distinct : (index.widgets.map Widget.qualifiedName).Nodup
  mem_iff : ∀ w, w ∈ index.widgets ↔ ws.find? (·.qualifiedName = w.qualifiedName) = some w
  sublist : index.widgets.Sublist ws
  size : index.size = (ws.map Widget.qualifiedName).toFinset.card
  qualified : ∀ name, index.byQualifiedName? name = ws.find? (·.qualifiedName = name)
  simple : ∀ name, index.bySimpleName? name = ws.find? (·.simpleName = name)
  qualified_lt : ∀ name place, index.qualifiedPlaces.get? name = some place → place < index.size
  simple_lt : ∀ name place, index.simplePlaces.get? name = some place → place < index.size
  lookup : ∀ name w, index.lookup? name = some w →
    name = if isDotted name then w.qualifiedName else w.simpleName

/-- A class is kept if and only if it was the first to come in with its qualified name. -/
theorem mem_widgets_ofList : w ∈ (ofList ws).widgets ↔
    ws.find? (·.qualifiedName = w.qualifiedName) = some w := by
  rw [← byQualifiedName?_ofList, byQualifiedName?_eq]
  constructor
  · intro hmem
    obtain ⟨v, hv⟩ : ∃ v, (ofList ws).widgets.find? (·.qualifiedName = w.qualifiedName) = some v :=
      Option.isSome_iff_exists.mp (List.find?_isSome.mpr ⟨w, hmem, decide_eq_true rfl⟩)
    have hsame : v.qualifiedName = w.qualifiedName := by simpa using List.find?_some hv
    rw [hv, List.inj_on_of_nodup_map (nodup_ofList ws) (List.mem_of_find?_eq_some hv) hmem hsame]
  · exact List.mem_of_find?_eq_some

/-- No qualified name is lost and none is kept twice. -/
theorem size_ofList (ws : List Widget) :
    (ofList ws).size = (ws.map Widget.qualifiedName).toFinset.card := by
  have hnames : ((ofList ws).widgets.map Widget.qualifiedName).toFinset =
      (ws.map Widget.qualifiedName).toFinset := by
    ext name
    have hfind := byQualifiedName?_ofList ws name
    rw [byQualifiedName?_eq] at hfind
    have hsome := congrArg Option.isSome hfind
    rw [List.isSome_find?, List.isSome_find?, Bool.eq_iff_iff] at hsome
    simpa [List.any_eq_true] using hsome
  rw [← hnames, List.toFinset_card_of_nodup (nodup_ofList ws), List.length_map]
  rfl

/--
**The index has of all classes that came in what it should**, after each that comes in.

A simple name stays with the class that has it, whatever comes in later. An index that is read from
a text is the one of the classes that the text describes.
-/
theorem ofList_records (ws : List Widget) :
    (ofList ws).Records ws ∧
    (∀ name w, (ofList ws).bySimpleName? name = some w →
      ∀ later, (ofList (ws ++ later)).bySimpleName? name = some w) ∧
    ∀ text, decode text = (decodeText (readList Widget.record.read) text).map ofList := by
  refine ⟨?_, fun name w hw later => ?_, fun text => ?_⟩
  · exact {
      distinct := nodup_ofList ws
      mem_iff := fun w => mem_widgets_ofList
      sublist := sublist_foldl_insert ws empty
      size := size_ofList ws
      qualified := byQualifiedName?_ofList ws
      simple := bySimpleName?_ofList ws
      qualified_lt := fun name place => (ofList ws).qualified_leads.lt_length
      simple_lt := fun name place => (ofList ws).simple_leads.lt_length
      lookup := fun name w => name_of_lookup? }
  · rw [bySimpleName?_ofList] at hw ⊢
    rw [List.find?_append, hw, Option.some_or]
  · exact decodeText_map _ _ _

end WidgetIndex

end LayoutCompletion
