import LayoutCompletion.Styleable.Hierarchy

/-!
# The groups of a set of styleables

The set of some names has what a package declares under these names, and nothing else
(`get?_ofNames`). The groups that a set lists are those that it has under some name
(`mem_values_resolve`), because a dictionary has every key once.
-/

namespace LayoutCompletion

namespace StyleableSet

theorem nodup_keys_ofNames (package : Package) (names : List String) :
    (ofNames package names).groups.keys.Nodup :=
  (ofNames package names).groups.nodup

theorem get?_add (s : StyleableSet) (package : Package) (name key : String) :
    (s.add package name).get? key =
      if key = name then (package.styleable? name).or (s.get? key) else s.get? key := by
  unfold add
  cases package.styleable? name with
  | none => simp
  | some group =>
    show (s.groups.insert ⟨name⟩ group).get? ⟨key⟩ = _
    rw [Dictionary.get?_insert]
    simp only [Symbol.mk.injEq, eq_comm (a := name), Option.some_or]
    rfl

/-- The set of some names has the styleables that the package declares under these names. -/
theorem get?_ofNames (package : Package) (names : List String) (key : String) :
    (ofNames package names).get? key = if key ∈ names then package.styleable? key else none := by
  have hfold : ∀ (names : List String) (s : StyleableSet),
      (names.foldl (fun s name => s.add package name) s).get? key =
        if key ∈ names then (package.styleable? key).or (s.get? key) else s.get? key := by
    intro names
    induction names with
    | nil => simp
    | cons name names ih =>
      intro s
      rw [List.foldl_cons, ih, get?_add]
      by_cases hkey : key = name
      · subst hkey
        cases package.styleable? key <;> simp
      · simp [hkey]
  rw [ofNames, hfold]
  simp [empty, get?]

end StyleableSet

/-- The groups that apply to an element are those that the set has under some name. -/
theorem WidgetIndex.mem_values_resolve {widgets : WidgetIndex} {d : Document} {node : Nat}
    {package : Package} {group : AttributeGroup} :
    group ∈ (widgets.resolve d node package).groups.values ↔
      ∃ styleable, (widgets.resolve d node package).get? styleable = some group := by
  refine Dictionary.mem_values_iff.trans ?_
  constructor
  · rintro ⟨⟨name⟩, h⟩
    exact ⟨name, h⟩
  · rintro ⟨name, h⟩
    exact ⟨⟨name⟩, h⟩

end LayoutCompletion
