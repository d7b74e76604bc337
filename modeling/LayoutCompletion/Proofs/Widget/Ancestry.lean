import LayoutCompletion.Widget.Ancestry

/-!
# What the walk over superclasses finds

`Walk` is the walk step by step; `walk_ancestorsFrom` is its agreement with the function. `Above`
says which classes are above others, whatever their simple names are. The walk finds only such
classes (`Walk.above`), and the simple names of what it finds are closed under superclasses
(`Walk.covers_superclasses`).
-/

namespace LayoutCompletion.WidgetIndex

variable {index : WidgetIndex} {w v : Widget} {name other : String}
  {met queue chain start : List String}

/-! ## The walk -/

/--
The walk that has met these simple names and has this queue finds this chain.

* `passed`: a name with a simple name that has been met is passed over.
* `leaf`: a name of no known class is found and leads no further.
* `followed`: a name of a known class is found, and its superclasses join the queue.
-/
inductive Walk (index : WidgetIndex) : List String → List String → List String → Prop
  | done {met : List String} : Walk index met [] []
  | passed {met queue chain : List String} {name : String} :
    simpleName name ∈ met → Walk index met queue chain → Walk index met (name :: queue) chain
  | leaf {met queue chain : List String} {name : String} :
    simpleName name ∉ met → index.lookup? name = none →
      Walk index (simpleName name :: met) queue chain →
      Walk index met (name :: queue) (name :: chain)
  | followed {met queue chain : List String} {name : String} {w : Widget} :
    simpleName name ∉ met → index.lookup? name = some w →
      Walk index (simpleName name :: met) (queue ++ w.superclasses) chain →
      Walk index met (name :: queue) (name :: chain)

theorem walk_ancestorsFrom (index : WidgetIndex) (met queue : List String) :
    index.Walk met queue (index.ancestorsFrom met queue) := by
  fun_induction ancestorsFrom index met queue with
  | case1 => exact .done
  | case2 met name queue hmet ih => exact .passed hmet ih
  | case3 met name queue hmet hnone ih => exact .leaf hmet hnone ih
  | case4 met name queue hmet w hsome ih => exact .followed hmet hsome ih

theorem walk_superclassChain (index : WidgetIndex) (w : Widget) :
    index.Walk [w.simpleName] w.superclasses (index.superclassChain w) :=
  walk_ancestorsFrom index _ _

/-- The superclasses of the class that a name stands for, none if it stands for no known class. -/
def superclassesOf (index : WidgetIndex) (name : String) : List String :=
  (index.lookup? name).elim [] Widget.superclasses

theorem mem_superclassesOf :
    other ∈ index.superclassesOf name ↔
      ∃ v, index.lookup? name = some v ∧ other ∈ v.superclasses := by
  unfold superclassesOf
  cases index.lookup? name <;> simp

/-- A name with a new simple name is found, and its superclasses join the queue. -/
theorem Walk.found (hmet : simpleName name ∉ met)
    (h : index.Walk (simpleName name :: met) (queue ++ index.superclassesOf name) chain) :
    index.Walk met (name :: queue) (name :: chain) := by
  unfold superclassesOf at h
  cases hlookup : index.lookup? name with
  | none =>
    rw [hlookup, Option.elim_none, List.append_nil] at h
    exact .leaf hmet hlookup h
  | some w =>
    rw [hlookup, Option.elim_some] at h
    exact .followed hmet hlookup h

/-- Induction on a walk, in which it makes no difference whether a name that is found stands for a
known class. -/
@[elab_as_elim]
theorem Walk.induction {motive : ∀ met queue chain, index.Walk met queue chain → Prop}
    (done : ∀ met, motive met [] [] .done)
    (passed : ∀ met queue chain name (hmet : simpleName name ∈ met)
      (h : index.Walk met queue chain), motive met queue chain h →
        motive met (name :: queue) chain (.passed hmet h))
    (found : ∀ met queue chain name (hmet : simpleName name ∉ met)
      (h : index.Walk (simpleName name :: met) (queue ++ index.superclassesOf name) chain),
        motive _ _ chain h → motive met (name :: queue) (name :: chain) (.found hmet h))
    (h : index.Walk met queue chain) : motive met queue chain h := by
  induction h with
  | done => exact done _
  | passed hmet h ih => exact passed _ _ _ _ hmet h ih
  | @leaf met queue chain name hmet hnone h ih =>
    have hqueue : queue = queue ++ index.superclassesOf name := by simp [superclassesOf, hnone]
    have hall : ∀ h, motive (simpleName name :: met) queue chain h := fun _ => ih
    rw [hqueue] at h hall
    exact found met queue chain name hmet h (hall h)
  | @followed met queue chain name w hmet hsome h ih =>
    have hqueue : w.superclasses = index.superclassesOf name := by simp [superclassesOf, hsome]
    have hall : ∀ h, motive (simpleName name :: met) (queue ++ w.superclasses) chain h :=
      fun _ => ih
    rw [hqueue] at h hall
    exact found met queue chain name hmet h (hall h)

/-! ## What is above -/

/-- The name is one of those at the start, or it names a superclass of a known class above them. -/
inductive Above (index : WidgetIndex) (start : List String) : String → Prop
  | direct {name : String} : name ∈ start → Above index start name
  | further {mid name : String} {v : Widget} :
    Above index start mid → index.lookup? mid = some v → name ∈ v.superclasses →
      Above index start name

theorem Above.of_start {start' : List String} (h : index.Above start name)
    (hstart : ∀ mid ∈ start, index.Above start' mid) : index.Above start' name := by
  induction h with
  | direct hmem => exact hstart _ hmem
  | further _ hv hmem ih => exact .further ih hv hmem

/-- What is above a superclass is above the class. -/
theorem Above.of_superclass (h : index.Above v.superclasses name) (hmem : other ∈ w.superclasses)
    (hother : index.lookup? other = some v) : index.Above w.superclasses name :=
  h.of_start fun _ hmid => .further (.direct hmem) hother hmid

/-- Names that lead only to each other hold everything that is above them. -/
theorem Above.mem_of_closed {names : List String} (h : index.Above start name)
    (hstart : ∀ mid ∈ start, mid ∈ names)
    (hclosed : ∀ mid ∈ names, ∀ up ∈ index.superclassesOf mid, up ∈ names) : name ∈ names := by
  induction h with
  | direct hmem => exact hstart _ hmem
  | further _ hv hmem ih => exact hclosed _ ih _ (mem_superclassesOf.mpr ⟨_, hv, hmem⟩)

/-- The walk finds only what is above. -/
theorem Walk.above (h : index.Walk met queue chain) : ∀ found ∈ chain, index.Above queue found := by
  induction h using Walk.induction with
  | done => simp
  | passed _ _ _ _ _ _ ih =>
    intro found hmem
    exact (ih found hmem).of_start fun _ hmid => .direct (.tail _ hmid)
  | found met queue chain name _ _ ih =>
    intro found hmem
    rcases List.mem_cons.mp hmem with rfl | hmem
    · exact .direct (.head _)
    · refine (ih found hmem).of_start fun mid hmid => ?_
      rcases List.mem_append.mp hmid with hqueue | hsuper
      · exact .direct (.tail _ hqueue)
      · obtain ⟨v, hv, hsuper⟩ := mem_superclassesOf.mp hsuper
        exact .further (.direct (.head _)) hv hsuper

/-! ## What is found -/

/-- The simple name has been met, or a name with it is in the chain. -/
def Covered (met chain : List String) (name : String) : Prop :=
  simpleName name ∈ met ∨ ∃ found ∈ chain, simpleName found = simpleName name

theorem Covered.cons (h : Covered (simpleName other :: met) chain name) :
    Covered met (other :: chain) name := by
  rcases h with hmet | ⟨found, hfound, hsame⟩
  · rcases List.mem_cons.mp hmet with hsame | hmet
    · exact Or.inr ⟨other, .head _, hsame.symm⟩
    · exact Or.inl hmet
  · exact Or.inr ⟨found, .tail _ hfound, hsame⟩

theorem covered_of_mem (h : name ∈ chain) : Covered met chain name :=
  Or.inr ⟨name, h, rfl⟩

/-- Every name in the queue is passed over or found. -/
theorem Walk.covers_queue (h : index.Walk met queue chain) :
    ∀ name ∈ queue, Covered met chain name := by
  induction h using Walk.induction with
  | done => simp
  | passed _ _ _ _ hmet _ ih =>
    intro name hmem
    rcases List.mem_cons.mp hmem with rfl | hmem
    · exact Or.inl hmet
    · exact ih name hmem
  | found _ _ _ _ _ _ ih =>
    intro name hmem
    rcases List.mem_cons.mp hmem with rfl | hmem
    · exact covered_of_mem (.head _)
    · exact (ih name (List.mem_append_left _ hmem)).cons

/-- So is every superclass of what is found. -/
theorem Walk.covers_superclasses (h : index.Walk met queue chain) :
    ∀ found ∈ chain, ∀ up ∈ index.superclassesOf found, Covered met chain up := by
  induction h using Walk.induction with
  | done => simp
  | passed _ _ _ _ _ _ ih => exact ih
  | found _ _ _ _ _ hwalk ih =>
    intro found hmem up hup
    rcases List.mem_cons.mp hmem with rfl | hmem
    · exact (hwalk.covers_queue up (List.mem_append_right _ hup)).cons
    · exact (ih found hmem up hup).cons

end LayoutCompletion.WidgetIndex
