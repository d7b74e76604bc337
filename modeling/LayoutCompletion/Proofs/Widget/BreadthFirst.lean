import LayoutCompletion.Proofs.Widget.Ancestry
import Mathlib.Data.Nat.Find

/-!
# In which order the walk finds classes

For every index the walk comes to an end, finds each simple name at most once and never that of the
class itself, and finds a name only behind one that leads to it (`FoundAbove`).

Whether it finds everything depends on the names. A class with the simple name of another one hides
it, unless both stand for the same class. Where names are told apart by their simple names in this
sense (`Unambiguous`), the walk finds every simple name above the class, the nearest names first
(`FoundInOrder`).

The order rests on the queue: it has names of one distance and behind them names that are one step
further away, and everything nearer has been met (`Frontier`).
-/

namespace LayoutCompletion.WidgetIndex

variable {index : WidgetIndex} {w v : Widget} {name other : String}
  {met queue chain now next : List String} {steps fewer : Nat}

/-! ## Each simple name once -/

theorem Walk.fresh (h : index.Walk met queue chain) :
    ∀ found ∈ chain, simpleName found ∉ met := by
  induction h using Walk.induction with
  | done => simp
  | passed _ _ _ _ _ _ ih => exact ih
  | found met queue chain name hmet _ ih =>
    intro found hmem
    rcases List.mem_cons.mp hmem with rfl | hmem
    · exact hmet
    · exact fun hold => ih found hmem (.tail _ hold)

theorem Walk.distinct (h : index.Walk met queue chain) : (chain.map simpleName).Nodup := by
  induction h using Walk.induction with
  | done => exact List.nodup_nil
  | passed _ _ _ _ _ _ ih => exact ih
  | found met queue chain name _ hwalk ih =>
    rw [List.map_cons, List.nodup_cons]
    refine ⟨fun hmem => ?_, ih⟩
    obtain ⟨found, hfound, hsame⟩ := List.mem_map.mp hmem
    exact hwalk.fresh found hfound (hsame ▸ .head _)

/-- A name that is found was in the queue, or one that was found before leads to it. -/
theorem Walk.preceded (h : index.Walk met queue chain) :
    ∀ before name behind, chain = before ++ name :: behind →
      name ∈ queue ∨ ∃ mid ∈ before, name ∈ index.superclassesOf mid := by
  induction h using Walk.induction with
  | done =>
    intro before name behind hsplit
    simp at hsplit
  | passed _ _ _ _ _ _ ih =>
    intro before name behind hsplit
    exact (ih before name behind hsplit).imp_left (.tail _)
  | found met queue chain first _ _ ih =>
    intro before name behind hsplit
    cases before with
    | nil =>
      obtain ⟨rfl, -⟩ := List.cons.inj hsplit
      exact Or.inl (.head _)
    | cons mid before =>
      obtain ⟨rfl, hrest⟩ := List.cons.inj hsplit
      rcases ih before name behind hrest with hmem | ⟨mid, hmid, hmem⟩
      · rcases List.mem_append.mp hmem with hqueue | hsuper
        · exact Or.inl (.tail _ hqueue)
        · exact Or.inr ⟨first, .head _, hsuper⟩
      · exact Or.inr ⟨mid, .tail _ hmid, hmem⟩

/-- Of one queue, the walk gives one chain. -/
theorem Walk.eq_ancestorsFrom (h : index.Walk met queue chain) :
    chain = index.ancestorsFrom met queue := by
  induction h with
  | done => rw [ancestorsFrom]
  | passed hmet _ ih => rw [ancestorsFrom, if_pos hmet, ih]
  | leaf hmet hnone _ ih =>
    rw [ancestorsFrom, if_neg hmet, ih]
    split
    · rfl
    · next hsome => simp [hnone] at hsome
  | followed hmet hsome _ ih =>
    rw [ancestorsFrom, if_neg hmet, ih]
    split
    · next hnone => simp [hsome] at hnone
    · next hsome' =>
      obtain rfl := Option.some.inj (hsome.symm.trans hsome')
      rfl

/-! ## Distances -/

/-- The name is so many steps above the class: it names a superclass, or a superclass of a known
class one step nearer. -/
inductive AboveBy (index : WidgetIndex) (w : Widget) : Nat → String → Prop
  | direct {name : String} : name ∈ w.superclasses → AboveBy index w 1 name
  | further {steps : Nat} {mid name : String} {v : Widget} :
    AboveBy index w steps mid → index.lookup? mid = some v → name ∈ v.superclasses →
      AboveBy index w (steps + 1) name

/-- The name is so many steps above the class, and no fewer by any other way. -/
def Distance (index : WidgetIndex) (w : Widget) (name : String) (steps : Nat) : Prop :=
  index.AboveBy w steps name ∧ ∀ fewer, index.AboveBy w fewer name → steps ≤ fewer

theorem AboveBy.above (h : index.AboveBy w steps name) : index.Above w.superclasses name := by
  induction h with
  | direct hmem => exact .direct hmem
  | further _ hv hmem ih => exact .further ih hv hmem

theorem Above.exists_steps (h : index.Above w.superclasses name) :
    ∃ steps, index.AboveBy w steps name := by
  induction h with
  | direct hmem => exact ⟨1, .direct hmem⟩
  | further _ hv hmem ih =>
    obtain ⟨steps, hsteps⟩ := ih
    exact ⟨steps + 1, .further hsteps hv hmem⟩

theorem AboveBy.pos (h : index.AboveBy w steps name) : 0 < steps := by
  cases h <;> exact Nat.succ_pos _

/-- What is above the class has a distance from it. -/
theorem Above.exists_distance (h : index.Above w.superclasses name) :
    ∃ steps, index.Distance w name steps := by
  classical
  have hsome := h.exists_steps
  exact ⟨Nat.find hsome, Nat.find_spec hsome, fun _ hfewer => Nat.find_min' hsome hfewer⟩

/-! ## Names that are told apart -/

/--
Names above the class that share a simple name stand for the same class.

* `others`: two names with one simple name lead to the same class, or both nowhere.
* `own`: names with the simple name of the class itself lead to it or nowhere.
-/
structure Unambiguous (index : WidgetIndex) (w : Widget) : Prop where
  others : ∀ name, index.Above w.superclasses name → ∀ other, index.Above w.superclasses other →
    simpleName name = simpleName other → index.lookup? name = index.lookup? other
  own : ∀ name, index.Above w.superclasses name → simpleName name = w.simpleName →
    index.lookup? name = none ∨ index.lookup? name = some w

namespace Unambiguous

theorem superclassesOf_eq (h : index.Unambiguous w) (hname : index.Above w.superclasses name)
    (hother : index.Above w.superclasses other) (hsame : simpleName name = simpleName other) :
    index.superclassesOf name = index.superclassesOf other := by
  unfold superclassesOf
  rw [h.others name hname other hother hsame]

/-- Under the name of the class itself nothing is found that is not above it directly. -/
theorem superclassesOf_own (h : index.Unambiguous w) (hname : index.Above w.superclasses name)
    (hsame : simpleName name = w.simpleName) (hmem : other ∈ index.superclassesOf name) :
    other ∈ w.superclasses := by
  obtain ⟨v, hv, hmem⟩ := mem_superclassesOf.mp hmem
  rcases h.own name hname hsame with hnone | hself
  · simp [hnone] at hv
  · obtain rfl := Option.some.inj (hself.symm.trans hv)
    exact hmem

/-- If nothing is hidden, the walk covers everything that is above the class. -/
theorem covered (h : index.Unambiguous w) (hname : index.Above w.superclasses name) :
    Covered [w.simpleName] (index.superclassChain w) name := by
  have hwalk := walk_superclassChain index w
  induction hname with
  | direct hmem => exact hwalk.covers_queue _ hmem
  | @further mid name v hmid hv hmem ih =>
    have hup : name ∈ index.superclassesOf mid := mem_superclassesOf.mpr ⟨v, hv, hmem⟩
    rcases ih with hown | ⟨found, hfound, hsame⟩
    · -- the walk is back at the class itself, whose superclasses it began with
      have hsuper := h.superclassesOf_own hmid (List.mem_singleton.mp hown) hup
      exact hwalk.covers_queue _ hsuper
    · rw [← h.superclassesOf_eq (hwalk.above found hfound) hmid hsame] at hup
      exact hwalk.covers_superclasses found hfound name hup

end Unambiguous

/-! ## The queue of the walk -/

/--
How far the walk has come, if its queue is `now ++ next`.

* `pos`: it begins one step above the class.
* `now_by`, `next_by`: the names in the first part are so many steps above the class, those in the
  second part one step more.
* `nearer`: names that are fewer steps away have been met.
* `here`: so have those that are as many steps away, unless they are in the first part.
* `closed`: what has been met leads only to what has been met or is in the queue.
-/
structure Frontier (index : WidgetIndex) (w : Widget) (met : List String) (steps : Nat)
    (now next : List String) : Prop where
  pos : 0 < steps
  now_by : ∀ name ∈ now, index.AboveBy w steps name
  next_by : ∀ name ∈ next, index.AboveBy w (steps + 1) name
  nearer : ∀ fewer < steps, ∀ name, index.AboveBy w fewer name → simpleName name ∈ met
  here : ∀ name, index.AboveBy w steps name → Covered met now name
  closed : ∀ name, index.Above w.superclasses name → simpleName name ∈ met →
    ∀ up ∈ index.superclassesOf name, Covered met (now ++ next) up

theorem Covered.of_cons (h : Covered met (other :: chain) name) :
    Covered (simpleName other :: met) chain name := by
  rcases h with hmet | ⟨found, hfound, hsame⟩
  · exact Or.inl (.tail _ hmet)
  · rcases List.mem_cons.mp hfound with rfl | hfound
    · exact Or.inl (hsame ▸ .head _)
    · exact Or.inr ⟨found, hfound, hsame⟩

theorem Covered.of_met (h : Covered met (other :: chain) name) (hother : simpleName other ∈ met) :
    Covered met chain name := by
  rcases h.of_cons with hmet | hfound
  · rcases List.mem_cons.mp hmet with hsame | hmet
    · exact Or.inl (hsame ▸ hother)
    · exact Or.inl hmet
  · exact Or.inr hfound

theorem Covered.append_right (h : Covered met chain name) (more : List String) :
    Covered met (chain ++ more) name :=
  h.imp_right fun ⟨found, hfound, hsame⟩ => ⟨found, List.mem_append_left _ hfound, hsame⟩

namespace Frontier

/-- In the beginning the queue has the direct superclasses. -/
theorem initial (h : index.Unambiguous w) :
    index.Frontier w [w.simpleName] 1 w.superclasses [] where
  pos := Nat.one_pos
  now_by _ hmem := .direct hmem
  next_by _ hmem := by cases hmem
  nearer fewer hfewer name hname := absurd hname.pos (by omega)
  here name hname := by
    cases hname with
    | direct hmem => exact covered_of_mem hmem
    | further hmid => exact absurd hmid.pos (Nat.lt_irrefl 0)
  closed name hname hmet up hup := by
    rw [List.append_nil]
    exact covered_of_mem (h.superclassesOf_own hname (List.mem_singleton.mp hmet) hup)

/-- When no name of this distance is left, the next distance begins. -/
theorem advance (h : index.Frontier w met steps [] next) :
    index.Frontier w met (steps + 1) next [] := by
  have hmet : ∀ name, index.AboveBy w steps name → simpleName name ∈ met := by
    intro name hname
    rcases h.here name hname with hmet | ⟨_, hnil, -⟩
    · exact hmet
    · cases hnil
  constructor
  case pos => exact Nat.succ_pos steps
  case now_by => exact h.next_by
  case next_by =>
    intro name hmem
    cases hmem
  case nearer =>
    intro fewer hfewer name hname
    rcases Nat.lt_succ_iff_lt_or_eq.mp hfewer with hlt | rfl
    · exact h.nearer fewer hlt name hname
    · exact hmet name hname
  case here =>
    intro name hname
    cases hname with
    | direct => exact absurd h.pos (Nat.lt_irrefl 0)
    | further hmid hv hmem =>
      exact h.closed _ hmid.above (hmet _ hmid) name (mem_superclassesOf.mpr ⟨_, hv, hmem⟩)
  case closed =>
    rw [List.append_nil]
    exact h.closed

/-- Where there is a name in the queue, it is one of the nearest. -/
theorem exists_head (h : index.Frontier w met steps now next)
    (hqueue : name :: queue = now ++ next) :
    ∃ steps' now' next', steps ≤ steps' ∧ queue = now' ++ next' ∧
      index.Frontier w met steps' (name :: now') next' := by
  cases now with
  | nil =>
    rw [List.nil_append] at hqueue
    subst hqueue
    exact ⟨steps + 1, queue, [], Nat.le_succ steps, (List.append_nil queue).symm, h.advance⟩
  | cons first now =>
    obtain ⟨rfl, rfl⟩ := List.cons.inj hqueue
    exact ⟨steps, now, next, Nat.le_refl steps, rfl, h⟩

/-- A name that has been met leaves the queue. -/
theorem passed (h : index.Frontier w met steps (name :: now) next)
    (hmet : simpleName name ∈ met) : index.Frontier w met steps now next where
  pos := h.pos
  now_by other hmem := h.now_by other (.tail _ hmem)
  next_by := h.next_by
  nearer := h.nearer
  here other hother := (h.here other hother).of_met hmet
  closed other hother hmem up hup := (h.closed other hother hmem up hup).of_met hmet

/-- A name that is found leaves the queue as well, and what it leads to comes in, one step further
away. -/
theorem found (hclear : index.Unambiguous w) (h : index.Frontier w met steps (name :: now) next) :
    index.Frontier w (simpleName name :: met) steps now (next ++ index.superclassesOf name) := by
  have hname := h.now_by name (.head _)
  constructor
  case pos => exact h.pos
  case now_by => exact fun other hmem => h.now_by other (.tail _ hmem)
  case next_by =>
    intro other hmem
    rcases List.mem_append.mp hmem with hold | hnew
    · exact h.next_by other hold
    · obtain ⟨v, hv, hmem⟩ := mem_superclassesOf.mp hnew
      exact .further hname hv hmem
  case nearer => exact fun fewer hfewer other hother => .tail _ (h.nearer fewer hfewer other hother)
  case here => exact fun other hother => (h.here other hother).of_cons
  case closed =>
    intro other hother hmem up hup
    rw [← List.append_assoc]
    rcases List.mem_cons.mp hmem with hsame | hmem
    · -- another spelling of the name leads to the same superclasses
      rw [hclear.superclassesOf_eq hother hname.above hsame] at hup
      exact covered_of_mem (List.mem_append_right _ hup)
    · exact (h.closed other hother hmem up hup).of_cons.append_right _

end Frontier

/-- From a place of the walk on, nothing nearer is found, and what is found is found in the order of
the distances. -/
theorem Walk.ascends (hclear : index.Unambiguous w) (hwalk : index.Walk met queue chain)
    (hqueue : queue = now ++ next) (h : index.Frontier w met steps now next) :
    (∀ name ∈ chain, ∀ more, index.AboveBy w more name → steps ≤ more) ∧
      chain.Pairwise fun near far => ∃ j, index.AboveBy w j near ∧
        ∀ k, index.AboveBy w k far → j ≤ k := by
  induction hwalk using Walk.induction generalizing steps now next with
  | done => exact ⟨nofun, .nil⟩
  | passed met queue chain name hmet _ ih =>
    obtain ⟨steps', now', next', hle, hrest, h'⟩ := h.exists_head hqueue
    obtain ⟨hfar, hsorted⟩ := ih hrest (h'.passed hmet)
    exact ⟨fun other hmem more hmore => Nat.le_trans hle (hfar other hmem more hmore), hsorted⟩
  | found met queue chain name hmet _ ih =>
    obtain ⟨steps', now', next', hle, rfl, h'⟩ := h.exists_head hqueue
    obtain ⟨hfar, hsorted⟩ := ih (List.append_assoc _ _ _) (h'.found hclear)
    -- a name that could be reached in fewer steps would have been met
    have hname : ∀ more, index.AboveBy w more name → steps' ≤ more := by
      intro more hmore
      by_contra hlt
      exact hmet (h'.nearer more (Nat.lt_of_not_le hlt) name hmore)
    refine ⟨fun other hmem more hmore => Nat.le_trans hle ?_, List.pairwise_cons.mpr ⟨?_, hsorted⟩⟩
    · rcases List.mem_cons.mp hmem with rfl | hmem
      · exact hname more hmore
      · exact hfar other hmem more hmore
    · intro far hmem
      exact ⟨steps', h'.now_by name (.head _), hfar far hmem⟩

/-! ## The chain of a class -/

/--
What holds of the classes above a class that the walk finds, whatever the index is.

* `walk`: the walk from the direct superclasses on comes to its end with this chain, and with no
  other one.
* `distinct`, `ne_own`: the simple names are different from one another and from that of the class.
* `preceded`: each name is one of a direct superclass, or one before it in the chain leads to it.
-/
structure FoundAbove (index : WidgetIndex) (w : Widget) (chain : List String) : Prop where
  walk : ∀ other, index.Walk [w.simpleName] w.superclasses other ↔ other = chain
  distinct : (chain.map simpleName).Nodup
  ne_own : ∀ name ∈ chain, simpleName name ≠ w.simpleName
  preceded : ∀ before name behind, chain = before ++ name :: behind →
    name ∈ w.superclasses ∨
      ∃ mid ∈ before, ∃ v, index.lookup? mid = some v ∧ name ∈ v.superclasses

/--
The chain has what is above the class, the nearest first.

* `simple_iff`: its simple names are those of all names above the class, without that of the class
  itself.
* `distance`, `nearest_first`: each name has a distance from the class, and the distances do not
  decrease along the chain.
-/
structure FoundInOrder (index : WidgetIndex) (w : Widget) (chain : List String) : Prop where
  simple_iff : ∀ simple, simple ∈ chain.map simpleName ↔ simple ≠ w.simpleName ∧
    ∃ name, index.Above w.superclasses name ∧ simpleName name = simple
  distance : ∀ name ∈ chain, ∃ steps, index.Distance w name steps
  nearest_first : chain.Pairwise fun near far =>
    ∀ j k, index.Distance w near j → index.Distance w far k → j ≤ k

/--
**The walk over superclasses ends and finds each simple name once**, for every index, cyclic or not.
Where simple names tell the classes above apart, it finds all of them, the nearest first.
-/
theorem superclassChain_found (index : WidgetIndex) (w : Widget) :
    index.FoundAbove w (index.superclassChain w) ∧
      (index.Unambiguous w → index.FoundInOrder w (index.superclassChain w)) := by
  have hwalk := walk_superclassChain index w
  have hown : ∀ name ∈ index.superclassChain w, simpleName name ≠ w.simpleName :=
    fun name hmem hsame => hwalk.fresh name hmem (List.mem_singleton.mpr hsame)
  constructor
  · refine ⟨fun other => ?_, hwalk.distinct, hown, fun before name behind hsplit => ?_⟩
    · exact ⟨Walk.eq_ancestorsFrom, fun hother => hother ▸ hwalk⟩
    · refine (hwalk.preceded before name behind hsplit).imp_right ?_
      rintro ⟨mid, hmid, hmem⟩
      exact ⟨mid, hmid, mem_superclassesOf.mp hmem⟩
  · intro hclear
    obtain ⟨-, hsorted⟩ :=
      hwalk.ascends hclear (List.append_nil _).symm (Frontier.initial hclear)
    refine ⟨fun simple => ?_, fun name hmem => ?_, hsorted.imp ?_⟩
    · constructor
      · intro hmem
        obtain ⟨name, hname, rfl⟩ := List.mem_map.mp hmem
        exact ⟨hown name hname, name, hwalk.above name hname, rfl⟩
      · rintro ⟨hne, name, hname, rfl⟩
        rcases hclear.covered hname with hmet | ⟨found, hfound, hsame⟩
        · exact absurd (List.mem_singleton.mp hmet) hne
        · exact List.mem_map.mpr ⟨found, hfound, hsame⟩
    · exact (hwalk.above name hmem).exists_distance
    · rintro near far ⟨i, hi, hfar⟩ j k ⟨-, hj⟩ ⟨hk, -⟩
      exact Nat.le_trans (hj i hi) (hfar k hk)

/-! ## A sample with a cycle -/

def cyclicWidget : Widget := ⟨"a.A", ["b.B", "c.C"]⟩

/-- The class is above itself, and one of those above it goes by two names. -/
def cyclicIndex : WidgetIndex :=
  ofList [cyclicWidget, ⟨"b.B", ["d.D", "a.A"]⟩, ⟨"c.C", ["D", "e.E"]⟩, ⟨"d.D", ["f.F"]⟩]

theorem unambiguous_cyclicWidget : cyclicIndex.Unambiguous cyclicWidget := by
  let names := ["a.A", "b.B", "c.C", "d.D", "D", "e.E", "f.F"]
  have habove : ∀ name, cyclicIndex.Above cyclicWidget.superclasses name → name ∈ names :=
    fun _ h => h.mem_of_closed (by decide) (by decide)
  have hothers : ∀ name ∈ names, ∀ other ∈ names, simpleName name = simpleName other →
      cyclicIndex.lookup? name = cyclicIndex.lookup? other := by decide
  have hown : ∀ name ∈ names, simpleName name = cyclicWidget.simpleName →
      cyclicIndex.lookup? name = none ∨ cyclicIndex.lookup? name = some cyclicWidget := by decide
  constructor
  · intro name hname other hother
    exact hothers name (habove name hname) other (habove other hother)
  · intro name hname
    exact hown name (habove name hname)

theorem superclassChain_found_cyclic :
    cyclicIndex.superclassChain cyclicWidget = ["b.B", "c.C", "d.D", "e.E", "f.F"] ∧
      cyclicIndex.FoundInOrder cyclicWidget (cyclicIndex.superclassChain cyclicWidget) :=
  ⟨by cbv, (superclassChain_found cyclicIndex cyclicWidget).2 unambiguous_cyclicWidget⟩

end LayoutCompletion.WidgetIndex
