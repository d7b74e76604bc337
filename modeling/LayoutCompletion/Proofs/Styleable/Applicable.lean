import LayoutCompletion.Proofs.Styleable.Groups
import LayoutCompletion.Proofs.Widget.Names

/-!
# Which styleables apply

`WidgetIndex.Applies` says under which names styleables apply to an element: those that its tag has
of its own (`HasOwn`) and those that the tag around it offers (`OffersToChildren`). The set that is
resolved for a package has exactly the styleables that apply and that the package declares, each
under its name (`resolve_exact`).
-/

namespace LayoutCompletion.WidgetIndex

/-- The simple name of a class, or of one above it. -/
inductive InLineage (index : WidgetIndex) (w : Widget) : String → Prop
  | own : InLineage index w w.simpleName
  | above {name : String} : name ∈ index.superclassChain w → InLineage index w (simpleName name)

/-- The tag stands for something: a class, or by convention whatever its last segment names. -/
def Resolves (index : WidgetIndex) (tag : String) : Prop :=
  (∃ w, index.lookup? tag = some w) ∨ '.' ∈ tag.toList

/-- The two endings of the names of layout parameters. -/
def IsLayoutSuffix (suffix : String) : Prop :=
  suffix = "_Layout" ∨ suffix = "_MarginLayout"

/--
The styleable with this name applies to an element with this tag, wherever the element stands.

* `base`: what every widget has, if the tag stands for something.
* `lineage`, `rootMargins`: what the class of the tag has, and what every container has if that
  class is below the one that all containers extend.
* `convention`: what the last segment of the tag names, if the tag is no known class.
-/
inductive HasOwn (index : WidgetIndex) (tag : String) : String → Prop
  | base : index.Resolves tag → HasOwn index tag "View"
  | lineage {w : Widget} {name : String} :
    index.lookup? tag = some w → index.InLineage w name → HasOwn index tag name
  | rootMargins {w : Widget} {name : String} :
    index.lookup? tag = some w → name ∈ index.superclassChain w →
      name = "android.view.ViewGroup" ∨ name = "ViewGroup" →
      HasOwn index tag "ViewGroup_MarginLayout"
  | convention {last : String} :
    index.lookup? tag = none → IsLastSegment last tag → HasOwn index tag last

/--
The styleable with this name applies to what stands directly in an element with this tag.

* `container`: what every container offers, even if the tag stands for nothing.
* `lineage`: what the class of the tag offers, or one above it.
-/
inductive OffersToChildren (index : WidgetIndex) (tag : String) : String → Prop
  | container {suffix : String} :
    IsLayoutSuffix suffix → OffersToChildren index tag ("ViewGroup" ++ suffix)
  | lineage {w : Widget} {name suffix : String} :
    index.lookup? tag = some w → index.InLineage w name → IsLayoutSuffix suffix →
      OffersToChildren index tag (name ++ suffix)

/-- The styleable with this name applies to the element. The element around it counts only if the
element's own tag stands for something. -/
def Applies (index : WidgetIndex) (d : Document) (node : Nat) (name : String) : Prop :=
  index.HasOwn (d.tag node) name ∨
    index.Resolves (d.tag node) ∧
      ∃ parent, d.parent? node = some parent ∧ index.OffersToChildren (d.tag parent) name

variable {index : WidgetIndex} {d : Document} {node : Nat} {tag name : String} {w : Widget}

/-! ## What a tag stands for -/

theorem classify_eq_known : index.classify tag = .known w ↔ index.lookup? tag = some w := by
  unfold classify
  cases index.lookup? tag with
  | some v => simp
  | none =>
    dsimp only
    split <;> simp

theorem classify_eq_convention :
    index.classify tag = .convention name ↔
      index.lookup? tag = none ∧ IsLastSegment name tag := by
  unfold classify
  cases index.lookup? tag with
  | some v => simp
  | none =>
    dsimp only
    split
    · next hdotted => simp [isLastSegment_iff hdotted]
    · next hplain =>
      simp only [reduceCtorEq, true_and, false_iff]
      exact fun hlast => hplain hlast.isDotted

theorem classify_ne_unresolved : index.classify tag ≠ .unresolved ↔ index.Resolves tag := by
  unfold classify Resolves
  rw [← isDotted_iff]
  cases index.lookup? tag with
  | some v => simp
  | none =>
    dsimp only
    split
    · next hdotted => simp [hdotted]
    · next hplain => simp [hplain]

/-! ## What a tag has of its own -/

theorem mem_lineage : name ∈ index.lineage w ↔ index.InLineage w name := by
  unfold lineage
  rw [List.mem_cons, List.mem_map]
  constructor
  · rintro (rfl | ⟨above, habove, rfl⟩)
    · exact .own
    · exact .above habove
  · rintro (_ | habove)
    · exact Or.inl rfl
    · exact Or.inr ⟨_, habove, rfl⟩

theorem isRootContainer_iff :
    isRootContainer name = true ↔ name = "android.view.ViewGroup" ∨ name = "ViewGroup" := by
  simp only [isRootContainer, Bool.or_eq_true, decide_eq_true_eq]
  rfl

theorem mem_ownNames_known :
    name ∈ index.ownNames (.known w) ↔ name = "View" ∨ index.InLineage w name ∨
      name = "ViewGroup_MarginLayout" ∧ ∃ above ∈ index.superclassChain w,
        above = "android.view.ViewGroup" ∨ above = "ViewGroup" := by
  have hroot : (index.superclassChain w).any isRootContainer = true ↔
      ∃ above ∈ index.superclassChain w,
        above = "android.view.ViewGroup" ∨ above = "ViewGroup" := by
    simp only [List.any_eq_true, isRootContainer_iff]
  simp only [ownNames, List.cons_append, List.mem_cons, List.mem_append, mem_lineage, ← hroot]
  split
  · next hbelow =>
    simp only [List.mem_singleton, hbelow, and_true]
    rfl
  · next hbelow =>
    simp only [List.not_mem_nil, or_false, hbelow, and_false, Bool.false_eq_true]
    rfl

theorem mem_ownNames : name ∈ index.ownNames (index.classify tag) ↔ index.HasOwn tag name := by
  cases hc : index.classify tag with
  | known w =>
    have hw : index.lookup? tag = some w := classify_eq_known.mp hc
    rw [mem_ownNames_known]
    constructor
    · rintro (rfl | hinner | ⟨rfl, above, habove, hroot⟩)
      · exact .base (Or.inl ⟨w, hw⟩)
      · exact .lineage hw hinner
      · exact .rootMargins hw habove hroot
    · rintro (- | ⟨hv, hinner⟩ | ⟨hv, habove, hroot⟩ | ⟨hnone, -⟩)
      · exact Or.inl rfl
      · obtain rfl := Option.some.inj (hw.symm.trans hv)
        exact Or.inr (Or.inl hinner)
      · obtain rfl := Option.some.inj (hw.symm.trans hv)
        exact Or.inr (Or.inr ⟨rfl, _, habove, hroot⟩)
      · simp [hw] at hnone
  | convention last =>
    obtain ⟨hnone, hlast⟩ := classify_eq_convention.mp hc
    simp only [ownNames, List.mem_cons, List.not_mem_nil, or_false]
    constructor
    · rintro (rfl | rfl)
      · exact .base (Or.inr (isDotted_iff.mp hlast.isDotted))
      · exact .convention hnone hlast
    · rintro (- | ⟨hw, -⟩ | ⟨hw, -, -⟩ | ⟨-, hname⟩)
      · exact Or.inl rfl
      · simp [hnone] at hw
      · simp [hnone] at hw
      · exact Or.inr (hname.simpleName_eq.symm.trans hlast.simpleName_eq)
  | unresolved =>
    have hnot : ¬index.Resolves tag := fun h => classify_ne_unresolved.mpr h hc
    simp only [ownNames, List.not_mem_nil, false_iff]
    rintro (h | ⟨hw, -⟩ | ⟨hw, -, -⟩ | ⟨-, hlast⟩)
    · exact hnot h
    · exact hnot (Or.inl ⟨_, hw⟩)
    · exact hnot (Or.inl ⟨_, hw⟩)
    · exact hnot (Or.inr (isDotted_iff.mp hlast.isDotted))

/-! ## What a tag offers to children -/

theorem mem_layoutNames {c : WidgetClass} :
    name ∈ index.layoutNames c ↔ ∃ w inner suffix, c = .known w ∧ index.InLineage w inner ∧
      IsLayoutSuffix suffix ∧ name = inner ++ suffix := by
  cases c with
  | known w =>
    simp only [layoutNames, List.mem_flatMap, mem_lineage, List.mem_cons, List.not_mem_nil,
      or_false, WidgetClass.known.injEq]
    constructor
    · rintro ⟨inner, hinner, rfl | rfl⟩
      · exact ⟨w, inner, "_Layout", rfl, hinner, Or.inl rfl, rfl⟩
      · exact ⟨w, inner, "_MarginLayout", rfl, hinner, Or.inr rfl, rfl⟩
    · rintro ⟨_, inner, _, rfl, hinner, rfl | rfl, rfl⟩
      · exact ⟨inner, hinner, Or.inl rfl⟩
      · exact ⟨inner, hinner, Or.inr rfl⟩
  | convention last => simp [layoutNames]
  | unresolved => simp [layoutNames]

theorem mem_parentNames :
    name ∈ index.parentNames d node ↔
      ∃ parent, d.parent? node = some parent ∧ index.OffersToChildren (d.tag parent) name := by
  have hlayout : containerLayout = "ViewGroup" ++ "_Layout" := by decide
  have hmargins : containerMarginLayout = "ViewGroup" ++ "_MarginLayout" := by decide
  unfold parentNames
  cases d.parent? node with
  | none => simp
  | some parent =>
    simp only [List.mem_cons, mem_layoutNames, classify_eq_known, hlayout, hmargins,
      Option.some.injEq, exists_eq_left']
    constructor
    · rintro (rfl | rfl | ⟨w, inner, suffix, hw, hinner, hsuffix, rfl⟩)
      · exact .container (Or.inl rfl)
      · exact .container (Or.inr rfl)
      · exact .lineage hw hinner hsuffix
    · rintro (hsuffix | ⟨hw, hinner, hsuffix⟩)
      · rcases hsuffix with rfl | rfl
        · exact Or.inl rfl
        · exact Or.inr (Or.inl rfl)
      · exact Or.inr (Or.inr ⟨_, _, _, hw, hinner, hsuffix, rfl⟩)

/-! ## The set for a package -/

theorem applicableNames_eq (index : WidgetIndex) (d : Document) (node : Nat) :
    index.applicableNames d node =
      index.ownNames (index.classify (d.tag node)) ++
        if index.classify (d.tag node) = .unresolved then [] else index.parentNames d node := by
  unfold applicableNames
  cases index.classify (d.tag node) <;> simp [ownNames]

theorem mem_applicableNames :
    name ∈ index.applicableNames d node ↔ index.Applies d node name := by
  rw [applicableNames_eq, List.mem_append, mem_ownNames, Applies]
  refine or_congr_right ?_
  split
  · next hc =>
    have hnot : ¬index.Resolves (d.tag node) := fun h => classify_ne_unresolved.mpr h hc
    simp [hnot]
  · next hc => simp [classify_ne_unresolved.mp hc, mem_parentNames]

/-- What applies depends on the tag of the element and the tag around it, and on nothing else. -/
theorem applicableNames_congr {d' : Document} {node' : Nat} (htag : d'.tag node' = d.tag node)
    (hparent : (d'.parent? node').map d'.tag = (d.parent? node).map d.tag) :
    index.applicableNames d' node' = index.applicableNames d node := by
  have hoffered : index.parentNames d' node' = index.parentNames d node := by
    unfold parentNames
    cases hp' : d'.parent? node' <;> cases hp : d.parent? node <;> simp_all
  rw [applicableNames_eq, applicableNames_eq, htag, hoffered]

theorem get?_resolve_eq_some {package : Package} {group : AttributeGroup} :
    (index.resolve d node package).get? name = some group ↔
      index.Applies d node name ∧ package.styleable? name = some group := by
  rw [resolve, StyleableSet.get?_ofNames, ← mem_applicableNames]
  split
  · next hmem => simp [hmem]
  · next hmem => simp [hmem]

/--
The set that is resolved for a package has exactly the styleables that apply to the element and that
the package declares, each once and with the group that the package has for it. It is the same set
for every element with the same tag in an element with the same tag, or in none.
-/
theorem resolve_exact (index : WidgetIndex) (d : Document) (node : Nat) (package : Package) :
    (index.resolve d node package).groups.keys.Nodup ∧
    (∀ name group, (index.resolve d node package).get? name = some group ↔
      index.Applies d node name ∧ package.styleable? name = some group) ∧
    ∀ (d' : Document) (node' : Nat), d'.tag node' = d.tag node →
      (d'.parent? node').map d'.tag = (d.parent? node).map d.tag →
      index.resolve d' node' package = index.resolve d node package := by
  refine ⟨StyleableSet.nodup_keys_ofNames _ _, fun _ _ => get?_resolve_eq_some, ?_⟩
  intro d' node' htag hparent
  rw [resolve, applicableNames_congr htag hparent, resolve]

end LayoutCompletion.WidgetIndex
