import LayoutCompletion.Proofs.Styleable.Applicable
import LayoutCompletion.Proofs.Widget.BreadthFirst

/-!
# What a class has from its superclass

A name hides others from the walk over superclasses if they share its simple name. Where no class
above a class is hidden in this way (`Unshadowed`), the class has every styleable that its
superclass has (`resolve_inherits`). A class that shares its simple name with its own superclass
does hide what is above, and has not (`not_resolve_inherits`).
-/

namespace LayoutCompletion.WidgetIndex

variable {index : WidgetIndex} {w v : Widget} {name tag : String}

/-! ## Classes that hide others -/

/--
No class above this one is hidden from the walk behind a simple name.

* `others`: names above it that share their simple name lead to the same class, and both or neither
  of them are the root container.
* `own`: names above it that share its own simple name lead to the class itself or nowhere, and are
  not the root container.
-/
structure Unshadowed (index : WidgetIndex) (w : Widget) : Prop where
  others : ∀ name, index.Above w.superclasses name → ∀ other, index.Above w.superclasses other →
    simpleName name = simpleName other →
    index.lookup? name = index.lookup? other ∧ isRootContainer name = isRootContainer other
  own : ∀ name, index.Above w.superclasses name → simpleName name = w.simpleName →
    (index.lookup? name = none ∨ index.lookup? name = some w) ∧ isRootContainer name = false

theorem Unshadowed.unambiguous (hclear : index.Unshadowed w) : index.Unambiguous w where
  others name hname other hother hsame := (hclear.others name hname other hother hsame).1
  own name hname hsame := (hclear.own name hname hsame).1

/-- If nothing is hidden, the walk covers everything that is above the class. -/
theorem Unshadowed.covered (hclear : index.Unshadowed w) (h : index.Above w.superclasses name) :
    Covered [w.simpleName] (index.superclassChain w) name :=
  hclear.unambiguous.covered h

theorem inLineage_of_covered (h : Covered [w.simpleName] (index.superclassChain w) name) :
    index.InLineage w (simpleName name) := by
  rcases h with hown | ⟨found, hfound, hsame⟩
  · rw [List.mem_singleton.mp hown]
    exact .own
  · rw [← hsame]
    exact .above hfound

/-- The root container is found by the name that stands above the class. -/
theorem Unshadowed.exists_rootContainer (hclear : index.Unshadowed w)
    (h : index.Above w.superclasses name) (hroot : isRootContainer name = true) :
    ∃ found ∈ index.superclassChain w, isRootContainer found = true := by
  rcases hclear.covered h with hown | ⟨found, hfound, hsame⟩
  · have hnot := (hclear.own name h (List.mem_singleton.mp hown)).2
    simp [hroot] at hnot
  · have habove := (walk_superclassChain index w).above found hfound
    exact ⟨found, hfound, (hclear.others found habove name h hsame).2.trans hroot⟩

/-! ## Inheritance -/

/-- A class whose superclasses are not hidden has what the superclass has of its own. -/
theorem HasOwn.of_superclass {super styleable : String} (h : index.HasOwn super styleable)
    (htag : index.lookup? tag = some w) (hsuper : index.lookup? super = some v)
    (hmem : name ∈ w.superclasses) (hname : index.lookup? name = some v)
    (hclear : index.Unshadowed w) : index.HasOwn tag styleable := by
  cases h with
  | base => exact .base (Or.inl ⟨w, htag⟩)
  | lineage hv hinner =>
    obtain rfl := Option.some.inj (hsuper.symm.trans hv)
    refine .lineage htag ?_
    cases hinner with
    | own =>
      rw [← simpleName_of_lookup? hname]
      exact inLineage_of_covered (hclear.covered (.direct hmem))
    | above hfound =>
      have habove := (walk_superclassChain index v).above _ hfound
      exact inLineage_of_covered (hclear.covered (habove.of_superclass hmem hname))
  | rootMargins hv hfound hroot =>
    obtain rfl := Option.some.inj (hsuper.symm.trans hv)
    have habove := (walk_superclassChain index v).above _ hfound
    obtain ⟨found, hfound, hroot⟩ := hclear.exists_rootContainer
      (habove.of_superclass hmem hname) (isRootContainer_iff.mpr hroot)
    exact .rootMargins htag hfound (isRootContainer_iff.mp hroot)
  | convention hnone => simp [hsuper] at hnone

/--
**A class has every styleable that its superclass has**, in every package and with the same group,
if no class above it is hidden behind a simple name and both elements stand in elements with the
same tag, or in none.
-/
theorem resolve_inherits {d d' : Document} {sub super : Nat}
    (hsub : index.classify (d.tag sub) = .known w)
    (hsuper : index.classify (d'.tag super) = .known v)
    (hmem : name ∈ w.superclasses) (hname : index.lookup? name = some v)
    (hparent : (d.parent? sub).map d.tag = (d'.parent? super).map d'.tag)
    (hclear : index.Unshadowed w) (package : Package) (styleable : String) (group : AttributeGroup)
    (hget : (index.resolve d' super package).get? styleable = some group) :
    (index.resolve d sub package).get? styleable = some group := by
  rw [classify_eq_known] at hsub hsuper
  rw [get?_resolve_eq_some] at hget ⊢
  obtain ⟨happlies, hgroup⟩ := hget
  refine ⟨?_, hgroup⟩
  rcases happlies with hown | ⟨-, parent', hparent', hoffers⟩
  · exact Or.inl (hown.of_superclass hsub hsuper hmem hname hclear)
  · rw [hparent', Option.map_some, Option.map_eq_some_iff] at hparent
    obtain ⟨parent, hparent, htag⟩ := hparent
    exact Or.inr ⟨Or.inl ⟨w, hsub⟩, parent, hparent, htag ▸ hoffers⟩

/-! ## A class that hides what is above it -/

def platformButton : Widget := ⟨"android.widget.Button", ["android.widget.TextView"]⟩

def roundButton : Widget := ⟨"com.example.RoundButton", ["android.widget.Button"]⟩

/-- Its simple name is that of its superclass. -/
def customButton : Widget := ⟨"com.example.Button", ["android.widget.Button"]⟩

/-- The button of the platform and two below it. -/
def buttonIndex : WidgetIndex :=
  ofList [customButton, roundButton, platformButton,
    ⟨"android.widget.TextView", ["android.view.View"]⟩, ⟨"android.view.View", []⟩]

/-- The document of an element without attributes. -/
def loneElement (tag : String) : Document :=
  ⟨#[⟨tag, ⟨0, tag.utf8ByteSize + 3⟩, [], none, []⟩]⟩

def textViewGroup : AttributeGroup :=
  ⟨[⟨"text", ⟨"lib"⟩, ⟨2⟩⟩]⟩

def textViewPackage : Package :=
  (Package.empty ⟨"lib"⟩).insertStyleable "TextView" [("text", ⟨2⟩)]

theorem get?_platformButton :
    (buttonIndex.resolve (loneElement "android.widget.Button") 0 textViewPackage).get? "TextView" =
      some textViewGroup := by
  have hlookup : buttonIndex.lookup? "android.widget.Button" = some platformButton := by decide
  have hcovered := (walk_superclassChain buttonIndex platformButton).covers_queue
    "android.widget.TextView" (.head _)
  have hsimple : simpleName "android.widget.TextView" = "TextView" := by decide
  rw [get?_resolve_eq_some]
  exact ⟨Or.inl (.lineage hlookup (hsimple ▸ inLineage_of_covered hcovered)), by decide⟩

/-- The classes above a button, which lead only to each other. -/
def aboveButton : List String :=
  ["android.widget.Button", "android.widget.TextView", "android.view.View"]

theorem unshadowed_roundButton : buttonIndex.Unshadowed roundButton := by
  have habove : ∀ name, buttonIndex.Above roundButton.superclasses name → name ∈ aboveButton :=
    fun _ h => h.mem_of_closed (by decide) (by decide)
  have hothers : ∀ name ∈ aboveButton, ∀ other ∈ aboveButton,
      simpleName name = simpleName other → buttonIndex.lookup? name = buttonIndex.lookup? other ∧
        isRootContainer name = isRootContainer other := by decide
  have hown : ∀ name ∈ aboveButton, simpleName name ≠ roundButton.simpleName := by decide
  refine ⟨fun name hname other hother => ?_, fun name hname hsame => ?_⟩
  · exact hothers name (habove name hname) other (habove other hother)
  · exact absurd hsame (hown name (habove name hname))

theorem resolve_inherits_roundButton :
    (buttonIndex.resolve (loneElement "com.example.RoundButton") 0 textViewPackage).get?
      "TextView" = some textViewGroup := by
  have hsub : buttonIndex.classify ((loneElement "com.example.RoundButton").tag 0) =
      .known roundButton := by decide
  have hsuper : buttonIndex.classify ((loneElement "android.widget.Button").tag 0) =
      .known platformButton := by decide
  have hname : buttonIndex.lookup? "android.widget.Button" = some platformButton := by decide
  exact resolve_inherits hsub hsuper (.head _) hname rfl unshadowed_roundButton _ _ _
    get?_platformButton

/-- A class whose superclass has its simple name is not led to what is above the two. -/
theorem not_resolve_inherits :
    ¬∀ (index : WidgetIndex) (d d' : Document) (sub super : Nat) (w v : Widget) (name : String),
      index.classify (d.tag sub) = .known w → index.classify (d'.tag super) = .known v →
      name ∈ w.superclasses → index.lookup? name = some v →
      (d.parent? sub).map d.tag = (d'.parent? super).map d'.tag →
      ∀ (package : Package) (styleable : String) (group : AttributeGroup),
        (index.resolve d' super package).get? styleable = some group →
        ∃ group, (index.resolve d sub package).get? styleable = some group := by
  intro hall
  obtain ⟨group, hget⟩ := hall buttonIndex (loneElement "com.example.Button")
    (loneElement "android.widget.Button") 0 0 customButton platformButton "android.widget.Button"
    (by decide) (by decide) (by decide) (by decide) rfl textViewPackage _ _ get?_platformButton
  have hchain : buttonIndex.superclassChain customButton = [] := by
    have hmet : simpleName "android.widget.Button" ∈ [customButton.simpleName] := by decide
    simp only [superclassChain, customButton] at hmet ⊢
    rw [ancestorsFrom, if_pos hmet, ancestorsFrom]
  have hnot : "TextView" ∉ buttonIndex.applicableNames (loneElement "com.example.Button") 0 := by
    have hclass : buttonIndex.classify ((loneElement "com.example.Button").tag 0) =
        .known customButton := by decide
    simp only [applicableNames, hclass, ownNames, lineage, hchain]
    decide
  exact hnot (mem_applicableNames.mpr (get?_resolve_eq_some.mp hget).1)

end LayoutCompletion.WidgetIndex
