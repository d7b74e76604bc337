import LayoutCompletion.Proofs.Dictionary
import LayoutCompletion.View.Include

/-!
# Views without what they stand for

A view that stands for an included layout shows the root of that layout, and whatever is set on it
is set on that root. So nothing is lost if all such views are replaced by what they show
(`View.plain`): the lines stay the same (`View.print_plain`), and attributes are set as before
(`View.plain_applyAll`).

Setting attributes one after the other on an element without any leaves each name where it came in
first, with the value that came in last (`foldl_setAttribute_nil`).
-/

namespace LayoutCompletion

/-! ## Setting attributes -/

/-- The attributes with these values in place of theirs; those that are new come last, one after the
other. -/
def overridden (attributes overrides : List (String × String)) : List (String × String) :=
  overrides.foldl (fun attributes a => Dictionary.replace a.1 a.2 attributes) attributes

/-- Every name once, at the place of its first value, with its last one. -/
def settled (attributes : List (String × String)) : List (String × String) :=
  (attributes.map Prod.fst).eraseDups.filterMap fun name =>
    (attributes.reverse.lookup name).map fun value => (name, value)

theorem setAttribute_eq_replace (name value : String) (attributes : List (String × String)) :
    setAttribute name value attributes = Dictionary.replace name value attributes := by
  induction attributes with
  | nil => rfl
  | cons a rest ih =>
    rw [setAttribute, Dictionary.replace, ih]

theorem entries_ofList (attributes : List (String × String)) :
    (Dictionary.ofList attributes).entries = settled attributes := by
  rw [Dictionary.entries_eq, Dictionary.keys_ofList]
  simp only [Dictionary.get?_ofList]
  rfl

/-- Attributes that are set one after the other settle. -/
theorem overridden_nil (attributes : List (String × String)) :
    overridden [] attributes = settled attributes := by
  have hentries : ∀ d : Dictionary String String, overridden d.entries attributes =
      (attributes.foldl (fun d a => d.insert a.1 a.2) d).entries := by
    unfold overridden
    induction attributes with
    | nil => exact fun _ => rfl
    | cons a rest ih => exact fun d => ih (d.insert a.1 a.2)
  exact (hentries .empty).trans (entries_ofList attributes)

/-! ## What a view shows -/

namespace View

mutual

/-- The view with what is shown in place of everything that stands for it. -/
def plain : View → View
  | .element tag attributes children => .element tag attributes (plainAll children)
  | .included root => root.plain

/-- The views with what is shown in place of everything that stands for it. -/
def plainAll : List View → List View
  | [] => []
  | view :: views => view.plain :: plainAll views

end

theorem plainAll_eq_map (views : List View) : plainAll views = views.map plain := by
  induction views with
  | nil => rfl
  | cons view views ih => rw [plainAll, List.map_cons, ih]

mutual

/-- No line tells what stands for a layout. -/
theorem print_plain (depth : Nat) : (view : View) → view.plain.print depth = view.print depth
  | .element tag attributes children => by
    rw [plain, print, print, printAll_plainAll (depth + 1) children]
  | .included root => by
    rw [plain, print, print_plain depth root]

theorem printAll_plainAll (depth : Nat) :
    (views : List View) → printAll depth (plainAll views) = printAll depth views
  | [] => rfl
  | view :: views => by
    rw [plainAll, printAll, printAll, print_plain depth view, printAll_plainAll depth views]

end

theorem render_plain (view : View) : view.plain.render = view.render :=
  print_plain 0 view

/-- What is set on a view is set on what it shows. -/
theorem plain_applyAttribute (name value : String) :
    (view : View) → (view.applyAttribute name value).plain = view.plain.applyAttribute name value
  | .element _ _ _ => rfl
  | .included root => plain_applyAttribute name value root

theorem plain_applyAll (view : View) (p : Attribute → Bool) (attributes : List Attribute) :
    (view.applyAll p attributes).plain = view.plain.applyAll p attributes := by
  unfold applyAll
  induction (attributes.filter fun a => !a.isNamespaceDeclaration && p a) generalizing view with
  | nil => rfl
  | cons a rest ih => rw [List.foldl_cons, List.foldl_cons, ih, plain_applyAttribute]

theorem applyAll_element (tag : String) (old : List (String × String)) (children : List View)
    (p : Attribute → Bool) (attributes : List Attribute) :
    (element tag old children).applyAll p attributes =
      element tag (overridden old ((attributes.filter fun a =>
        !a.isNamespaceDeclaration && p a).map fun a => (a.name, a.value))) children := by
  unfold applyAll overridden
  rw [List.foldl_map]
  induction (attributes.filter fun a => !a.isNamespaceDeclaration && p a) generalizing old with
  | nil => rfl
  | cons a rest ih =>
    rw [List.foldl_cons, List.foldl_cons, applyAttribute, ih, setAttribute_eq_replace]

end View

end LayoutCompletion
