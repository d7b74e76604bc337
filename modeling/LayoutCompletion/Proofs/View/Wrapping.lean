import LayoutCompletion.Proofs.View.Plain
import Mathlib.Logic.Function.Iterate

/-!
# Setting attributes through views that stand for others

An element without attributes is handled: attributes are set on it, and now and then a view is put
around it that stands for it and takes what is set from then on. One such step leaves an element in
as many views as were put around it (`View.handle_iterate`), and so do all of them
(`View.handleAll_iterate`). In the end the element has the attributes that would have been set
without any such view (`View.handleAll_element`).
-/

namespace LayoutCompletion

/-! ## Attributes that settled -/

variable {name value : String} {attributes : List (String × String)}

theorem map_fst_settled (attributes : List (String × String)) :
    (settled attributes).map Prod.fst = (attributes.map Prod.fst).eraseDups := by
  rw [← entries_ofList, ← Dictionary.keys_ofList]
  rfl

theorem nodup_settled (attributes : List (String × String)) :
    ((settled attributes).map Prod.fst).Nodup := by
  rw [← entries_ofList]
  exact (Dictionary.ofList attributes).nodup

theorem mem_settled :
    (name, value) ∈ settled attributes ↔ attributes.reverse.lookup name = some value := by
  rw [← entries_ofList, ← Dictionary.get?_ofList, Dictionary.get?_eq_some]

/-! ## Handling -/

namespace View

/--
What is done to a view.

* `wrap`: a view is put around it that stands for it.
* `apply`: an attribute is set on it.
-/
inductive Handling
  | wrap
  | apply (name value : String)
deriving DecidableEq

/-- The attribute that is set, if any. -/
def Handling.attribute? : Handling → Option (String × String)
  | wrap => none
  | apply name value => some (name, value)

/-- The outermost view behind one step. -/
def handle (view : View) : Handling → View
  | .wrap => .included view
  | .apply name value => view.applyAttribute name value

/-- The outermost view behind all steps. -/
def handleAll (view : View) (handlings : List Handling) : View :=
  handlings.foldl handle view

/-- What is set on the outermost view is set on the innermost one. -/
theorem applyAttribute_iterate (name value : String) (n : Nat) (view : View) :
    (included^[n] view).applyAttribute name value =
      included^[n] (view.applyAttribute name value) := by
  induction n with
  | zero => rfl
  | succ n ih => rw [Function.iterate_succ_apply', Function.iterate_succ_apply', applyAttribute, ih]

/-- The lines of the outermost view are those of the innermost one. -/
theorem print_iterate (depth n : Nat) (view : View) :
    (included^[n] view).print depth = view.print depth := by
  induction n with
  | zero => rfl
  | succ n ih => rw [Function.iterate_succ_apply', print, ih]

/-- One step puts one more view around the element, or sets an attribute of it. -/
theorem handle_iterate (n : Nat) (tag : String) (attributes : List (String × String))
    (children : List View) (handling : Handling) :
    (included^[n] (element tag attributes children)).handle handling =
      included^[n + [handling].count .wrap]
        (element tag (overridden attributes handling.attribute?.toList) children) := by
  cases handling with
  | wrap => exact (Function.iterate_succ_apply' included n _).symm
  | apply name value =>
    have hset : overridden attributes [(name, value)] = setAttribute name value attributes :=
      (setAttribute_eq_replace name value attributes).symm
    rw [handle, applyAttribute_iterate, applyAttribute, ← hset]
    rfl

/-- All steps together put the views around the element and set the attributes in order. -/
theorem handleAll_iterate (n : Nat) (tag : String) (attributes : List (String × String))
    (children : List View) (handlings : List Handling) :
    (included^[n] (element tag attributes children)).handleAll handlings =
      included^[n + handlings.count .wrap]
        (element tag (overridden attributes (handlings.filterMap Handling.attribute?))
          children) := by
  induction handlings generalizing n attributes with
  | nil => rfl
  | cons handling handlings ih =>
    have happlied : (handling :: handlings).filterMap Handling.attribute? =
        handling.attribute?.toList ++ handlings.filterMap Handling.attribute? := by
      cases handling <;> rfl
    have hwraps : n + (handling :: handlings).count .wrap =
        n + [handling].count .wrap + handlings.count .wrap := by
      rw [← List.singleton_append, List.count_append, Nat.add_assoc]
    have hoverridden (l l' : List (String × String)) :
        overridden (overridden attributes l) l' = overridden attributes (l ++ l') :=
      List.foldl_append.symm
    rw [handleAll, List.foldl_cons, handle_iterate, happlied, hwraps, ← hoverridden]
    exact ih (n + [handling].count .wrap) (overridden attributes handling.attribute?.toList)

/--
**Attributes are set through all views that stand for an element.**

However an element without attributes is handled, in the end it is in as many views as were put
around it, with its tag and its children. Its attributes have the names that were set, each once and
in the order in which they were first set, with the values that were last set. The lines are those
of the element.
-/
theorem handleAll_element (tag : String) (children : List View) (handlings : List Handling) :
    ∃ attributes,
      (element tag [] children).handleAll handlings =
        included^[handlings.count .wrap] (element tag attributes children) ∧
      (attributes.map Prod.fst).Nodup ∧
      attributes.map Prod.fst =
        ((handlings.filterMap Handling.attribute?).map Prod.fst).eraseDups ∧
      (∀ name value, (name, value) ∈ attributes ↔
        (handlings.filterMap Handling.attribute?).reverse.lookup name = some value) ∧
      ∀ depth, ((element tag [] children).handleAll handlings).print depth =
        (element tag attributes children).print depth := by
  have hall := handleAll_iterate 0 tag [] children handlings
  rw [overridden_nil, Nat.zero_add, Function.iterate_zero_apply] at hall
  refine ⟨settled (handlings.filterMap Handling.attribute?), hall, nodup_settled _,
    map_fst_settled _, fun name value => mem_settled, fun depth => ?_⟩
  rw [hall, print_iterate]

end View

end LayoutCompletion
