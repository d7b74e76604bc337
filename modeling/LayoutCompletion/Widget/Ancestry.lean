import LayoutCompletion.Widget.Basic

/-!
# The classes above a widget

The walk takes names from a queue. A name whose simple name has been met is passed over; any
other is an ancestor, and if it is known, its own superclasses join the queue. So tables that
record only direct superclasses give whole chains, and cycles do no harm.

A class is followed at most once, because its simple name counts as met from then on. This is what
makes the walk end: each step leaves fewer classes whose simple names have not been met, or it
leaves as many and makes the queue shorter.
-/

namespace LayoutCompletion.WidgetIndex

/-- The classes whose simple names have not been met. -/
def unmet (index : WidgetIndex) (met : List String) : List Widget :=
  index.widgets.filter (·.simpleName ∉ met)

variable {index : WidgetIndex} {met : List String} {name : String} {w : Widget}

theorem unmet_cons (index : WidgetIndex) (name : String) (met : List String) :
    index.unmet (name :: met) = (index.unmet met).filter (·.simpleName ≠ name) := by
  unfold unmet
  rw [List.filter_filter]
  congr 1
  funext w
  simp

theorem length_unmet_le (index : WidgetIndex) (name : String) (met : List String) :
    (index.unmet (name :: met)).length ≤ (index.unmet met).length := by
  rw [unmet_cons]
  exact List.length_filter_le _ _

/-- With the name of a class one class less is left. -/
theorem length_unmet_lt (hmet : simpleName name ∉ met) (h : index.lookup? name = some w) :
    (index.unmet (simpleName name :: met)).length < (index.unmet met).length := by
  have hname := simpleName_of_lookup? h
  have hmem : w ∈ index.unmet met :=
    List.mem_filter.mpr ⟨mem_of_lookup? h, by simpa [← hname] using hmet⟩
  rw [unmet_cons, List.length_filter_lt_length_iff_exists]
  exact ⟨w, hmem, by simp [hname]⟩

/-- The ancestors that are found from the names in the queue, when the simple names in `met` have
been met. -/
def ancestorsFrom (index : WidgetIndex) (met : List String) : List String → List String
  | [] => []
  | name :: queue =>
    if simpleName name ∈ met then ancestorsFrom index met queue
    else
      match _h : index.lookup? name with
      | none => name :: ancestorsFrom index (simpleName name :: met) queue
      | some w =>
        name :: ancestorsFrom index (simpleName name :: met) (queue ++ w.superclasses)
termination_by queue => ((index.unmet met).length, queue.length)
decreasing_by
  · exact Prod.Lex.right _ (Nat.lt_succ_self _)
  · exact Prod.Lex.right' _ (length_unmet_le index _ met) (Nat.lt_succ_self _)
  · exact Prod.Lex.left _ _ (length_unmet_lt ‹_› _h)

/-- Every class above a widget, nearest first, each simple name once and never the widget's
own. -/
def superclassChain (index : WidgetIndex) (w : Widget) : List String :=
  index.ancestorsFrom [w.simpleName] w.superclasses

end LayoutCompletion.WidgetIndex
