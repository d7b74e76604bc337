import LayoutCompletion.Proofs.Resource.Lookup
import Mathlib.Data.List.Perm.Basic

/-!
# Tables in another order

Two registries may have the same tables, registered in different orders, and two tables the same
packages, listed in different orders. The same packages stand behind every namespace then, as often
as they do, but not in the same order (`packagesFor_perm`).
-/

namespace LayoutCompletion

namespace ResourceTable

/-- The other table serves the same namespace with the same packages, listed in any order. -/
structure Reorders (t t' : ResourceTable) : Prop where
  namespaceUri : t.namespaceUri = t'.namespaceUri
  packages : t.packages.entries.Perm t'.packages.entries

theorem Reorders.refl (t : ResourceTable) : t.Reorders t :=
  ⟨rfl, List.Perm.refl _⟩

/-- The packages that a table adds to those behind a namespace. -/
def behind (t : ResourceTable) (uri : String) : List Package :=
  if uri = autoUri then t.packages.values
  else
    match packageOfUri? uri with
    | none => []
    | some name => if t.namespaceUri = uri then (t.package? name).toList else []

theorem Reorders.behind_perm {t t' : ResourceTable} (h : t.Reorders t') (uri : String) :
    (t.behind uri).Perm (t'.behind uri) := by
  unfold behind
  by_cases hauto : uri = autoUri
  · rw [if_pos hauto, if_pos hauto]
    exact h.packages.map Prod.snd
  · rw [if_neg hauto, if_neg hauto]
    cases packageOfUri? uri with
    | none => exact List.Perm.refl _
    | some name =>
      have hpackage : t.package? name = t'.package? name :=
        Dictionary.get?_of_perm h.packages ⟨name⟩
      dsimp only
      rw [h.namespaceUri, hpackage]

theorem flatMap_behind_perm {tables tables' : List ResourceTable}
    (h : List.Forall₂ Reorders tables tables') (uri : String) :
    (tables.flatMap (·.behind uri)).Perm (tables'.flatMap (·.behind uri)) := by
  induction h with
  | nil => exact List.Perm.refl _
  | cons ht _ ih => exact (ht.behind_perm uri).append ih

end ResourceTable

namespace ResourceRegistry

/-- The other registry has the same tables, each with its packages listed in any order, and
registered in any order. -/
def Reorders (r r' : ResourceRegistry) : Prop :=
  ∃ tables, r.tables.Perm tables ∧ List.Forall₂ ResourceTable.Reorders tables r'.tables

theorem Reorders.refl (r : ResourceRegistry) : r.Reorders r :=
  ⟨r.tables, List.Perm.refl _, List.forall₂_same.mpr fun t _ => .refl t⟩

/-- The same tables may be registered in any order. -/
theorem reorders_of_perm {tables tables' : List ResourceTable} (h : tables.Perm tables') :
    (ofTables tables).Reorders (ofTables tables') := by
  have htables : ∀ tables, (ofTables tables).tables = tables :=
    fun tables => tables_foldl_register tables empty
  unfold Reorders
  rw [htables, htables]
  exact ⟨tables', h, List.forall₂_same.mpr fun t _ => .refl t⟩

/-- What stands behind a namespace is told table by table. -/
theorem packagesFor_eq_flatMap (r : ResourceRegistry) (uri : String) :
    r.packagesFor uri = r.tables.flatMap (·.behind uri) := by
  unfold packagesFor ResourceTable.behind
  split
  · rfl
  · cases packageOfUri? uri with
    | none => simp
    | some name =>
      dsimp only
      rw [tablesFor_eq_filter, List.filterMap_filter, List.filterMap_eq_flatMap_toList]
      congr 1
      funext t
      by_cases ht : t.namespaceUri = uri <;> simp [ht]

theorem Reorders.packagesFor_perm {r r' : ResourceRegistry} (h : r.Reorders r') (uri : String) :
    (r.packagesFor uri).Perm (r'.packagesFor uri) := by
  obtain ⟨tables, hperm, htables⟩ := h
  rw [packagesFor_eq_flatMap, packagesFor_eq_flatMap]
  exact (hperm.flatMap_right _).trans (ResourceTable.flatMap_behind_perm htables uri)

end ResourceRegistry

end LayoutCompletion
