import LayoutCompletion.Namespaces
import LayoutCompletion.Text.Split
import Mathlib.Data.List.Basic

/-!
# Look-ups in resources

What one insertion into a package or a table changes for those who look something up there
(`Package.value?_insert`, `ResourceTable.package?_insert`), which tables of a registry serve a
namespace (`ResourceRegistry.tablesFor_eq_filter`), and which packages stand behind it.
-/

namespace LayoutCompletion

namespace Package

variable {p : Package} {name other configuration : String} {value : ResourceValue}
  {group : AttributeGroup}

/-- The value of an entry for a configuration. -/
def value? (p : Package) (name configuration : String) : Option ResourceValue :=
  (p.entry? name).bind (·.value? configuration)

theorem entry?_insert (p : Package) (name configuration other : String) (value : ResourceValue) :
    entry? (p.insert name configuration value) other =
      if name = other then
        some ⟨((p.entry? name).getD .empty).configurations.insert configuration value⟩
      else p.entry? other := by
  unfold insert entry?
  rw [Dictionary.get?_insert]
  simp only [Symbol.mk.injEq]

/-- An insertion gives one entry one value for one configuration, and touches nothing else. -/
theorem value?_insert (p : Package) (name configuration other asked : String)
    (value : ResourceValue) :
    (p.insert name configuration value).value? other asked =
      if name = other ∧ configuration = asked then some value else p.value? other asked := by
  unfold value?
  rw [entry?_insert]
  by_cases hname : name = other
  · subst hname
    rw [if_pos rfl, Option.bind_some, ResourceEntry.value?, Dictionary.get?_insert]
    by_cases hconfiguration : configuration = asked
    · simp [hconfiguration]
    · cases hentry : p.entry? name <;>
        simp [hconfiguration, ResourceEntry.value?, ResourceEntry.empty]
  · simp [hname]

/-- A styleable is what an entry holds for the default configuration. -/
theorem styleable?_eq_some :
    p.styleable? name = some group ↔
      p.value? name defaultConfiguration = some (.styleable group) := by
  unfold styleable? value?
  split
  · next held hheld => simp [hheld]
  · next hnot => simpa using hnot group

end Package

namespace ResourceTable

theorem package?_insert (t : ResourceTable) (p : Package) (name : String) :
    (t.insert p).package? name = if p.name.text = name then some p else t.package? name := by
  unfold insert package?
  rw [Dictionary.get?_insert]
  congr 1
  cases p.name
  simp

end ResourceTable

/-! ## Behind a namespace -/

theorem packageOfUri?_eq_some {uri name : String} :
    packageOfUri? uri = some name ↔ uri = uriMarker ++ name :=
  Text.behindMarker_eq_some

/-- The namespace that stands for every package stands for none by its name. -/
theorem autoUri_ne_uriMarker_append (name : String) : autoUri ≠ uriMarker ++ name := by
  intro h
  rw [← packageOfUri?_eq_some] at h
  cases h.symm.trans (by decide : packageOfUri? autoUri = none)

namespace ResourceRegistry

variable {r : ResourceRegistry} {uri : String}

theorem tables_foldl_register (ts : List ResourceTable) (r : ResourceRegistry) :
    (ts.foldl register r).tables = r.tables ++ ts := by
  induction ts generalizing r with
  | nil => exact (List.append_nil _).symm
  | cons t ts ih => rw [List.foldl_cons, ih, register, List.append_assoc, List.singleton_append]

theorem tablesFor_eq_filter (r : ResourceRegistry) (namespaceUri : String) :
    r.tablesFor namespaceUri = r.tables.filter (·.namespaceUri = namespaceUri) := by
  let serving : List (ResourceTable × Nat) :=
    r.tables.zipIdx.filter (·.1.namespaceUri = namespaceUri)
  have hplace : ∀ e ∈ serving, r.tables[e.2]? = some e.1 := fun e he =>
    List.mem_zipIdx_iff_getElem?.mp (List.mem_filter.mp he).1
  calc r.tablesFor namespaceUri
    _ = serving.filterMap fun e => r.tables[e.2]? := by
      rw [tablesFor, r.places_lead, placesOf, List.filterMap_map]
      rfl
    _ = serving.map Prod.fst := by
      rw [← List.filterMap_eq_map]
      exact List.filterMap_congr hplace
    _ = (r.tables.zipIdx.map Prod.fst).filter (·.namespaceUri = namespaceUri) := by
      rw [List.filter_map]
      rfl
    _ = r.tables.filter (·.namespaceUri = namespaceUri) := by rw [List.zipIdx_map_fst]

theorem packagesFor_autoUri (r : ResourceRegistry) : r.packagesFor autoUri = r.allPackages :=
  if_pos rfl

theorem packagesFor_uriMarker (r : ResourceRegistry) (name : String) :
    r.packagesFor (uriMarker ++ name) =
      (r.tablesFor (uriMarker ++ name)).filterMap (·.package? name) := by
  rw [packagesFor, if_neg (autoUri_ne_uriMarker_append name).symm,
    packageOfUri?_eq_some.mpr rfl]

theorem packagesFor_other (hauto : uri ≠ autoUri) (hother : ∀ name, uri ≠ uriMarker ++ name) :
    r.packagesFor uri = [] := by
  have hnone : packageOfUri? uri = none := by
    rw [Option.eq_none_iff_forall_not_mem]
    exact fun name hname => hother name (packageOfUri?_eq_some.mp hname)
  rw [packagesFor, if_neg hauto, hnone]

theorem mem_allPackages {p : Package} (h : p ∈ r.packagesFor uri) : p ∈ r.allPackages := by
  unfold packagesFor at h
  split at h
  · exact h
  · split at h
    · cases h
    · next name hname =>
      obtain ⟨t, ht, hp⟩ := List.mem_filterMap.mp h
      rw [tablesFor_eq_filter] at ht
      exact List.mem_flatMap.mpr
        ⟨t, (List.mem_filter.mp ht).1, Dictionary.mem_values_iff.mpr ⟨_, hp⟩⟩

end ResourceRegistry

end LayoutCompletion
