import LayoutCompletion.Document.Query
import LayoutCompletion.Proofs.Document.Parsing

/-!
# What a prefix means

`Binds d space uri node` says that the nearest declaration of a prefix, going outwards from an
element, gives it a namespace. In a document that was parsed, this is what the prefix stands for
(`namespaceUri?_eq_some`), and the declarations that hold at the element are exactly the bindings
(`mem_namespaceDeclarations`).
-/

namespace LayoutCompletion

open Markup

namespace Document

/-- At the element, the prefix stands for the namespace: the nearest declaration says so. -/
inductive Binds (d : Document) (space uri : String) : Nat → Prop
  | here {node : Nat} : (d.declarations node).lookup space = some uri → Binds d space uri node
  | outer {node parent : Nat} : (d.declarations node).lookup space = none →
    d.parent? node = some parent → Binds d space uri parent → Binds d space uri node

/-- A prefix that an element can declare: not empty, and without a colon. -/
def IsPrefix (space : String) : Prop :=
  space.isEmpty = false ∧ ':' ∉ space.toList

variable {d : Document} {node : Nat} {space uri : String}

theorem isPrefix_of_named {a : Attribute} (h : a.Named) : IsPrefix a.base := by
  obtain ⟨name, hn, -, hbase⟩ := h
  rw [hbase]
  refine ⟨?_, ?_⟩
  · have hne := QualifiedName.base_ne_nil hn
    simpa [String.isEmpty_eq_false_iff] using hne
  · rw [String.toList_ofList]
    exact QualifiedName.colon_not_mem hn.base

theorem isPrefix_of_mem_declarations (hd : d.Sound) (h : (space, uri) ∈ d.declarations node) :
    IsPrefix space := by
  obtain ⟨a, ha, hsome⟩ := List.mem_filterMap.mp h
  split at hsome
  · obtain ⟨rfl, rfl⟩ := Prod.mk.inj (Option.some.inj hsome)
    exact isPrefix_of_named (hd.named node a ha)
  · simp at hsome

theorem mem_of_lookup {l : List (String × String)} (h : l.lookup space = some uri) :
    (space, uri) ∈ l := by
  obtain ⟨l₁, l₂, rfl, -⟩ := List.lookup_eq_some_iff.mp h
  simp

theorem Binds.exists_mem_declarations (h : d.Binds space uri node) :
    ∃ owner, (space, uri) ∈ d.declarations owner := by
  induction h with
  | here hlookup => exact ⟨_, mem_of_lookup hlookup⟩
  | outer _ _ _ ih => exact ih

theorem Binds.isPrefix (h : d.Binds space uri node) (hd : d.Sound) : IsPrefix space := by
  obtain ⟨_, howner⟩ := h.exists_mem_declarations
  exact isPrefix_of_mem_declarations hd howner

/-! ## Going outwards -/

theorem ancestors_of_parent? (hd : d.Sound) {parent : Nat} (h : d.parent? node = some parent) :
    d.ancestors node = node :: d.ancestors parent := by
  rw [ancestors]
  split
  · next hnone =>
    rw [h] at hnone
    cases hnone
  · next p hp =>
    obtain rfl : parent = p := Option.some.inj (h.symm.trans hp)
    rw [if_pos (hd.parent_lt node parent h)]

theorem ancestors_of_root (h : d.parent? node = none) : d.ancestors node = [node] := by
  rw [ancestors]
  split
  · rfl
  · next p hp =>
    rw [h] at hp
    cases hp

/-- The first ancestor that declares the prefix decides. -/
theorem findSome?_ancestors (hd : d.Sound) : ∀ {node : Nat},
    (d.ancestors node).findSome? (fun n => (d.declarations n).lookup space) = some uri ↔
      d.Binds space uri node := by
  intro node
  -- on the number of the element: those around it have lesser ones
  induction node using Nat.strongRecOn with
  | ind node ih =>
    have hhere : d.Binds space uri node ↔ (d.declarations node).lookup space = some uri ∨
        ((d.declarations node).lookup space = none ∧
          ∃ parent, d.parent? node = some parent ∧ d.Binds space uri parent) := by
      constructor
      · rintro (hlookup | ⟨hnone, hparent, hbinds⟩)
        · exact Or.inl hlookup
        · exact Or.inr ⟨hnone, _, hparent, hbinds⟩
      · rintro (hlookup | ⟨hnone, parent, hparent, hbinds⟩)
        · exact .here hlookup
        · exact .outer hnone hparent hbinds
    rw [hhere]
    cases hparent : d.parent? node with
    | none =>
      rw [ancestors_of_root hparent]
      cases hlookup : (d.declarations node).lookup space <;> simp [hlookup]
    | some parent =>
      rw [ancestors_of_parent? hd hparent, List.findSome?_cons]
      cases hlookup : (d.declarations node).lookup space with
      | none => simp [ih parent (hd.parent_lt node parent hparent)]
      | some value => simp

/-- A prefix stands for what the nearest declaration says. -/
theorem namespaceUri?_eq_some (hd : d.Sound) :
    d.namespaceUri? node space = some uri ↔ d.Binds space uri node := by
  unfold namespaceUri?
  split
  · next hempty =>
    refine ⟨fun h => by simp at h, fun h => ?_⟩
    rw [(h.isPrefix hd).1] at hempty
    exact Bool.noConfusion hempty
  · exact findSome?_ancestors hd

/-! ## All declarations -/

theorem addDeclaration_eq (known : List (String × String)) (binding : String × String) :
    addDeclaration known binding =
      if binding.1 ∈ known.map Prod.fst then known else known ++ [binding] := by
  have hany : (known.any fun b => b.1 = binding.1) = true ↔ binding.1 ∈ known.map Prod.fst := by
    simp
  simp only [addDeclaration, hany]

/-- Declarations come in unless their prefix is known. -/
theorem mem_foldl_addDeclaration {l : List (String × String)} :
    ∀ {known : List (String × String)}, (space, uri) ∈ l.foldl addDeclaration known ↔
      (space, uri) ∈ known ∨ (space ∉ known.map Prod.fst ∧ l.lookup space = some uri) := by
  induction l with
  | nil => simp
  | cons binding l ih =>
    intro known
    obtain ⟨declared, value⟩ := binding
    rw [List.foldl_cons, ih, addDeclaration_eq, List.lookup_cons]
    by_cases hsame : space = declared
    · -- from here on the prefix is known, so no later declaration of it comes in
      subst hsame
      by_cases hknown : space ∈ known.map Prod.fst
      · rw [if_pos hknown]
        simp only [hknown, not_true, false_and]
      · rw [if_neg hknown]
        simp [hknown, eq_comm]
    · have hbeq : (space == declared) = false := by simpa using hsame
      by_cases hknown : declared ∈ known.map Prod.fst
      · rw [if_pos hknown]
        simp only [hbeq]
      · rw [if_neg hknown]
        simp [hbeq, hsame]

theorem lookup_flatMap {α : Type} (f : α → List (String × String)) (l : List α) :
    (l.flatMap f).lookup space = l.findSome? fun x => (f x).lookup space := by
  induction l with
  | nil => rfl
  | cons x l ih =>
    rw [List.flatMap_cons, List.lookup_append, ih, List.findSome?_cons]
    cases (f x).lookup space <;> rfl

/-- The declarations that hold at an element are the bindings there. -/
theorem mem_namespaceDeclarations (hd : d.Sound) :
    (space, uri) ∈ d.namespaceDeclarations node ↔ d.Binds space uri node := by
  unfold namespaceDeclarations
  rw [mem_foldl_addDeclaration, lookup_flatMap, findSome?_ancestors hd]
  simp

end Document

end LayoutCompletion
