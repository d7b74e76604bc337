import LayoutCompletion.Proofs.Document.Extending
import LayoutCompletion.Proofs.Document.Parsing

/-!
# Elements in elements

The elements of a document that was parsed are the nodes of one tree, numbered in pre-order
(`Document.IsTree`), whether or not reading came to the end of the text.

The tree grows along with the row of open elements. `Builder.Nested` ties this row to the mode of
the reader and to the elements: as many are open as the reader has counted, and they are the
innermost ancestors of the last element, without those that have been closed since. So a new
element is opened in the element before it or in one around that, and from this alone it follows
that everything in an element stands right behind it.
-/

namespace LayoutCompletion

open Markup

/-- How many elements are open in the mode. -/
def Markup.Mode.openCount : Mode → Nat
  | .content outer => outer + 1
  | .tag depth => depth + 1
  | .start | .prolog | .subset | .beforeRoot | .epilog => 0

theorem Markup.Mode.openCount_of_isBefore {m : Mode} (h : m.isBefore = true) :
    m.openCount = 0 := by
  cases m <;> first | rfl | cases h

theorem Markup.Mode.openCount_closing (depth : Nat) : (Mode.closing depth).openCount = depth := by
  cases depth <;> rfl

namespace Document

/-! ## What a tree is -/

/-- The elements directly in an element, none if there is no such element. -/
def children (d : Document) (node : Nat) : List Nat :=
  (d.elements[node]?.map Element.children).getD []

/-- The element stands in the other one, at any depth. -/
inductive Inside (d : Document) (outer : Nat) : Nat → Prop
  | child {node : Nat} : d.parent? node = some outer → Inside d outer node
  | deeper {node parent : Nat} :
    d.parent? node = some parent → Inside d outer parent → Inside d outer node

/-- The row leads from an element over the one around it to one that has none around it. -/
inductive Outwards (d : Document) : Nat → List Nat → Prop
  | root {node : Nat} : d.parent? node = none → Outwards d node [node]
  | step {node parent : Nat} {row : List Nat} :
    d.parent? node = some parent → Outwards d parent row → Outwards d node (node :: row)

/-- The elements are the nodes of one tree, numbered in pre-order. -/
structure IsTree (d : Document) : Prop where
  /-- Only the first element has none around it. -/
  root : ∀ node < d.size, d.parent? node = none ↔ node = 0
  /-- An element stands behind the one around it. So all numbers that are stored are numbers of
  elements, those of children too. -/
  parent : ∀ node parent, d.parent? node = some parent → parent < node ∧ node < d.size
  /-- The children of an element are in document order, and each is named once. -/
  children_sorted : ∀ node, (d.children node).Pairwise (· < ·)
  mem_children : ∀ node child, child ∈ d.children node ↔ d.parent? child = some node
  /-- What is in an element stands right behind it, with nothing else in between. -/
  inside : ∀ node < d.size, ∃ stop, node < stop ∧ stop ≤ d.size ∧
    ∀ n, d.Inside node n ↔ node < n ∧ n < stop
  ancestors_outwards : ∀ node < d.size, d.Outwards node (d.ancestors node)
  ancestors_head : ∀ node < d.size, (d.ancestors node).head? = some node
  ancestors_sorted : ∀ node < d.size, (d.ancestors node).Pairwise (· > ·)
  ancestors_last : ∀ node < d.size, (d.ancestors node).getLast? = some 0

variable {d : Document} {node n parent : Nat}

theorem lt_size_of_parent? (h : d.parent? node = some parent) : node < d.size := by
  obtain ⟨e, he, -⟩ := Option.bind_eq_some_iff.mp h
  exact (Array.getElem?_eq_some_iff.mp he).1

/-! ## Rows of ancestors -/

section
variable {row rest : List Nat} {outer : Nat}

theorem Outwards.exists_cons (h : d.Outwards node row) : ∃ rest, row = node :: rest := by
  cases h with
  | root => exact ⟨[], rfl⟩
  | step => exact ⟨_, rfl⟩

theorem Outwards.eq_ancestors (hd : d.Sound) (h : d.Outwards node row) :
    d.ancestors node = row := by
  induction h with
  | root hnone => exact ancestors_of_root hnone
  | step hparent _ ih => rw [ancestors_of_parent? hd hparent, ih]

theorem outwards_ancestors (hd : d.Sound) (node : Nat) : d.Outwards node (d.ancestors node) := by
  induction node using Nat.strongRecOn with
  | ind node ih =>
    cases hparent : d.parent? node with
    | none =>
      rw [ancestors_of_root hparent]
      exact .root hparent
    | some parent =>
      rw [ancestors_of_parent? hd hparent]
      exact .step hparent (ih parent (hd.parent_lt node parent hparent))

/-- A row goes on from each of its elements as it does from its first one. -/
theorem Outwards.of_suffix (h : d.Outwards node row) (hrest : outer :: rest <:+ row) :
    d.Outwards outer (outer :: rest) := by
  induction h with
  | root hnone =>
    rcases List.suffix_cons_iff.mp hrest with heq | hnil
    · obtain ⟨rfl, rfl⟩ := List.cons.inj heq
      exact .root hnone
    · cases List.suffix_nil.mp hnil
  | step hparent hrow ih =>
    rcases List.suffix_cons_iff.mp hrest with heq | htail
    · obtain ⟨rfl, rfl⟩ := List.cons.inj heq
      exact .step hparent hrow
    · exact ih htail

theorem ancestors_of_suffix (hd : d.Sound) (h : outer :: rest <:+ d.ancestors node) :
    d.ancestors outer = outer :: rest :=
  ((outwards_ancestors hd node).of_suffix h).eq_ancestors hd

theorem suffix_of_mem_ancestors (hd : d.Sound) (h : outer ∈ d.ancestors node) :
    d.ancestors outer <:+ d.ancestors node := by
  obtain ⟨before, rest, hsplit⟩ := List.append_of_mem h
  have hrest : outer :: rest <:+ d.ancestors node := ⟨before, hsplit.symm⟩
  rw [ancestors_of_suffix hd hrest]
  exact hrest

theorem self_mem_ancestors (hd : d.Sound) (node : Nat) : node ∈ d.ancestors node := by
  obtain ⟨rest, hrest⟩ := (outwards_ancestors hd node).exists_cons
  rw [hrest]
  exact .head _

theorem sorted_ancestors (hd : d.Sound) (node : Nat) :
    (d.ancestors node).Pairwise (· > ·) := by
  generalize hrow : d.ancestors node = row
  have h := outwards_ancestors hd node
  rw [hrow] at h
  clear hrow
  induction h with
  | root => exact List.pairwise_singleton _ _
  | step hparent hrow ih =>
    refine List.pairwise_cons.mpr ⟨fun n hn => ?_, ih⟩
    rw [← hrow.eq_ancestors hd] at hn
    exact Nat.lt_of_le_of_lt (le_of_mem_ancestors hn) (hd.parent_lt _ _ hparent)

/-! ## Descendants -/

theorem Outwards.inside (h : d.Outwards node row) (hmem : outer ∈ row) (hne : outer ≠ node) :
    d.Inside outer node := by
  induction h with
  | root => exact absurd (List.mem_singleton.mp hmem) hne
  | @step node parent row hparent _ ih =>
    have hrow : outer ∈ row := (List.mem_cons.mp hmem).resolve_left hne
    by_cases hfirst : outer = parent
    · subst hfirst
      exact .child hparent
    · exact .deeper hparent (ih hrow hfirst)

theorem Inside.lt_size (h : d.Inside outer node) : node < d.size := by
  cases h with
  | child hparent => exact lt_size_of_parent? hparent
  | deeper hparent _ => exact lt_size_of_parent? hparent

/-- An element stands in those that are its ancestors, apart from itself. -/
theorem inside_iff (hd : d.Sound) :
    d.Inside outer node ↔ outer ∈ d.ancestors node ∧ outer ≠ node := by
  constructor
  · intro h
    induction h with
    | child hparent =>
      rw [ancestors_of_parent? hd hparent]
      exact ⟨.tail _ (self_mem_ancestors hd outer), Nat.ne_of_lt (hd.parent_lt _ _ hparent)⟩
    | deeper hparent _ ih =>
      rw [ancestors_of_parent? hd hparent]
      have hle := le_of_mem_ancestors ih.1
      exact ⟨.tail _ ih.1, Nat.ne_of_lt (Nat.lt_of_le_of_lt hle (hd.parent_lt _ _ hparent))⟩
  · rintro ⟨hmem, hne⟩
    exact (outwards_ancestors hd node).inside hmem hne

/-- Each element is opened in the element before it or in one around that. -/
def Follows (d : Document) : Prop :=
  ∀ node parent, d.parent? (node + 1) = some parent → parent ∈ d.ancestors node

theorem mem_ancestors_of_succ (hd : d.Sound) (hfollows : d.Follows)
    (h : outer ∈ d.ancestors (node + 1)) (hne : outer ≠ node + 1) : outer ∈ d.ancestors node := by
  cases hparent : d.parent? (node + 1) with
  | none =>
    rw [ancestors_of_root hparent] at h
    exact absurd (List.mem_singleton.mp h) hne
  | some parent =>
    rw [ancestors_of_parent? hd hparent] at h
    have hmem : outer ∈ d.ancestors parent := (List.mem_cons.mp h).resolve_left hne
    exact (suffix_of_mem_ancestors hd (hfollows node parent hparent)).subset hmem

/-- Below every bound, an element and all that is in it are a row without gaps. -/
theorem exists_stop (hd : d.Sound) (hfollows : d.Follows) {bound : Nat} (h : node < bound) :
    ∃ stop, node < stop ∧ stop ≤ bound ∧
      ∀ n < bound, node ∈ d.ancestors n ↔ node ≤ n ∧ n < stop := by
  induction bound with
  | zero => exact absurd h (Nat.not_lt_zero node)
  | succ last ih =>
    by_cases hnode : node = last
    · subst hnode
      refine ⟨node + 1, Nat.lt_succ_self node, Nat.le_refl _, fun n hn => ?_⟩
      constructor
      · intro hmem
        exact ⟨le_of_mem_ancestors hmem, hn⟩
      · rintro ⟨hle, -⟩
        obtain rfl : node = n := Nat.le_antisymm hle (Nat.le_of_lt_succ hn)
        exact self_mem_ancestors hd node
    · obtain ⟨stop, hlt, hle, hstop⟩ := ih (Nat.lt_of_le_of_ne (Nat.le_of_lt_succ h) hnode)
      by_cases hlast : node ∈ d.ancestors last
      · -- the one before the last is in the element too, so the row has not come to its end there
        obtain ⟨before, rfl⟩ : ∃ before, last = before + 1 := ⟨last - 1, by omega⟩
        have hbefore := (hstop before (Nat.lt_succ_self before)).mp
          (mem_ancestors_of_succ hd hfollows hlast hnode)
        refine ⟨before + 2, by omega, Nat.le_refl _, fun n hn => ?_⟩
        by_cases hn' : n = before + 1
        · subst hn'
          exact ⟨fun _ => ⟨by omega, by omega⟩, fun _ => hlast⟩
        · rw [hstop n (by omega)]
          omega
      · refine ⟨stop, hlt, by omega, fun n hn => ?_⟩
        by_cases hn' : n = last
        · subst hn'
          exact ⟨fun hmem => absurd hmem hlast, fun hin => by omega⟩
        · exact hstop n (by omega)

end

end Document

namespace Builder

variable {m n : Mode} {b : Builder} {t : Token} {ts : List Token}

/-! ## Children and open elements behind a token -/

theorem children_push (hopen : ∀ n ∈ b.openNodes, n < b.document.size) (t : Token) (node : Nat) :
    (b.push t).document.children node = b.document.children node ++
      if t.opened?.isSome = true ∧ b.openNodes.head? = some node then [b.document.size]
      else [] := by
  show ((b.push t).elements[node]?.map _).getD _ =
    (b.elements[node]?.map Element.children).getD _ ++ _
  rw [elements_push]
  by_cases hnew : node = b.document.size
  · subst hnew
    have hhead := head?_ne_size hopen
    cases t <;> simp [getElem?_size, Token.opened?, hhead]
  · by_cases hinner : b.openNodes.head? = some node
    · obtain ⟨e, he⟩ := exists_element (hopen node (List.mem_of_head? hinner))
      cases t <;> simp [hnew, hinner, he, Token.opened?, endTagAt]
    · cases t <;> simp [hnew, hinner, Token.opened?]

theorem openNodes_push_suffix (h : t.opened? = none) : (b.push t).openNodes <:+ b.openNodes := by
  rw [openNodes_push]
  split
  · cases h
  · exact List.tail_suffix _
  · exact List.tail_suffix _
  · exact List.suffix_refl _

theorem ancestors_push (b : Builder) (t : Token) {node : Nat} (h : node < b.document.size) :
    (b.push t).document.ancestors node = b.document.ancestors node :=
  Document.ancestors_congr fun n hn => by
    rw [parent?_push, if_neg (Nat.ne_of_lt (Nat.lt_of_le_of_lt hn h))]

theorem Fits.sound (h : Fits m b) : b.document.Sound :=
  ⟨h.parent_lt, h.named⟩

/-! ## The invariant -/

/-- The open elements behind tokens that leave the reader in the mode, and the tree so far. -/
structure Nested (m : Mode) (b : Builder) : Prop where
  length : b.openNodes.length = m.openCount
  before : m.isBefore = true → b.document.size = 0
  open_suffix : ∀ last, b.document.size = last + 1 → b.openNodes <:+ b.document.ancestors last
  root : ∀ node < b.document.size, b.document.parent? node = none ↔ node = 0
  follows : b.document.Follows
  children : ∀ node, b.document.children node =
    (List.range b.document.size).filter fun child => b.document.parent? child = some node

theorem nested_empty : Nested .start empty where
  length := rfl
  before _ := rfl
  open_suffix last h := by cases h
  root node h := absurd h (Nat.not_lt_zero node)
  follows node parent h := by cases h
  children _ := rfl

theorem Nested.length_push (h : Nested m b) (hadm : m.Admits t n) :
    (b.push t).openNodes.length = n.openCount := by
  rw [openNodes_push]
  cases hadm with
  | before text hm hn => rw [h.length, Mode.openCount_of_isBefore hm, Mode.openCount_of_isBefore hn]
  | within => exact h.length
  | behind => exact h.length
  | root name hm => rw [List.length_cons, h.length, Mode.openCount_of_isBefore hm, Mode.openCount]
  | child => rw [List.length_cons, h.length, Mode.openCount, Mode.openCount]
  | part => exact h.length
  | tagEnd => exact h.length
  | selfClosing depth =>
    rw [Mode.openCount_closing]
    show b.openNodes.tail.length = depth
    rw [List.length_tail, h.length, Mode.openCount, Nat.add_sub_cancel]
  | closeTag outer =>
    rw [Mode.openCount_closing]
    show b.openNodes.tail.length = outer
    rw [List.length_tail, h.length, Mode.openCount, Nat.add_sub_cancel]

theorem Nested.before_push (h : Nested m b) (hadm : m.Admits t n) (hn : n.isBefore = true) :
    (b.push t).document.size = 0 := by
  have hclosing (depth : Nat) : (Mode.closing depth).isBefore = false := by
    cases depth <;> rfl
  cases hadm with
  | before text hm _ =>
    rw [size_push, h.before hm]
    rfl
  | selfClosing depth =>
    rw [hclosing] at hn
    cases hn
  | closeTag outer =>
    rw [hclosing] at hn
    cases hn
  | _ => cases hn

/-- An element that is opened has none around it only if it is the first one. -/
theorem Nested.openNodes_eq_nil_iff (h : Nested m b) (hfits : Fits m b) {name : QualifiedName}
    (hadm : m.Admits (.openTag name) n) : b.openNodes = [] ↔ b.document.size = 0 := by
  cases hadm with
  | root name hm =>
    have hnil : b.openNodes = [] := by
      rw [← List.length_eq_zero_iff, h.length, Mode.openCount_of_isBefore hm]
    exact ⟨fun _ => h.before hm, fun _ => hnil⟩
  | child outer name =>
    have hlength : b.openNodes.length = outer + 1 := h.length
    obtain ⟨inner, rest, hopen⟩ := List.exists_cons_of_length_eq_add_one hlength
    have hlt := hfits.open_lt inner (by rw [hopen]; exact .head _)
    rw [hopen]
    constructor
    · intro hnil
      cases hnil
    · intro hsize
      omega

/-- Around a new element are those that were open. -/
theorem Nested.ancestors_push_openTag (h : Nested m b) (hfits : Fits m b)
    (hpush : (b.push t).document.Sound) (hopened : t.opened?.isSome = true) :
    (b.push t).document.ancestors b.document.size = b.document.size :: b.openNodes := by
  obtain ⟨name, hname⟩ := Option.isSome_iff_exists.mp hopened
  have hparent : (b.push t).document.parent? b.document.size = b.openNodes.head? := by
    rw [parent?_push, if_pos rfl, hname]
    rfl
  cases hopen : b.openNodes with
  | nil =>
    rw [hopen] at hparent
    exact Document.ancestors_of_root hparent
  | cons inner rest =>
    rw [hopen] at hparent
    have hlt : inner < b.document.size := hfits.open_lt inner (by rw [hopen]; exact .head _)
    obtain ⟨last, hlast⟩ : ∃ last, b.document.size = last + 1 := ⟨b.document.size - 1, by omega⟩
    have hsuffix := h.open_suffix last hlast
    rw [hopen] at hsuffix
    rw [Document.ancestors_of_parent? hpush hparent, ancestors_push b t hlt,
      Document.ancestors_of_suffix hfits.sound hsuffix]

theorem Nested.open_suffix_push (h : Nested m b) (hfits : Fits m b)
    (hpush : (b.push t).document.Sound) {last : Nat} (hsize : (b.push t).document.size = last + 1) :
    (b.push t).openNodes <:+ (b.push t).document.ancestors last := by
  rw [size_push] at hsize
  by_cases hopened : t.opened?.isSome = true
  · rw [if_pos hopened, Nat.add_right_cancel_iff] at hsize
    obtain ⟨name, rfl⟩ : ∃ name, t = .openTag name := by
      cases t <;> first | exact ⟨_, rfl⟩ | cases hopened
    have hall := h.ancestors_push_openTag hfits hpush rfl
    rw [hsize] at hall
    exact ⟨[], by rw [hall, openNodes_push, hsize]; rfl⟩
  · rw [if_neg hopened, Nat.add_zero] at hsize
    have hnone : t.opened? = none := by
      rwa [Option.not_isSome_iff_eq_none] at hopened
    rw [ancestors_push b t (by omega)]
    exact (openNodes_push_suffix hnone).trans (h.open_suffix last hsize)

theorem Nested.root_push (h : Nested m b) (hfits : Fits m b) (hadm : m.Admits t n) {node : Nat}
    (hnode : node < (b.push t).document.size) :
    (b.push t).document.parent? node = none ↔ node = 0 := by
  by_cases hold : node < b.document.size
  · rw [parent?_push, if_neg (Nat.ne_of_lt hold)]
    exact h.root node hold
  · obtain ⟨rfl, name, rfl⟩ := exists_openTag_of_lt (Nat.le_of_not_lt hold) hnode
    rw [parent?_push, if_pos rfl, ← h.openNodes_eq_nil_iff hfits hadm]
    exact List.head?_eq_none_iff

theorem Nested.follows_push (h : Nested m b) : (b.push t).document.Follows := by
  intro node parent hparent
  rw [parent?_push] at hparent
  split at hparent
  · next hnew =>
    obtain ⟨name, -, hhead⟩ := Option.bind_eq_some_iff.mp hparent
    rw [ancestors_push b t (by omega)]
    exact (h.open_suffix node hnew.symm).subset (List.mem_of_head? hhead)
  · have hlt := Document.lt_size_of_parent? hparent
    rw [ancestors_push b t (by omega)]
    exact h.follows node parent hparent

theorem Nested.children_push (h : Nested m b) (hfits : Fits m b) (node : Nat) :
    (b.push t).document.children node = (List.range (b.push t).document.size).filter
      fun child => (b.push t).document.parent? child = some node := by
  have hold : (List.range b.document.size).filter
        (fun child => (b.push t).document.parent? child = some node) =
      (List.range b.document.size).filter
        fun child => b.document.parent? child = some node := by
    refine List.filter_congr fun child hchild => ?_
    rw [parent?_push, if_neg (Nat.ne_of_lt (List.mem_range.mp hchild))]
  rw [Builder.children_push hfits.open_lt, h.children node, size_push]
  cases hopened : t.opened? with
  | none => simp [hold]
  | some name =>
    have hnew : (b.push t).document.parent? b.document.size = b.openNodes.head? := by
      rw [parent?_push, if_pos rfl, hopened]
      rfl
    rw [Option.isSome_some, if_pos rfl, List.range_succ, List.filter_append, hold,
      List.filter_cons, List.filter_nil, hnew]
    simp

/-- One token keeps the invariant. -/
theorem Nested.push (h : Nested m b) (hfits : Fits m b) (hadm : m.Admits t n)
    (hwf : t.WellFormed) : Nested n (b.push t) where
  length := h.length_push hadm
  before := h.before_push hadm
  open_suffix _ := h.open_suffix_push hfits (hfits.push hadm hwf).sound
  root _ := h.root_push hfits hadm
  follows := h.follows_push
  children := h.children_push hfits

/-- A run of tokens keeps the invariant. -/
theorem Nested.after (h : Nested m b) (hfits : Fits m b) (hruns : m.Runs ts n) :
    Nested n (b.after ts) := by
  induction hruns generalizing b with
  | nil => exact h
  | cons hadm hwf _ ih => exact ih (h.push hfits hadm hwf) (hfits.push hadm hwf)

end Builder

/-! ## Documents that were parsed -/

namespace Document

theorem Outwards.exists_last {d : Document} {node : Nat} {row : List Nat}
    (h : d.Outwards node row) :
    ∃ last ∈ row, row.getLast? = some last ∧ d.parent? last = none := by
  induction h with
  | root hnone => exact ⟨_, .head _, rfl, hnone⟩
  | @step node parent row _ hrow ih =>
    obtain ⟨last, hmem, hlast, hnone⟩ := ih
    refine ⟨last, .tail node hmem, ?_, hnone⟩
    rw [List.getLast?_cons, hlast]
    rfl

theorem isTree_of_nested {m : Mode} {b : Builder} (h : b.Nested m) (hfits : b.Fits m) :
    b.document.IsTree where
  root := h.root
  parent node parent hparent := ⟨hfits.parent_lt node parent hparent, lt_size_of_parent? hparent⟩
  children_sorted node := by
    rw [h.children node]
    exact List.pairwise_lt_range.filter _
  mem_children node child := by
    rw [h.children node, List.mem_filter, List.mem_range, decide_eq_true_eq]
    exact ⟨And.right, fun hparent => ⟨lt_size_of_parent? hparent, hparent⟩⟩
  inside node hnode := by
    obtain ⟨stop, hlt, hle, hstop⟩ := exists_stop hfits.sound h.follows hnode
    refine ⟨stop, hlt, hle, fun n => ?_⟩
    constructor
    · intro hin
      obtain ⟨hmem, hne⟩ := (inside_iff hfits.sound).mp hin
      obtain ⟨hfirst, hlast⟩ := (hstop n hin.lt_size).mp hmem
      exact ⟨Nat.lt_of_le_of_ne hfirst hne, hlast⟩
    · rintro ⟨hfirst, hlast⟩
      refine (inside_iff hfits.sound).mpr ⟨?_, Nat.ne_of_lt hfirst⟩
      exact (hstop n (Nat.lt_of_lt_of_le hlast hle)).mpr ⟨Nat.le_of_lt hfirst, hlast⟩
  ancestors_outwards node _ := outwards_ancestors hfits.sound node
  ancestors_head node _ := by
    obtain ⟨rest, hrest⟩ := (outwards_ancestors hfits.sound node).exists_cons
    rw [hrest, List.head?_cons]
  ancestors_sorted node _ := sorted_ancestors hfits.sound node
  ancestors_last node hnode := by
    obtain ⟨last, hmem, hlast, hnone⟩ := (outwards_ancestors hfits.sound node).exists_last
    have hlt := Nat.lt_of_le_of_lt (le_of_mem_ancestors hmem) hnode
    rw [hlast, (h.root last hlt).mp hnone]

/-- From every text that can be read, well-formed or broken, comes a tree in pre-order. -/
theorem isTree_of_parse {text : String} {d : Document} (h : parse text = .ok d) : d.IsTree := by
  obtain ⟨n, hruns⟩ := runs_tokens text.toList
  rw [eq_of_parseChars h, Builder.ofTokens_eq]
  exact isTree_of_nested (Builder.nested_empty.after Builder.fits_empty hruns)
    (Builder.fits_of_runs hruns)

/-- The last start tag breaks off, and the only end tag names no open element. -/
def crookedText : String := "<a><b><c/></x><d e='1' <"

theorem isTree_of_parse_crooked : ∃ d, parse crookedText = .ok d ∧
    d.nodes.map d.children = [[1, 3], [2], [], []] ∧ d.IsTree := by
  have hchildren : (parse crookedText).toOption.map (fun d => d.nodes.map d.children) =
      some [[1, 3], [2], [], []] := by
    decide +kernel
  obtain ⟨d, hd, hchildren⟩ := Option.map_eq_some_iff.mp hchildren
  have hparse := eq_ok_of_toOption hd
  exact ⟨d, hparse, hchildren, isTree_of_parse hparse⟩

end Document

end LayoutCompletion
