import LayoutCompletion.Text.Humps
import Mathlib.Data.List.Chain

/-!
# Where a name is cut into humps

`CutsIntoHumps` says what the humps of a name are without a word on how they are found: pieces in a
row, cut before every uppercase letter and behind every separator and nowhere else. A name has one
such row only, and that is `humps` (`cutsIntoHumps_iff`).

The humps of a beginning of a name are humps of the whole name, the last of them perhaps cut short
(`exists_humps_append`).
-/

namespace LayoutCompletion.Text

/-- The pieces are the text, cut before uppercase letters and behind separators only, and at every
such place. -/
structure CutsIntoHumps (text : List Char) (pieces : List (List Char)) : Prop where
  flatten : pieces.flatten = text
  ne_nil : ∀ piece ∈ pieces, piece ≠ []
  /-- An uppercase letter is the first character of its piece. -/
  uppercase_first : ∀ piece ∈ pieces, ∀ c ∈ piece.tail, isUppercase c = false
  /-- A separator is the last character of its piece. -/
  separator_last : ∀ piece ∈ pieces, ∀ c ∈ piece.dropLast, isSeparator c = false
  /-- Between two pieces, a separator ends the first or an uppercase letter begins the second. -/
  boundary : pieces.IsChain fun left right =>
    left.getLast?.any isSeparator = true ∨ right.head?.any isUppercase = true

variable {c : Char} {cs piece : List Char} {pieces : List (List Char)}

theorem cutsIntoHumps_nil : CutsIntoHumps [] pieces ↔ pieces = [] := by
  constructor
  · intro h
    cases pieces with
    | nil => rfl
    | cons piece pieces =>
      have hnil := (List.append_eq_nil_iff.mp h.flatten).1
      exact absurd hnil (h.ne_nil piece List.mem_cons_self)
  · rintro rfl
    exact ⟨rfl, by simp, by simp, by simp, .nil⟩

/-- The first of the pieces begins as the text does. -/
theorem CutsIntoHumps.head? (h : CutsIntoHumps cs pieces) :
    pieces.head?.bind List.head? = cs.head? := by
  cases pieces with
  | nil =>
    rw [← h.flatten]
    rfl
  | cons piece pieces =>
    obtain ⟨c, piece, rfl⟩ := List.exists_cons_of_ne_nil (h.ne_nil piece List.mem_cons_self)
    rw [← h.flatten]
    rfl

/-- A single character is a piece where a hump ends behind it. -/
theorem cutsIntoHumps_singleton_cons :
    CutsIntoHumps (c :: cs) ([c] :: pieces) ↔ CutsIntoHumps cs pieces ∧
      (cs = [] ∨ isSeparator c = true ∨ cs.head?.any isUppercase = true) := by
  constructor
  · rintro ⟨hflatten, hne, hupper, hsep, hchain⟩
    have hcuts : CutsIntoHumps cs pieces :=
      ⟨(List.cons.inj hflatten).2, fun p hp => hne p (.tail _ hp),
        fun p hp => hupper p (.tail _ hp), fun p hp => hsep p (.tail _ hp), hchain.tail⟩
    refine ⟨hcuts, ?_⟩
    cases pieces with
    | nil => exact Or.inl hcuts.flatten.symm
    | cons next pieces =>
      have hhead : next.head? = cs.head? := hcuts.head?
      have hboundary := (List.isChain_cons_cons.mp hchain).1
      rw [hhead] at hboundary
      exact Or.inr hboundary
  · rintro ⟨hcuts, hends⟩
    refine ⟨congrArg (c :: ·) hcuts.flatten, ?_, ?_, ?_, ?_⟩
    · exact List.forall_mem_cons.mpr ⟨List.cons_ne_nil _ _, hcuts.ne_nil⟩
    · exact List.forall_mem_cons.mpr ⟨by simp, hcuts.uppercase_first⟩
    · exact List.forall_mem_cons.mpr ⟨by simp, hcuts.separator_last⟩
    · cases pieces with
      | nil => exact .singleton _
      | cons next pieces =>
        have hhead : next.head? = cs.head? := hcuts.head?
        refine List.isChain_cons_cons.mpr ⟨?_, hcuts.boundary⟩
        rw [hhead]
        refine hends.resolve_left ?_
        rintro rfl
        cases cutsIntoHumps_nil.mp hcuts

/-- Elsewhere a character belongs to the first piece of what follows. -/
theorem cutsIntoHumps_cons_cons (hne : piece ≠ []) :
    CutsIntoHumps (c :: cs) ((c :: piece) :: pieces) ↔ CutsIntoHumps cs (piece :: pieces) ∧
      isSeparator c = false ∧ cs.head?.any isUppercase = false := by
  obtain ⟨d, piece, rfl⟩ := List.exists_cons_of_ne_nil hne
  have hchain : ((c :: d :: piece) :: pieces).IsChain (fun left right =>
        left.getLast?.any isSeparator = true ∨ right.head?.any isUppercase = true) ↔
      ((d :: piece) :: pieces).IsChain (fun left right =>
        left.getLast?.any isSeparator = true ∨ right.head?.any isUppercase = true) := by
    cases pieces with
    | nil => simp
    | cons next pieces => simp only [List.isChain_cons_cons, List.getLast?_cons_cons]
  constructor
  · rintro ⟨hflatten, hpieces, hupper, hsep, hboundary⟩
    have hcs : d :: (piece ++ pieces.flatten) = cs := (List.cons.inj hflatten).2
    obtain ⟨hupper, huppers⟩ := List.forall_mem_cons.mp hupper
    obtain ⟨hsep, hseps⟩ := List.forall_mem_cons.mp hsep
    refine ⟨⟨hcs, ?_, ?_, ?_, hchain.mp hboundary⟩, hsep c (by simp), ?_⟩
    · exact List.forall_mem_cons.mpr ⟨hne, fun p hp => hpieces p (.tail _ hp)⟩
    · exact List.forall_mem_cons.mpr ⟨fun x hx => hupper x (.tail _ hx), huppers⟩
    · exact List.forall_mem_cons.mpr ⟨fun x hx => hsep x (by simpa using Or.inr hx), hseps⟩
    · rw [← hcs]
      exact hupper d List.mem_cons_self
  · rintro ⟨⟨hflatten, hne, hupper, hsep, hboundary⟩, hc, hd⟩
    obtain ⟨hupper, huppers⟩ := List.forall_mem_cons.mp hupper
    obtain ⟨hsep, hseps⟩ := List.forall_mem_cons.mp hsep
    rw [← hflatten] at hd ⊢
    refine ⟨rfl, ?_, ?_, ?_, hchain.mpr hboundary⟩
    · exact List.forall_mem_cons.mpr ⟨List.cons_ne_nil _ _, fun p hp => hne p (.tail _ hp)⟩
    · exact List.forall_mem_cons.mpr ⟨List.forall_mem_cons.mpr ⟨hd, hupper⟩, huppers⟩
    · exact List.forall_mem_cons.mpr ⟨List.forall_mem_cons.mpr ⟨hc, hsep⟩, hseps⟩

/-- The humps of a text are the one row of pieces into which it is cut. -/
theorem cutsIntoHumps_iff : CutsIntoHumps cs pieces ↔ pieces = humps cs := by
  induction cs generalizing pieces with
  | nil => exact cutsIntoHumps_nil
  | cons c cs ih =>
    constructor
    · intro h
      cases pieces with
      | nil => cases h.flatten
      | cons piece pieces =>
        obtain ⟨x, piece, rfl⟩ := List.exists_cons_of_ne_nil (h.ne_nil piece List.mem_cons_self)
        obtain rfl : x = c := (List.cons.inj h.flatten).1
        by_cases hpiece : piece = []
        · subst hpiece
          obtain ⟨hcuts, hends⟩ := cutsIntoHumps_singleton_cons.mp h
          obtain rfl := ih.mp hcuts
          rcases hends with rfl | hends
          · cases hx : isSeparator x <;> simp [humps, consHump, hx]
          · rw [humps, if_pos (by simpa using hends)]
        · obtain ⟨hcuts, hx, hcs⟩ := (cutsIntoHumps_cons_cons hpiece).mp h
          rw [humps, if_neg (by simp [hx, hcs]), ← ih.mp hcuts]
          rfl
    · rintro rfl
      have hcuts := ih.mpr rfl
      rw [humps]
      split
      · next hends => exact cutsIntoHumps_singleton_cons.mpr ⟨hcuts, Or.inr (by simpa using hends)⟩
      · next hends =>
        cases hhumps : humps cs with
        | nil =>
          rw [hhumps] at hcuts
          exact cutsIntoHumps_singleton_cons.mpr ⟨hcuts, Or.inl hcuts.flatten.symm⟩
        | cons piece pieces =>
          rw [hhumps] at hcuts
          refine (cutsIntoHumps_cons_cons (hcuts.ne_nil piece List.mem_cons_self)).mpr ⟨hcuts, ?_⟩
          simpa using hends

/-! ## Beginnings of names -/

/-- The humps of a beginning of a name are those of the name, up to one that may be longer. -/
theorem exists_humps_append {cs : List Char} (hne : cs ≠ []) (more : List Char) :
    ∃ front hump longer rest, humps cs = front ++ [hump] ∧
      humps (cs ++ more) = front ++ (hump ++ longer) :: rest := by
  induction cs with
  | nil => exact absurd rfl hne
  | cons c cs ih =>
    have hstep : ∀ next, humps (c :: next) = if isSeparator c || next.head?.any isUppercase then
        [c] :: humps next else consHump c (humps next) := fun _ => rfl
    cases cs with
    | nil =>
      have hcut : humps [c] = [] ++ [[c]] := by simp [humps, consHump]
      rw [List.cons_append, List.nil_append, hstep more]
      split
      · exact ⟨[], [c], [], humps more, hcut, rfl⟩
      · cases humps more with
        | nil => exact ⟨[], [c], [], [], hcut, rfl⟩
        | cons hump rest => exact ⟨[], [c], hump, rest, hcut, rfl⟩
    | cons c' cs =>
      -- whether a hump ends behind `c` depends on `c` and `c'` only
      obtain ⟨front, hump, longer, rest, hcut, hmore⟩ := ih (List.cons_ne_nil _ _)
      rw [List.cons_append, hstep, hstep, hcut, hmore, List.cons_append, List.head?_cons,
        List.head?_cons]
      split
      · exact ⟨[c] :: front, hump, longer, rest, rfl, rfl⟩
      · cases front with
        | nil => exact ⟨[], c :: hump, longer, rest, rfl, rfl⟩
        | cons first front => exact ⟨(c :: first) :: front, hump, longer, rest, rfl, rfl⟩

end LayoutCompletion.Text
