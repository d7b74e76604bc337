import LayoutCompletion.Proofs.Completion.Offered
import LayoutCompletion.Proofs.Matching

/-!
# Typing more only narrows

What a request offers behind some characters of a name, it offers behind fewer of them as well
(`Offered.of_append`), so a list that was not cut keeps everything that later ones have
(`completeInBy_narrows`), whatever order of styleables each request goes by. Where the colon has not
been typed yet, more packages are searched, but the prefix that it will settle is among those that
are tried.
-/

namespace LayoutCompletion

open Text Matching

variable {ctx : CompletionContext} {d : Document} {node index : Nat} {r : ResourceRegistry}
  {typed more : List Char} {space name : String} {quality : Quality}

theorem Quality.best_ne_unmatched {a b : Quality} :
    a.best b ≠ .unmatched ↔ a ≠ .unmatched ∨ b ≠ .unmatched := by
  cases a <;> cases b <;> decide

/-- A text without a colon that begins a text with one stands before the colon. -/
theorem prefix_of_append_eq {front base : List Char} (hnot : ':' ∉ typed)
    (h : typed ++ more = front ++ ':' :: base) : typed <+: front := by
  rcases List.append_eq_append_iff.mp h with ⟨between, rfl, -⟩ | ⟨between, rfl, hcolon⟩
  · exact List.prefix_append typed between
  · cases between with
    | nil => exact (List.append_nil front).symm ▸ List.prefix_rfl
    | cons c between =>
      obtain ⟨rfl, -⟩ := List.cons.inj hcolon
      simp at hnot

/-- A text with a colon has a first one. -/
theorem exists_first_colon (h : ':' ∈ typed) :
    ∃ front base, typed = front ++ ':' :: base ∧ ':' ∉ front := by
  cases hsplit : splitFirst? ':' typed with
  | none => exact absurd h (splitFirst?_eq_none.mp hsplit)
  | some cut => exact ⟨cut.1, cut.2, splitFirst?_eq_some.mp hsplit⟩

/-- What is searched and matches is searched and matches when less has been typed. -/
theorem Searched.of_append {package : Package}
    (h : Searched .camelHumps d node r (typed ++ more) space package name quality)
    (hmatch : quality ≠ .unmatched) :
    ∃ earlier, Searched .camelHumps d node r typed space package name earlier ∧
      earlier ≠ .unmatched := by
  generalize htyped : typed ++ more = whole at h
  cases h with
  | @bound front base uri _ _ hwhole hfront hbinds hpackage =>
    subst hwhole
    by_cases hcolon : ':' ∈ typed
    · -- the prefix is settled already, and less of the bare name has been typed
      obtain ⟨front', base', rfl, hfront'⟩ := exists_first_colon hcolon
      rw [List.append_assoc, List.cons_append] at htyped
      obtain ⟨rfl, rfl⟩ := split_unique hfront' hfront htyped
      exact ⟨_, .bound name rfl hfront hbinds hpackage, matches_of_append hmatch⟩
    · -- the typed text begins the prefix, so it begins every name with that prefix
      have hbegins := prefix_of_append_eq hcolon htyped
      have hlabel : (String.ofList typed).toList <+:
          (String.ofList front ++ ":" ++ name).toList := by
        simp only [String.toList_append, String.toList_ofList, List.append_assoc]
        exact hbegins.trans (List.prefix_append _ _)
      refine ⟨_, .unbound name ?_ hbinds hpackage,
        Quality.best_ne_unmatched.mpr (Or.inl (classify_of_beginning hlabel))⟩
      rintro front' base' rfl
      simp at hcolon
  | unbound _ hnone hbinds hpackage =>
    subst htyped
    refine ⟨_, .unbound name ?_ hbinds hpackage, Quality.best_ne_unmatched.mpr ?_⟩
    · intro front base hsplit
      exact hnone front (base ++ more) (by rw [hsplit]; simp)
    · exact (Quality.best_ne_unmatched.mp hmatch).imp matches_of_append matches_of_append

theorem Offered.of_append {package : PackageName}
    (h : Offered ctx .camelHumps d node index (typed ++ more) space name package quality) :
    ∃ earlier, Offered ctx .camelHumps d node index typed space name package earlier := by
  obtain ⟨searched, styleable, group, hsearched, hgroup, hentry, hmatch, hpresent⟩ := h
  obtain ⟨earlier, hsearched, hmatch⟩ := hsearched.of_append hmatch
  exact ⟨earlier, searched, styleable, group, hsearched, hgroup, hentry, hmatch, hpresent⟩

/--
**Typing more only narrows.**

At every two places between characters of a name there are completions. If those at the first place
were not cut, they have every attribute that those at the second have, although the two requests
may go through styleables in different orders.
-/
theorem completeInBy_narrows {text : String} {a : Attribute} {tail : List Char}
    (hparse : Document.parse text = .ok d) (ha : (d.attributes node)[index]? = some a)
    (hname : a.name.toList = typed ++ more ++ tail) (order order' : Enumeration)
    (ctx : CompletionContext) :
    ∃ list list',
      completeInBy order ctx d (a.nameSpan.start + utf8Length typed) = .ok list ∧
      completeInBy order' ctx d (a.nameSpan.start + utf8Length (typed ++ more)) = .ok list' ∧
      (list.isIncomplete = false → ∀ c ∈ list'.items, ∃ k ∈ list.items,
        k.space = c.space ∧ k.name = c.name ∧ k.package = c.package) := by
  have hd := Document.sound_of_parse hparse
  have hcursor := cursor?_of_attribute hparse ha (hname.trans (List.append_assoc _ _ _))
  have hcursor' := cursor?_of_attribute hparse ha hname
  refine ⟨_, _, completeInBy_of_cursor? hcursor, completeInBy_of_cursor? hcursor',
    fun hall c hc => ?_⟩
  dsimp only at hall hc ⊢
  rw [List.take_of_length_le (Nat.not_lt.mp (of_decide_eq_false hall))]
  have hoffered := (exists_mem_unskippedBy hd).mp
    ⟨c, mem_of_mem_ranked (List.mem_of_mem_take hc), rfl, rfl, rfl, rfl⟩
  obtain ⟨earlier, hoffered⟩ := hoffered.of_append
  have hunskipped : ∃ k ∈ unskippedBy order ctx .camelHumps d ⟨node, index, typed⟩,
      k.space = c.space ∧ k.name = c.name ∧ k.package = c.package ∧ k.quality = earlier :=
    (exists_mem_unskippedBy hd).mpr hoffered
  obtain ⟨k, hk, hspace, hname, hpackage, -⟩ := (exists_mem_ranked_unskippedBy hd).mpr hunskipped
  exact ⟨k, hk, hspace, hname, hpackage⟩

theorem completeInBy_narrows_sample :
    ∃ list list', completeInBy .backwards sampleContext sampleDocument 69 = .ok list ∧
      completeIn sampleContext sampleDocument 71 = .ok list' ∧
      ∀ c ∈ list'.items, ∃ k ∈ list.items,
        k.space = c.space ∧ k.name = c.name ∧ k.package = c.package := by
  have ha : (sampleDocument.attributes 0)[2]? = some ⟨"a", "i", "", ⟨68, 71⟩, ⟨68, 74⟩⟩ := by
    decide +kernel
  have hname : (⟨"a", "i", "", ⟨68, 71⟩, ⟨68, 74⟩⟩ : Attribute).name.toList =
      ['a'] ++ [':', 'i'] ++ [] := by decide
  obtain ⟨list, list', hlist, hlist', hnarrow⟩ :=
    completeInBy_narrows parse_sampleText ha hname .backwards .asFound sampleContext
  have hcursor : sampleDocument.cursor? 69 = some ⟨0, 2, ['a']⟩ := by decide +kernel
  obtain rfl := Except.ok.inj (hlist.symm.trans (completeInBy_of_cursor? hcursor))
  have hfew : ((Search.ofTyped sampleDocument 0 sampleContext.resources ['a']).candidatesBy
      .backwards .camelHumps sampleContext.widgets sampleDocument 0).length ≤ 200 := by
    decide +kernel
  have hroom : (ranked sampleContext.settings
      (unskippedBy .backwards sampleContext .camelHumps sampleDocument
        ⟨0, 2, ['a']⟩)).length ≤ 200 :=
    Nat.le_trans (length_ranked_le _ _) (Nat.le_trans (length_withoutPresent_le _ _ _ _) hfew)
  exact ⟨_, list', hlist, hlist', hnarrow (decide_eq_false (Nat.not_lt.mpr hroom))⟩

end LayoutCompletion
