import LayoutCompletion.Proofs.Completion.Ranked
import LayoutCompletion.Proofs.Completion.UnderCursor

/-!
# What a request offers

`Offered` says, without a word on lists or on an order, which attributes a request should offer
and how well each matches. If the limit leaves room for every candidate, the completions are
exactly these (`completeInBy_offers`): nothing is lost by merging, and nothing else comes in.
-/

namespace LayoutCompletion

variable {order : Enumeration} {ctx : CompletionContext} {matcher : Matcher} {d : Document}
  {offset : Nat} {cursor : Cursor}

/-- The element has the name already: another of its attributes is written so, and it is none that
declares a namespace. -/
def Present (d : Document) (node index : Nat) (name : String) : Prop :=
  ∃ i a, (d.attributes node)[i]? = some a ∧ i ≠ index ∧ a.isNamespaceDeclaration = false ∧
    a.name = name

/--
The attribute should be offered, with this quality, to the one with number `index` of an element.

A package that is searched has a group that applies to the element and declares the attribute, the
attribute matches, and the element has it not already, if that counts.
-/
def Offered (ctx : CompletionContext) (matcher : Matcher) (d : Document) (node index : Nat)
    (typed : List Char) (space name : String) (package : PackageName) (quality : Quality) : Prop :=
  ∃ (searched : Package) (styleable : String) (group : AttributeGroup),
    Searched matcher d node ctx.resources typed space searched name quality ∧
    (ctx.widgets.resolve d node searched).get? styleable = some group ∧
    (∃ a ∈ group.attributes, a.name = name ∧ a.package = package) ∧
    quality ≠ .unmatched ∧
    (ctx.settings.skipExisting = true → ¬Present d node index (space ++ ":" ++ name))

theorem mem_presentNames {node index : Nat} {name : String} :
    name ∈ presentNames (d.attributes node) index ↔ Present d node index name := by
  unfold presentNames Present
  rw [List.mem_filterMap]
  constructor
  · rintro ⟨a, ha, hname⟩
    obtain ⟨i, hi, hget⟩ := List.mem_eraseIdx_iff_getElem?.mp ha
    split at hname
    · simp at hname
    · next hdeclares =>
      exact ⟨i, a, hget, hi, by simpa using hdeclares, Option.some.inj hname⟩
  · rintro ⟨i, a, hget, hi, hdeclares, rfl⟩
    refine ⟨a, List.mem_eraseIdx_iff_getElem?.mpr ⟨i, hi, hget⟩, ?_⟩
    rw [hdeclares]
    rfl

/-- The candidates that are not left out are the attributes that should be offered. -/
theorem exists_mem_unskippedBy (hd : d.Sound) {space name : String} {package : PackageName}
    {quality : Quality} :
    (∃ c ∈ unskippedBy order ctx matcher d cursor, c.space = space ∧ c.name = name ∧
        c.package = package ∧ c.quality = quality) ↔
      Offered ctx matcher d cursor.node cursor.index cursor.typed space name package quality := by
  have hskip {c : Candidate} (hc : Document.IsPrefix c.space) :
      c ∈ unskippedBy order ctx matcher d cursor ↔
        c ∈ (Search.ofTyped d cursor.node ctx.resources cursor.typed).candidatesBy order matcher
            ctx.widgets d cursor.node ∧
          (ctx.settings.skipExisting = true →
            ¬Present d cursor.node cursor.index (c.space ++ ":" ++ c.name)) := by
    unfold unskippedBy withoutPresent
    rw [← mem_presentNames, ← qualify_of_isPrefix hc]
    split
    · next hon => simp [hon, Candidate.label]
    · next hoff => simp [hoff]
  constructor
  · rintro ⟨c, hc, rfl, rfl, rfl, rfl⟩
    have hmem := mem_of_mem_unskippedBy hc
    have hprefix := Search.isPrefix_of_mem hd hmem
    obtain ⟨searched, styleable, group, a, ha, htarget, hgroup, hname, hpackage, -, hquality,
      hmatch⟩ := Search.mem_candidatesBy.mp hmem
    rw [← hname] at hquality
    exact ⟨searched, styleable, group, (searched_iff hd).mpr ⟨htarget, hquality⟩, hgroup,
      ⟨a, ha, hname.symm, hpackage.symm⟩, hmatch, ((hskip hprefix).mp hc).2⟩
  · rintro ⟨searched, styleable, group, hsearched, hgroup, ⟨a, ha, rfl, rfl⟩, hmatch, hpresent⟩
    obtain ⟨htarget, hquality⟩ := (searched_iff hd).mp hsearched
    refine ⟨⟨a.name, space, a.package, a.format, quality⟩, ?_, rfl, rfl, rfl, rfl⟩
    refine (hskip (hsearched.isPrefix hd)).mpr ⟨?_, hpresent⟩
    exact Search.mem_candidatesBy.mpr ⟨searched, styleable, group, a, ha, htarget, hgroup, rfl, rfl,
      rfl, hquality, hmatch⟩

/-- Ranking neither loses an attribute nor changes how well it matches. -/
theorem exists_mem_ranked_unskippedBy (hd : d.Sound) {space name : String} {package : PackageName}
    {quality : Quality} :
    (∃ c ∈ ranked ctx.settings (unskippedBy order ctx matcher d cursor), c.space = space ∧
        c.name = name ∧ c.package = package ∧ c.quality = quality) ↔
      ∃ c ∈ unskippedBy order ctx matcher d cursor, c.space = space ∧ c.name = name ∧
        c.package = package ∧ c.quality = quality := by
  constructor
  · rintro ⟨c, hc, h⟩
    exact ⟨c, mem_of_mem_ranked hc, h⟩
  · rintro ⟨c, hc, rfl, rfl, rfl, rfl⟩
    obtain ⟨k, hk, hsame⟩ := exists_mem_ranked ctx.settings hc
    -- the one that is left in its place is as good, since it inserts the same attribute
    have htie := (sameAttribute_iff_ties hd (mem_of_mem_ranked hk) hc).mp hsame
    obtain ⟨hspace, hname, hpackage⟩ := Candidate.sameAttribute_iff.mp hsame
    exact ⟨k, hk, hspace, hname, hpackage, htie.1⟩

theorem length_ranked_le (settings : CompletionSettings) (l : List Candidate) :
    (ranked settings l).length ≤ l.length := by
  unfold ranked
  dsimp only
  split
  · exact Nat.le_trans (dropRepeats_sublist _).length_le (Nat.le_of_eq (List.length_mergeSort l))
  · exact Nat.le_of_eq (List.length_mergeSort l)

theorem length_withoutPresent_le (settings : CompletionSettings) (attributes : List Attribute)
    (current : Nat) (l : List Candidate) :
    (withoutPresent settings attributes current l).length ≤ l.length := by
  unfold withoutPresent
  split
  · exact List.length_filter_le _ _
  · exact Nat.le_refl _

/--
**A request offers exactly what it should.**

At every place between two characters of a name that was found in a parsed document there are
completions. If the limit leaves room for all candidates, they are the attributes that should be
offered, each with its quality.
-/
theorem completeInBy_offers {text : String} {node index : Nat} {a : Attribute}
    {typed tail : List Char} (hparse : Document.parse text = .ok d)
    (hfind : d.findAttribute? offset = some (node, index))
    (ha : (d.attributes node)[index]? = some a) (hname : a.name.toList = typed ++ tail)
    (hoffset : offset = a.nameSpan.start + Text.utf8Length typed)
    (hlimit : ((Search.ofTyped d node ctx.resources typed).candidatesBy order matcher ctx.widgets d
      node).length ≤ ctx.settings.limit) :
    ∃ list, completeInBy order ctx d offset matcher = .ok list ∧ list.isIncomplete = false ∧
      ∀ space name package quality,
        (∃ c ∈ list.items, c.space = space ∧ c.name = name ∧ c.package = package ∧
          c.quality = quality) ↔
          Offered ctx matcher d node index typed space name package quality := by
  have hd := Document.sound_of_parse hparse
  have hcursor := cursor?_of_findAttribute? hfind ha hname hoffset
  have hroom :
      (ranked ctx.settings (unskippedBy order ctx matcher d ⟨node, index, typed⟩)).length ≤
        ctx.settings.limit :=
    calc (ranked ctx.settings (unskippedBy order ctx matcher d ⟨node, index, typed⟩)).length
      _ ≤ (unskippedBy order ctx matcher d ⟨node, index, typed⟩).length := length_ranked_le _ _
      _ ≤ ((Search.ofTyped d node ctx.resources typed).candidatesBy order matcher ctx.widgets d
          node).length := length_withoutPresent_le _ _ _ _
      _ ≤ ctx.settings.limit := hlimit
  refine ⟨_, completeInBy_of_cursor? hcursor, ?_, fun space name package quality => ?_⟩
  · exact decide_eq_false (Nat.not_lt.mpr hroom)
  · dsimp only
    rw [List.take_of_length_le hroom, exists_mem_ranked_unskippedBy hd, exists_mem_unskippedBy hd]

theorem completeInBy_offers_sample :
    ∃ list, completeIn sampleContext sampleDocument 71 = .ok list ∧ list.isIncomplete = false ∧
      ∀ space name package quality,
        (∃ c ∈ list.items, c.space = space ∧ c.name = name ∧ c.package = package ∧
          c.quality = quality) ↔
          Offered sampleContext .camelHumps sampleDocument 0 2 "a:i".toList space name package
            quality :=
  completeInBy_offers (a := ⟨"a", "i", "", ⟨68, 71⟩, ⟨68, 74⟩⟩) parse_sampleText
    (by decide +kernel) (by decide +kernel) (List.append_nil _).symm (by decide +kernel)
    (by decide +kernel)

end LayoutCompletion
