import LayoutCompletion.Proofs.Markup.Opening

/-!
# Trees and how they are written

`Writes ts text` says that the text is one of the ways to write a row of trees as markup: with any
space between tags and within them, values in quotes of either kind, and elements without content
in the short form or with an end tag. The reader takes each of these texts apart into tokens that
spell the trees (`exists_readsText_of_writes`). What the layout was is in the tokens, but not in
what they spell (`Spells`).

An element is read in the same way wherever one can begin (`ReadsElement`); only what comes behind
its end differs, since the end of the root is the end of all content.
-/

namespace LayoutCompletion.Markup

open Scan QualifiedName

/-- A name that does not begin with a colon. -/
structure ProperName where
  name : QualifiedName
  valid : name.Valid
  proper : name.qualifier ≠ some []

/-- An element with its attributes and the elements in it. -/
inductive Tree
  | node (tag : ProperName) (attributes : List (ProperName × List Char)) (children : List Tree)

/-! ## Ways of writing -/

/-- Attributes as they are written in a start tag, up to what ends the tag. -/
inductive WritesParts : List (ProperName × List Char) → List Char → Prop
  | done {trail : List Char} : AllOf isSpace trail → WritesParts [] trail
  | part {lead equals value text : List Char} {name : ProperName} {q : Char}
    {attributes : List (ProperName × List Char)} :
    lead ≠ [] → AllOf isSpace lead → IsEquals equals → IsQuote q → AllOf (inValue q) value →
      WritesParts attributes text →
        WritesParts ((name, value) :: attributes)
          (lead ++ name.name.text ++ equals ++ q :: value ++ q :: text)

/-- Trees as they are written one behind the other, with space around them. -/
inductive Writes : List Tree → List Char → Prop
  | done {gap : List Char} : AllOf isSpace gap → Writes [] gap
  | closed {gap parts text : List Char} {tag : ProperName}
    {attributes : List (ProperName × List Char)} {siblings : List Tree} :
    AllOf isSpace gap → WritesParts attributes parts → Writes siblings text →
      Writes (.node tag attributes [] :: siblings)
        (gap ++ ('<' :: tag.name.text ++ parts ++ ['/', '>']) ++ text)
  | paired {gap parts inner trail text : List Char} {tag : ProperName}
    {attributes : List (ProperName × List Char)} {children siblings : List Tree} :
    AllOf isSpace gap → WritesParts attributes parts → Writes children inner →
      AllOf isSpace trail → Writes siblings text →
        Writes (.node tag attributes children :: siblings)
          (gap ++ ('<' :: tag.name.text ++ parts ++ '>' :: inner ++
            '<' :: '/' :: tag.name.text ++ trail ++ ['>']) ++ text)

/-! ## Tokens of trees -/

/-- The tokens tell of these attributes and of nothing else. -/
inductive SpellsParts : List (ProperName × List Char) → List Token → Prop
  | done : SpellsParts [] []
  | part {ts : List Token} {name : ProperName} {attributes : List (ProperName × List Char)}
    (lead equals value : List Char) (q : Char) : SpellsParts attributes ts →
      SpellsParts ((name, value) :: attributes) (.attribute lead name.name equals q value :: ts)

/-- The tokens tell of these trees and of nothing else. -/
inductive Spells : List Tree → List Token → Prop
  | done : Spells [] []
  | skipped {trees : List Tree} {ts : List Token} (text : List Char) :
    Spells trees ts → Spells trees (.skipped text :: ts)
  | closed {attributes : List (ProperName × List Char)} {siblings : List Tree}
    {parts ts : List Token} (tag : ProperName) (lead : List Char) :
    SpellsParts attributes parts → Spells siblings ts →
      Spells (.node tag attributes [] :: siblings)
        (.openTag tag.name :: (parts ++ .tagEnd lead true :: ts))
  | paired {attributes : List (ProperName × List Char)} {children siblings : List Tree}
    {parts inner ts : List Token} (tag : ProperName) (lead trail : List Char) :
    SpellsParts attributes parts → Spells children inner → Spells siblings ts →
      Spells (.node tag attributes children :: siblings)
        (.openTag tag.name :: (parts ++ .tagEnd lead false ::
          (inner ++ .closeTag tag.name trail :: ts)))

theorem Spells.append {trees siblings : List Tree} {ts us : List Token} (h : Spells trees ts)
    (hmore : Spells siblings us) : Spells (trees ++ siblings) (ts ++ us) := by
  induction h with
  | done => exact hmore
  | skipped text _ ih => exact .skipped text ih
  | closed tag lead hparts _ ih =>
    have h := Spells.closed tag lead hparts ih
    simpa only [List.cons_append, List.append_assoc] using h
  | paired tag lead trail hparts hinner _ _ ih =>
    have h := Spells.paired tag lead trail hparts hinner ih
    simpa only [List.cons_append, List.append_assoc] using h

/-! ## Reading a tag -/

section
variable {m : Mode} {depth outer : Nat} {gap parts inner trail text : List Char}
  {tag name : ProperName} {attributes : List (ProperName × List Char)} {tree : Tree}
  {trees : List Tree}

/-- Nothing that may stand behind the name of a tag goes on with it. -/
theorem WritesParts.ends_continues (h : WritesParts attributes parts) {c : Char}
    (hc : continues c = false) (rest : List Char) : Ends continues (parts ++ c :: rest) := by
  cases h with
  | done htrail => exact ends_continues_space htrail (by simpa using hc)
  | @part lead _ _ _ _ _ _ hne hlead _ _ _ _ =>
    obtain ⟨d, lead, rfl⟩ := List.exists_cons_of_ne_nil hne
    exact ends_cons.mpr (not_continues_of_isSpace (hlead d (.head _)))

/-- The attributes of a start tag are read in written order, and behind them its end. -/
theorem exists_reads_of_writesParts (h : WritesParts attributes parts) (selfClosing : Bool) :
    ∃ ts lead, SpellsParts attributes ts ∧ ∀ depth rest,
      Reads (.tag depth) (parts ++ (Token.tagEnd [] selfClosing).text ++ rest)
        (ts ++ [.tagEnd lead selfClosing])
        (if selfClosing then .closing depth else .content depth) rest := by
  induction h with
  | @done trail htrail =>
    refine ⟨[], trail, .done, fun depth rest => ?_⟩
    have h := reads_tagEnd depth htrail selfClosing rest
    cases selfClosing <;> simpa [Token.text] using h
  | @part lead equals value text name q attributes hne hlead he hq hvalue _ ih =>
    obtain ⟨ts, last, hts, hreads⟩ := ih
    refine ⟨.attribute lead name.name equals q value :: ts, last,
      .part lead equals value q hts, fun depth rest => ?_⟩
    have hpart := reads_attribute depth ⟨hne, hlead, name.valid, he, hq, hvalue⟩
      (text ++ (Token.tagEnd [] selfClosing).text ++ rest)
    have h := hpart.append (hreads depth rest)
    simpa [Token.text] using h

theorem reads_closeTag {name : QualifiedName} (outer : Nat) (hn : name.Valid)
    (htrail : AllOf isSpace trail) (rest : List Char) :
    Reads (.content outer) ('<' :: '/' :: name.text ++ trail ++ '>' :: rest)
      [.closeTag name trail] (.closing outer) rest := by
  have hscan : Lexer.closeTag (name.text ++ trail ++ '>' :: rest) =
      .ok (.closeTag name trail, rest) :=
    Lexer.closeTag_eq_ok.mpr ⟨name, trail, rfl, hn, htrail, rfl⟩
  refine .of_next (List.cons_ne_nil _ _) ?_
  show Lexer.read .element 2 Lexer.closeTag (fun _ => .closing outer) _ = _
  unfold Lexer.read
  rw [List.cons_append, List.cons_append, List.cons_append, List.cons_append,
    List.drop_succ_cons, List.drop_succ_cons, List.drop_zero, hscan]

/-! ## Reading space between tags -/

/-- The token that is read from space, if there is any. -/
def gapTokens (gap : List Char) : List Token :=
  if gap = [] then [] else [.skipped gap]

theorem Spells.gapTokens {ts : List Token} (h : Spells trees ts) (gap : List Char) :
    Spells trees (gapTokens gap ++ ts) := by
  unfold Markup.gapTokens
  split
  · exact h
  · exact .skipped gap h

theorem isLegal_of_isSpace {c : Char} (h : isSpace c = true) : isLegal c = true := by
  rcases isSpace_iff.mp h with rfl | rfl | rfl | rfl <;> decide

theorem isSpace_bracket : isSpace '<' = false := by
  decide

/-- No opening begins with space. -/
theorem not_begins_of_isSpace {c : Char} (hc : isSpace c = true) {w : String}
    (hw : w ∈ Lexer.openings) (tail : List Char) : begins w (c :: tail) = false := by
  have hall : ∀ w ∈ Lexer.openings, w.toList.head?.any (fun d => !isSpace d) = true := by decide
  have hopening := hall w hw
  rw [Bool.eq_false_iff]
  intro hbegins
  obtain ⟨rest, hrest⟩ := begins_iff.mp hbegins
  cases hcs : w.toList with
  | nil =>
    rw [hcs] at hopening
    cases hopening
  | cons d ds =>
    rw [hcs] at hopening hrest
    obtain ⟨rfl, -⟩ := List.cons.inj hrest
    simp [hc] at hopening

theorem misc_of_isSpace (hgap : AllOf isSpace gap) (hne : gap ≠ []) (hends : Ends isSpace text)
    (mode : Mode) (otherwise : Except Failure Step) :
    Lexer.misc mode (gap ++ text) otherwise = .ok ⟨.skipped gap, mode, text⟩ := by
  obtain ⟨c, tail, rfl⟩ := List.exists_cons_of_ne_nil hne
  have hc : isSpace c = true := hgap c (.head _)
  have hnot {w : String} (hw : w ∈ Lexer.openings) : begins w (c :: tail ++ text) = false :=
    not_begins_of_isSpace hc hw _
  unfold Lexer.misc
  rw [hnot (by decide), hnot (by decide), hnot (by decide), takeWhile_append_ends hgap hends,
    dropWhile_append_ends hgap hends]
  simp [hc]

theorem not_hasSectionEnd (hgap : AllOf isSpace gap) : Lexer.hasSectionEnd gap = false := by
  induction gap with
  | nil => rfl
  | cons c gap ih =>
    obtain ⟨hc, hgap⟩ := allOf_cons.mp hgap
    have hnot : begins "]]>" (c :: gap) = false := by
      rcases isSpace_iff.mp hc with rfl | rfl | rfl | rfl <;> rfl
    rw [Lexer.hasSectionEnd, hnot, ih hgap]
    rfl

theorem characterData_of_isSpace (hgap : AllOf isSpace gap) (tail : List Char) :
    Lexer.characterData (gap ++ '<' :: tail) = .ok (.skipped gap, '<' :: tail) := by
  refine bind_eq_ok.mpr ⟨gap, '<' :: tail, upTo_eq_ok.mpr ⟨rfl, ?_, ?_, ?_⟩, ?_⟩
  · exact fun c hc => isLegal_of_isSpace (hgap c hc)
  · rintro u v rfl hne
    obtain ⟨c, v, rfl⟩ := List.exists_cons_of_ne_nil hne
    exact not_begins_of_isSpace (hgap c (by simp)) (by decide) _
  · rintro c hc
    cases hc
    exact ⟨by decide, begins_iff.mpr ⟨tail, rfl⟩⟩
  · exact bind_eq_ok.mpr ⟨(), _, failIf_eq_ok.mpr ⟨not_hasSectionEnd hgap, rfl⟩,
      pure_eq_ok.mpr ⟨rfl, rfl⟩⟩

/-- Space is one token, so reading it comes down to one step. -/
theorem reads_gap {n : Mode} (hnext : gap ≠ [] →
    Lexer.next m (gap ++ text) = .ok ⟨.skipped gap, n, text⟩) :
    Reads m (gap ++ text) (gapTokens gap) (if gap = [] then m else n) text := by
  unfold gapTokens
  by_cases hgap : gap = []
  · subst hgap
    exact .done m text
  · rw [if_neg hgap, if_neg hgap]
    exact .of_next (by simp [hgap]) (hnext hgap)

theorem reads_gap_content (hgap : AllOf isSpace gap) (outer : Nat) (tail : List Char) :
    Reads (.content outer) (gap ++ '<' :: tail) (gapTokens gap) (.content outer) ('<' :: tail) := by
  have h : Reads (.content outer) (gap ++ '<' :: tail) (gapTokens gap)
      (if gap = [] then .content outer else .content outer) ('<' :: tail) := by
    refine reads_gap fun hne => ?_
    obtain ⟨c, gap, rfl⟩ := List.exists_cons_of_ne_nil hne
    have hc : isSpace c = true := hgap c (.head _)
    have hnot {w : String} (hw : w ∈ Lexer.openings) :
        begins w (c :: gap ++ '<' :: tail) = false := not_begins_of_isSpace hc hw _
    have hlone : c :: gap ++ '<' :: tail ≠ ['<'] := by simp
    show Lexer.content outer _ = _
    unfold Lexer.content
    rw [hnot (by decide), hnot (by decide), hnot (by decide), hnot (by decide), hnot (by decide),
      hnot (by decide), hnot (by decide), if_neg hlone]
    simp only [Bool.false_eq_true, if_false]
    unfold Lexer.read
    rw [List.drop_zero, characterData_of_isSpace hgap]
  rwa [ite_self] at h

theorem reads_gap_epilog (hgap : AllOf isSpace gap) :
    Reads .epilog gap (gapTokens gap) .epilog [] := by
  have h : Reads .epilog (gap ++ []) (gapTokens gap) (if gap = [] then .epilog else .epilog) [] :=
    reads_gap fun hne => misc_of_isSpace hgap hne (by simp [Ends]) _ _
  rwa [ite_self, List.append_nil] at h

theorem exists_reads_gap_start (hgap : AllOf isSpace gap) (tail : List Char) :
    ∃ m, m.around? = some 0 ∧
      Reads .start (gap ++ '<' :: tail) (gapTokens gap) m ('<' :: tail) := by
  refine ⟨if gap = [] then .start else .prolog, by split <;> rfl, reads_gap fun hne => ?_⟩
  obtain ⟨c, gap, rfl⟩ := List.exists_cons_of_ne_nil hne
  have hc : isSpace c = true := hgap c (.head _)
  have hnot {w : String} (hw : w ∈ Lexer.openings) :
      begins w (c :: gap ++ '<' :: tail) = false := not_begins_of_isSpace hc hw _
  show ite _ _ (Lexer.prolog _) = _
  unfold Lexer.prolog
  rw [hnot (by decide), hnot (by decide)]
  exact misc_of_isSpace hgap hne (ends_cons.mpr isSpace_bracket) _ _

/-! ## Reading trees -/

/-- Wherever an element can begin, the text is read as the tree, whatever stands behind it. -/
def ReadsElement (tree : Tree) (text : List Char) : Prop :=
  ∃ ts, Spells [tree] ts ∧ ∀ m depth rest, m.around? = some depth →
    Reads m (text ++ rest) ts (.closing depth) rest

/-- Between two tags, the text is read as the trees. -/
def ReadsInside (trees : List Tree) (text : List Char) : Prop :=
  ∃ ts, Spells trees ts ∧ ∀ outer tail,
    Reads (.content outer) (text ++ '<' :: tail) ts (.content outer) ('<' :: tail)

theorem exists_reads_startTag (tag : ProperName) (hparts : WritesParts attributes parts)
    (selfClosing : Bool) :
    ∃ ts lead, SpellsParts attributes ts ∧ ∀ m depth rest, m.around? = some depth →
      Reads m ('<' :: tag.name.text ++ (parts ++ (Token.tagEnd [] selfClosing).text ++ rest))
        (.openTag tag.name :: (ts ++ [.tagEnd lead selfClosing]))
        (if selfClosing then .closing depth else .content depth) rest := by
  obtain ⟨ts, lead, hts, hreads⟩ := exists_reads_of_writesParts hparts selfClosing
  refine ⟨ts, lead, hts, fun m depth rest hm => ?_⟩
  have hends : Ends continues (parts ++ (Token.tagEnd [] selfClosing).text ++ rest) := by
    rw [List.append_assoc]
    cases selfClosing with
    | false => exact hparts.ends_continues (by decide) rest
    | true => exact hparts.ends_continues (by decide) ('>' :: rest)
  exact (reads_openTag tag.valid hends hm).append (hreads depth rest)

theorem readsElement_closed (tag : ProperName) (hparts : WritesParts attributes parts) :
    ReadsElement (.node tag attributes []) ('<' :: tag.name.text ++ parts ++ ['/', '>']) := by
  obtain ⟨ts, lead, hts, hreads⟩ := exists_reads_startTag tag hparts true
  refine ⟨_, .closed tag lead hts .done, fun m depth rest hm => ?_⟩
  have h := hreads m depth rest hm
  simpa [Token.text] using h

theorem readsElement_paired (tag : ProperName) {children : List Tree}
    (hparts : WritesParts attributes parts) (hinner : ReadsInside children inner)
    (htrail : AllOf isSpace trail) :
    ReadsElement (.node tag attributes children)
      ('<' :: tag.name.text ++ parts ++ '>' :: inner ++
        '<' :: '/' :: tag.name.text ++ trail ++ ['>']) := by
  obtain ⟨ts, lead, hts, hreads⟩ := exists_reads_startTag tag hparts false
  obtain ⟨us, hus, hinside⟩ := hinner
  refine ⟨_, .paired tag lead trail hts hus .done, fun m depth rest hm => ?_⟩
  have hstart := hreads m depth (inner ++ '<' :: '/' :: tag.name.text ++ trail ++ '>' :: rest) hm
  have hclose := reads_closeTag depth tag.valid htrail rest
  have hwithin : Reads (.content depth)
      (inner ++ '<' :: '/' :: tag.name.text ++ trail ++ '>' :: rest) us (.content depth)
      ('<' :: '/' :: tag.name.text ++ trail ++ '>' :: rest) := by
    have h := hinside depth ('/' :: tag.name.text ++ trail ++ '>' :: rest)
    simpa using h
  have h := hstart.append (hwithin.append hclose)
  simpa [Token.text] using h

theorem readsInside_cons {text' : List Char} (hgap : AllOf isSpace gap)
    (hfirst : ReadsElement tree text') (hbracket : text'.head? = some '<')
    (hrest : ReadsInside trees text) : ReadsInside (tree :: trees) (gap ++ text' ++ text) := by
  obtain ⟨ts, hts, hfirst⟩ := hfirst
  obtain ⟨us, hus, hrest⟩ := hrest
  obtain ⟨tail, rfl⟩ := List.head?_eq_some_iff.mp hbracket
  refine ⟨_, (hts.append hus).gapTokens gap, fun outer more => ?_⟩
  have h := (reads_gap_content hgap outer (tail ++ (text ++ '<' :: more))).append
    ((hfirst (.content outer) (outer + 1) (text ++ '<' :: more) rfl).append (hrest outer more))
  simpa using h

/-- Each way of writing trees between two tags is read as these trees. -/
theorem readsInside_of_writes (h : Writes trees text) : ReadsInside trees text := by
  induction h with
  | @done gap hgap => exact ⟨_, Spells.done.gapTokens gap, fun outer tail => by
      rw [List.append_nil]
      exact reads_gap_content hgap outer tail⟩
  | closed hgap hparts _ ih => exact readsInside_cons hgap (readsElement_closed _ hparts) rfl ih
  | paired hgap hparts _ htrail _ ihinner ih =>
    exact readsInside_cons hgap (readsElement_paired _ hparts ihinner htrail) rfl ih

/-! ## Whole texts -/

/-- A way of writing one tree is space, the element, and space. -/
theorem exists_element_of_writes (h : Writes [tree] text) :
    ∃ front element behind, text = front ++ element ++ behind ∧ AllOf isSpace front ∧
      ReadsElement tree element ∧ element.head? = some '<' ∧ AllOf isSpace behind := by
  cases h with
  | closed hgap hparts hrest =>
    cases hrest with
    | done hbehind => exact ⟨_, _, _, rfl, hgap, readsElement_closed _ hparts, rfl, hbehind⟩
  | paired hgap hparts hinner htrail hrest =>
    cases hrest with
    | done hbehind =>
      exact ⟨_, _, _, rfl, hgap,
        readsElement_paired _ hparts (readsInside_of_writes hinner) htrail, rfl, hbehind⟩

/-- Each way of writing a tree is read to its end, as this tree. -/
theorem exists_readsText_of_writes (h : Writes [tree] text) :
    ∃ ts, Spells [tree] ts ∧ ReadsText text ts .epilog [] := by
  obtain ⟨front, element, behind, rfl, hfront, ⟨ts, hts, hreads⟩, hbracket, hbehind⟩ :=
    exists_element_of_writes h
  obtain ⟨tail, rfl⟩ := List.head?_eq_some_iff.mp hbracket
  obtain ⟨m, hm, hstart⟩ := exists_reads_gap_start hfront (tail ++ behind)
  have hend := reads_gap_epilog hbehind
  have hall : Reads .start (front ++ '<' :: tail ++ behind)
      (gapTokens front ++ (ts ++ gapTokens behind)) .epilog [] := by
    have h := hstart.append ((hreads m 0 behind hm).append hend)
    simpa using h
  refine ⟨_, ?_, .plain ?_ hall⟩
  · have h := (hts.append (Spells.done.gapTokens behind)).gapTokens front
    simpa using h
  · -- the text begins with space or a bracket, and neither is a byte order mark
    intro hmark
    cases front with
    | nil => cases hmark
    | cons c front =>
      obtain rfl : c = '\uFEFF' := Option.some.inj hmark
      exact absurd (hfront _ (.head _)) (by decide)

end

end LayoutCompletion.Markup
