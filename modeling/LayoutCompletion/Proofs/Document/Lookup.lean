import LayoutCompletion.Document.Query
import LayoutCompletion.Proofs.Document.Building

/-!
# The attribute at a place

The attribute that a token tells of is the one that is found at every place in its name, whatever
stands behind the token (`findAttribute?_after`). No other start tag and no other name reaches
there: those that begin before end before, since there is space in front of an attribute.
Conversely every attribute of a document comes from a token (`exists_token`).
-/

namespace LayoutCompletion

open Markup Text

namespace Document

theorem span?_of_lt {d : Document} {node : Nat} (h : node < d.elements.size) :
    d.span? node = some d.elements[node].span := by
  rw [span?, Array.getElem?_eq_getElem h, Option.map_some]

/-- The first element whose start tag contains the place is found. -/
theorem findNode?_eq_some {d : Document} {offset node : Nat} :
    d.findNode? offset = some node ↔
      (∃ s, d.span? node = some s ∧ s.start < offset ∧ offset ≤ s.stop) ∧
        ∀ i < node, ∀ s, d.span? i = some s → ¬(s.start < offset ∧ offset ≤ s.stop) := by
  unfold findNode?
  simp only [List.findIdx?_eq_some_iff_getElem, Array.getElem_toList, Array.length_toList,
    Bool.and_eq_true, decide_eq_true_eq]
  constructor
  · rintro ⟨hlt, hin, hearlier⟩
    refine ⟨⟨_, span?_of_lt hlt, hin⟩, fun i hi s hs => ?_⟩
    rw [span?_of_lt (Nat.lt_trans hi hlt)] at hs
    rw [← Option.some.inj hs]
    exact hearlier i hi
  · rintro ⟨⟨s, hs, hin⟩, hearlier⟩
    obtain ⟨e, he, rfl⟩ := Option.map_eq_some_iff.mp hs
    obtain ⟨hlt, rfl⟩ := Array.getElem?_eq_some_iff.mp he
    exact ⟨hlt, hin, fun i hi => hearlier i hi _ (span?_of_lt (Nat.lt_trans hi hlt))⟩

theorem findNode?_of_span? {d : Document} {offset node : Nat} {s : Span}
    (hs : d.span? node = some s) (hstart : s.start < offset) (hstop : offset ≤ s.stop)
    (hearlier : ∀ i < node, ∀ s, d.span? i = some s → s.stop < offset) :
    d.findNode? offset = some node := by
  refine findNode?_eq_some.mpr ⟨⟨s, hs, hstart, hstop⟩, fun i hi s hs hin => ?_⟩
  exact Nat.lt_irrefl _ (Nat.lt_of_le_of_lt hin.2 (hearlier i hi s hs))

theorem findAttribute?_eq_some {d : Document} {offset node index : Nat} :
    d.findAttribute? offset = some (node, index) ↔
      d.findNode? offset = some node ∧ (d.attributes node).findIdx? (fun a =>
        a.nameSpan.start ≤ offset && offset ≤ a.nameSpan.stop) = some index := by
  unfold findAttribute?
  cases d.findNode? offset with
  | none => simp
  | some found =>
    simp only [Option.bind_eq_bind, Option.bind_some, Option.pure_def, Option.bind_eq_some_iff,
      Option.some.injEq, Prod.mk.injEq]
    constructor
    · rintro ⟨i, hi, rfl, rfl⟩
      exact ⟨rfl, hi⟩
    · rintro ⟨rfl, hi⟩
      exact ⟨index, hi, rfl, rfl⟩

/-- The place is in the name of the attribute that was found there. -/
theorem exists_of_findAttribute? {d : Document} {offset node index : Nat}
    (h : d.findAttribute? offset = some (node, index)) :
    ∃ a, (d.attributes node)[index]? = some a ∧ a.nameSpan.start ≤ offset ∧
      offset ≤ a.nameSpan.stop := by
  obtain ⟨hlt, hin, -⟩ :=
    List.findIdx?_eq_some_iff_getElem.mp (findAttribute?_eq_some.mp h).2
  simp only [Bool.and_eq_true, decide_eq_true_eq] at hin
  exact ⟨_, List.getElem?_eq_getElem hlt, hin.1, hin.2⟩

end Document

namespace Builder

variable {m n : Mode} {b : Builder} {ts : List Token}

/-! ## From a token to its attribute -/

theorem nameSpan_start (offset : Nat) (lead : List Char) (name : QualifiedName)
    (value : List Char) (stop : Nat) :
    (attributeAt offset lead name value stop).nameSpan.start =
      offset + utf8Length lead + utf8Length name.leadingColon := by
  have hcolon : utf8Length [':'] = 1 := by decide
  unfold attributeAt QualifiedName.leadingColon
  dsimp only
  split
  · rw [hcolon]
  · rfl

theorem nameSpan_stop (offset : Nat) (lead : List Char) (name : QualifiedName)
    (value : List Char) (stop : Nat) :
    (attributeAt offset lead name value stop).nameSpan.stop =
      offset + utf8Length lead + utf8Length name.leadingColon + utf8Length name.shown := by
  rw [Nat.add_assoc (offset + utf8Length lead), ← utf8Length_append, ← name.text_eq]
  rfl

theorem toList_qualify (name : QualifiedName) :
    (qualify (String.ofList name.space) (String.ofList name.base)).toList = name.shown := by
  unfold qualify QualifiedName.shown
  obtain ⟨qualifier, base⟩ := name
  rcases qualifier with _ | _ | ⟨c, cs⟩
  · simp [QualifiedName.space, QualifiedName.text]
  · simp [QualifiedName.space]
  · simp [QualifiedName.space, QualifiedName.text]

theorem toList_name (offset : Nat) (lead : List Char) (name : QualifiedName)
    (value : List Char) (stop : Nat) :
    (attributeAt offset lead name value stop).name.toList = name.shown :=
  toList_qualify name

section
variable {depth node : Nat} {lead equals value : List Char} {name : QualifiedName} {q : Char}

theorem gained_of_inTag (hin : b.InTag node) :
    b.gained (.attribute lead name equals q value) node =
      [attributeAt b.offset lead name value
        (b.offset + utf8Length (Token.attribute lead name equals q value).text)] := by
  rw [gained, if_pos hin.2]

/-- Behind an attribute its element has the attribute behind those that it had. -/
theorem attributes_after_attribute (hfits : Fits m b) (hin : b.InTag node) (ts : List Token) :
    ∃ more, (b.after (.attribute lead name equals q value :: ts)).document.attributes node =
      b.document.attributes node ++ attributeAt b.offset lead name value
        (b.offset + utf8Length (Token.attribute lead name equals q value).text) :: more := by
  obtain ⟨more, hmore⟩ := attributes_after
    (open_lt_push (t := .attribute lead name equals q value) hfits.open_lt) ts node
  refine ⟨more, ?_⟩
  rw [after_cons, hmore, attributes_push hfits.open_lt, gained_of_inTag hin, List.append_assoc,
    List.singleton_append]

theorem getElem?_attributes_after (hfits : Fits m b) (hin : b.InTag node) (ts : List Token) :
    ((b.after (.attribute lead name equals q value :: ts)).document.attributes node)[
        (b.document.attributes node).length]? =
      some (attributeAt b.offset lead name value
        (b.offset + utf8Length (Token.attribute lead name equals q value).text)) := by
  obtain ⟨more, hmore⟩ := attributes_after_attribute hfits hin ts
  rw [hmore, List.getElem?_append_right (Nat.le_refl _), Nat.sub_self]
  rfl

/-- Another element than the one whose start tag is open. -/
theorem settled_of_lt (hin : b.InTag node) {i : Nat} (hi : i < node) : Settled m b i := by
  refine ⟨?_, fun _ _ h => ?_⟩
  · rw [hin.1]
    exact Nat.lt_succ_of_lt hi
  · have := hin.1.symm.trans h.1
    omega

/-- The start tag in which an attribute stands reaches from before it to behind it. -/
theorem span?_after_attribute (hfits : Fits (.tag depth) b) (hin : b.InTag node)
    (hruns : Mode.Runs (.tag depth) (.attribute lead name equals q value :: ts) n) :
    ∃ s, (b.after (.attribute lead name equals q value :: ts)).document.span? node = some s ∧
      s.start < b.offset ∧
      b.offset + utf8Length (Token.attribute lead name equals q value).text ≤ s.stop := by
  obtain ⟨s, hs⟩ := hin.exists_span?
  obtain ⟨hlt, hle⟩ := hfits.span_le node s hs
  have hpush := span?_push_part hfits hin hs
    (show (Token.attribute lead name equals q value).isTagPart = true from rfl)
  cases hruns with
  | cons hadm hwf hruns =>
    obtain ⟨s', hs', hstart, hstop⟩ := span?_after (hfits.push hadm hwf) hruns hpush
    refine ⟨s', hs', ?_, hstop⟩
    rw [hstart]
    exact Nat.lt_of_lt_of_le hlt hle

/-- At every place in an attribute, the element in whose start tag it stands is found. -/
theorem findNode?_after (hfits : Fits (.tag depth) b) (hin : b.InTag node)
    (hruns : Mode.Runs (.tag depth) (.attribute lead name equals q value :: ts) n) {offset : Nat}
    (hstart : b.offset < offset)
    (hstop : offset ≤ b.offset + utf8Length (Token.attribute lead name equals q value).text) :
    (b.after (.attribute lead name equals q value :: ts)).document.findNode? offset =
      some node := by
  obtain ⟨s, hs, hbefore, hbehind⟩ := span?_after_attribute hfits hin hruns
  refine Document.findNode?_of_span? hs (Nat.lt_trans hbefore hstart)
    (Nat.le_trans hstop hbehind) fun i hi s hs => ?_
  -- the start tags of earlier elements ended before this attribute, and grow no more
  rw [span?_after_settled hfits hruns (settled_of_lt hin hi)] at hs
  exact Nat.lt_of_le_of_lt (hfits.span_le i s hs).2 hstart

/-- At every place in its name, the attribute of a token is found. -/
theorem findAttribute?_after (hfits : Fits (.tag depth) b) (hin : b.InTag node)
    (hruns : Mode.Runs (.tag depth) (.attribute lead name equals q value :: ts) n) {offset : Nat}
    (hstart : b.offset + utf8Length lead + utf8Length name.leadingColon ≤ offset)
    (hstop : offset ≤ b.offset + utf8Length lead + utf8Length name.text) :
    (b.after (.attribute lead name equals q value :: ts)).document.findAttribute? offset =
      some (node, (b.document.attributes node).length) := by
  have hlead : b.offset < offset := by
    cases hruns with
    | cons _ hwf _ =>
      have hlength := length_le_utf8Length lead
      have hpos := List.length_pos_iff.mpr hwf.1
      omega
  have hend : offset ≤
      b.offset + utf8Length (Token.attribute lead name equals q value).text := by
    simp only [Token.text, utf8Length_append]
    omega
  refine Document.findAttribute?_eq_some.mpr ⟨findNode?_after hfits hin hruns hlead hend, ?_⟩
  obtain ⟨more, hmore⟩ := attributes_after_attribute hfits hin ts
  -- the names of the attributes that were there before ended before this one
  have hothers : (b.document.attributes node).findIdx? (fun a =>
      a.nameSpan.start ≤ offset && offset ≤ a.nameSpan.stop) = none := by
    refine List.findIdx?_eq_none_iff.mpr fun a ha => ?_
    have := hfits.name_le node a ha
    simp only [Bool.and_eq_false_iff, decide_eq_false_iff_not]
    omega
  have hname (stop : Nat) :
      ((attributeAt b.offset lead name value stop).nameSpan.start ≤ offset &&
        offset ≤ (attributeAt b.offset lead name value stop).nameSpan.stop) = true := by
    rw [nameSpan_start, Bool.and_eq_true, decide_eq_true_eq, decide_eq_true_eq]
    exact ⟨hstart, hstop⟩
  rw [hmore, List.findIdx?_append, hothers, List.findIdx?_cons, if_pos (hname _)]
  simp

end

/-! ## From an attribute to its token -/

/-- An attribute that was not there before comes from a token that stands in its start tag. -/
theorem exists_token {m : Mode} {b : Builder} (hfits : Fits m b) (hruns : m.Runs ts n)
    {node index : Nat} {a : Attribute}
    (h : ((b.after ts).document.attributes node)[index]? = some a)
    (hnew : (b.document.attributes node).length ≤ index) :
    ∃ before lead name equals q value behind depth,
      ts = before ++ .attribute lead name equals q value :: behind ∧
      m.Runs before (.tag depth) ∧ (b.after before).InTag node ∧
      ((b.after before).document.attributes node).length = index ∧
      a = attributeAt (b.after before).offset lead name value ((b.after before).offset +
        utf8Length (Token.attribute lead name equals q value).text) := by
  induction hruns generalizing b with
  | nil =>
    rw [after_nil, List.getElem?_eq_none hnew] at h
    simp at h
  | @cons m k n t ts hadm hwf hrest ih =>
    by_cases hlater : ((b.push t).document.attributes node).length ≤ index
    · obtain ⟨before, lead, name, equals, q, value, behind, depth, rfl, hbefore, hin, hlength,
        ha⟩ := ih (hfits.push hadm hwf) h hlater
      exact ⟨t :: before, lead, name, equals, q, value, behind, depth, rfl,
        .cons hadm hwf hbefore, hin, hlength, ha⟩
    · -- this token brings the attribute, so it is one in the start tag that is open
      have hpush := attributes_push hfits.open_lt t node
      obtain ⟨more, hmore⟩ := attributes_after (open_lt_push (t := t) hfits.open_lt) ts node
      rw [after_cons, hmore, hpush] at h
      rw [hpush] at hlater
      rcases b.gained_eq t node with hnil | ⟨lead, name, equals, q, value, rfl, hhead, hgained⟩
      · rw [hnil, List.append_nil] at hlater
        exact absurd hnew hlater
      · obtain ⟨depth, rfl⟩ := hadm.tag_of_isTagPart rfl
        have hin := hfits.inTag_of_isTagPart hadm rfl hhead
        rw [hgained, List.length_append, List.length_singleton] at hlater
        obtain rfl : index = (b.document.attributes node).length := by omega
        rw [hgained, List.append_assoc, List.getElem?_append_right (Nat.le_refl _),
          Nat.sub_self] at h
        exact ⟨[], lead, name, equals, q, value, ts, depth, rfl, .nil _, hin, rfl,
          (Option.some.inj h).symm⟩

end Builder

end LayoutCompletion
