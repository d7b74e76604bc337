import LayoutCompletion.Proofs.Document.StartTags

/-!
# Where start tags and names stand

`Document.PlacedIn d text` says that the places which a document tells are places in the text:
start tags begin at their brackets and follow one another, and so do the attributes in a start tag,
each with its name at its front. A token that is read keeps this of the text read so far
(`Builder.placedIn_push`), so every document that was parsed is placed in its text.

Since nothing overlaps, the first start tag and the first name that contain an offset are the only
ones, and a search for them finds all there is (`Document.answers_of_placedIn`).
-/

namespace LayoutCompletion

open Markup Text

/-- The word stands in the text at this place. -/
def Span.Holds (s : Span) (text word : List Char) : Prop :=
  ∃ front behind, text = front ++ word ++ behind ∧ s.start = utf8Length front ∧
    s.stop = utf8Length (front ++ word)

theorem Span.Holds.append {s : Span} {text word : List Char} (h : s.Holds text word)
    (more : List Char) : s.Holds (text ++ more) word := by
  obtain ⟨front, behind, rfl, hstart, hstop⟩ := h
  exact ⟨front, behind ++ more, by simp, hstart, hstop⟩

/-- The name of the attribute stands in the text at its place, with at most a colon between the
beginning of the attribute and it. -/
structure Attribute.NamedIn (a : Attribute) (text : List Char) : Prop where
  holds : a.nameSpan.Holds text a.name.toList
  start : a.nameSpan.start = a.span.start ∨
    Span.Holds ⟨a.span.start, a.nameSpan.start⟩ text [':']
  stop : a.nameSpan.stop ≤ a.span.stop

theorem Attribute.NamedIn.le_start {a : Attribute} {text : List Char} (h : a.NamedIn text) :
    a.span.start ≤ a.nameSpan.start := by
  rcases h.start with hstart | ⟨front, behind, -, hstart, hstop⟩
  · exact Nat.le_of_eq hstart.symm
  · dsimp only at hstart hstop
    rw [hstart, hstop, utf8Length_append]
    exact Nat.le_add_right _ _

theorem Attribute.NamedIn.append {a : Attribute} {text : List Char} (h : a.NamedIn text)
    (more : List Char) : a.NamedIn (text ++ more) :=
  ⟨h.holds.append more, h.start.imp_right (·.append more), h.stop⟩

namespace Document

/-- All places of which the document tells are places in the text. -/
structure PlacedIn (d : Document) (text : List Char) : Prop where
  /-- A start tag begins with its bracket. -/
  bracket : ∀ node s, d.span? node = some s → Span.Holds ⟨s.start, s.start + 1⟩ text ['<']
  span : ∀ node s, d.span? node = some s → s.start < s.stop ∧ s.stop ≤ utf8Length text
  /-- A start tag ends before a later one begins. -/
  apart : ∀ i j, i < j → ∀ s s', d.span? i = some s → d.span? j = some s' → s.stop ≤ s'.start
  /-- Attributes stand in the start tag of their element. -/
  attribute_in : ∀ node s, d.span? node = some s → ∀ a ∈ d.attributes node,
    s.start < a.span.start ∧ a.span.start < a.span.stop ∧ a.span.stop ≤ s.stop
  /-- An attribute ends before a later one of the same element begins. -/
  attributes_apart : ∀ node, (d.attributes node).Pairwise fun a a' => a.span.stop < a'.span.start
  named : ∀ node, ∀ a ∈ d.attributes node, a.NamedIn text

/-- The start tag of the element contains the offset. Its first byte does not count, the place
behind its last one does. -/
def TagAt (d : Document) (offset node : Nat) : Prop :=
  ∃ s, d.span? node = some s ∧ s.start < offset ∧ offset ≤ s.stop

/-- The name of the attribute with this number contains the offset or touches it. -/
def NameAt (d : Document) (offset node index : Nat) : Prop :=
  ∃ a, (d.attributes node)[index]? = some a ∧ a.nameSpan.start ≤ offset ∧
    offset ≤ a.nameSpan.stop

/-- At each offset is at most one start tag and at most one name of an attribute in it, and a
search gives these. -/
structure Answers (d : Document) : Prop where
  tag_unique : ∀ offset i j, d.TagAt offset i → d.TagAt offset j → i = j
  findNode? : ∀ offset node, d.findNode? offset = some node ↔ d.TagAt offset node
  name_unique : ∀ offset node i j, d.NameAt offset node i → d.NameAt offset node j → i = j
  findAttribute? : ∀ offset node index, d.findAttribute? offset = some (node, index) ↔
    d.TagAt offset node ∧ d.NameAt offset node index
  /-- What has been typed of the name is a part of it. -/
  typed : ∀ offset node index, d.findAttribute? offset = some (node, index) →
    ∃ a, (d.attributes node)[index]? = some a ∧ a.nameSpan.start ≤ offset ∧
      offset - a.nameSpan.start ≤ utf8Length a.name.toList

section
variable {d : Document} {text : List Char} {offset node index i j : Nat}

/-! ## Searches -/

theorem not_tagAt_of_lt (h : d.PlacedIn text) (hlt : i < j) (hi : d.TagAt offset i) :
    ¬d.TagAt offset j := by
  rintro ⟨s', hs', hstart, -⟩
  obtain ⟨s, hs, -, hstop⟩ := hi
  have := h.apart i j hlt s s' hs hs'
  omega

theorem tagAt_unique (h : d.PlacedIn text) (hi : d.TagAt offset i) (hj : d.TagAt offset j) :
    i = j := by
  rcases Nat.lt_trichotomy i j with hlt | heq | hgt
  · exact absurd hj (not_tagAt_of_lt h hlt hi)
  · exact heq
  · exact absurd hi (not_tagAt_of_lt h hgt hj)

theorem findNode?_iff_tagAt (h : d.PlacedIn text) :
    d.findNode? offset = some node ↔ d.TagAt offset node := by
  rw [findNode?_eq_some]
  constructor
  · exact And.left
  · intro hnode
    refine ⟨hnode, fun i hi s hs hin => ?_⟩
    exact Nat.ne_of_lt hi (tagAt_unique h ⟨s, hs, hin⟩ hnode)

theorem not_nameAt_of_lt (h : d.PlacedIn text) (hlt : i < j) (hi : d.NameAt offset node i) :
    ¬d.NameAt offset node j := by
  rintro ⟨a', ha', hstart, -⟩
  obtain ⟨a, ha, -, hstop⟩ := hi
  obtain ⟨hi', rfl⟩ := List.getElem?_eq_some_iff.mp ha
  obtain ⟨hj', rfl⟩ := List.getElem?_eq_some_iff.mp ha'
  have hapart := List.pairwise_iff_getElem.mp (h.attributes_apart node) i j hi' hj' hlt
  have hname := (h.named node _ (List.getElem_mem hi')).stop
  have hname' := (h.named node _ (List.getElem_mem hj')).le_start
  omega

theorem nameAt_unique (h : d.PlacedIn text) (hi : d.NameAt offset node i)
    (hj : d.NameAt offset node j) : i = j := by
  rcases Nat.lt_trichotomy i j with hlt | heq | hgt
  · exact absurd hj (not_nameAt_of_lt h hlt hi)
  · exact heq
  · exact absurd hi (not_nameAt_of_lt h hgt hj)

theorem findAttribute?_iff_nameAt (h : d.PlacedIn text) :
    d.findAttribute? offset = some (node, index) ↔
      d.TagAt offset node ∧ d.NameAt offset node index := by
  rw [findAttribute?_eq_some, findNode?_iff_tagAt h, List.findIdx?_eq_some_iff_getElem]
  simp only [Bool.and_eq_true, decide_eq_true_eq]
  refine and_congr_right fun _ => ?_
  constructor
  · rintro ⟨hlt, hin, -⟩
    exact ⟨_, List.getElem?_eq_getElem hlt, hin⟩
  · rintro ⟨a, ha, hin⟩
    obtain ⟨hlt, rfl⟩ := List.getElem?_eq_some_iff.mp ha
    refine ⟨hlt, hin, fun i hi hin' => ?_⟩
    have hi' : d.NameAt offset node i :=
      ⟨_, List.getElem?_eq_getElem (Nat.lt_trans hi hlt), hin'⟩
    exact not_nameAt_of_lt h hi hi' ⟨_, ha, hin⟩

theorem answers_of_placedIn (h : d.PlacedIn text) : d.Answers where
  tag_unique _ _ _ := tagAt_unique h
  findNode? _ _ := findNode?_iff_tagAt h
  name_unique _ _ _ _ := nameAt_unique h
  findAttribute? _ _ _ := findAttribute?_iff_nameAt h
  typed offset node index hfound := by
    obtain ⟨-, a, ha, hstart, hstop⟩ := (findAttribute?_iff_nameAt h).mp hfound
    obtain ⟨front, behind, -, hfront, hname⟩ := (h.named node a (List.mem_of_getElem? ha)).holds
    refine ⟨a, ha, hstart, ?_⟩
    rw [utf8Length_append] at hname
    omega

/-! ## More text -/

theorem PlacedIn.append (h : d.PlacedIn text) (more : List Char) : d.PlacedIn (text ++ more) where
  bracket node s hs := (h.bracket node s hs).append more
  span node s hs := by
    rw [utf8Length_append]
    have := h.span node s hs
    exact ⟨this.1, by omega⟩
  apart := h.apart
  attribute_in := h.attribute_in
  attributes_apart := h.attributes_apart
  named node a ha := (h.named node a ha).append more

end

end Document

namespace Builder

variable {m n : Mode} {b : Builder} {t : Token} {ts : List Token} {node : Nat} {read : List Char}

/-! ## Places behind a token -/

theorem placedIn_empty : empty.document.PlacedIn [] where
  bracket node s hs := by cases hs
  span node s hs := by cases hs
  apart i j _ s s' hs _ := by cases hs
  attribute_in node s hs := by cases hs
  attributes_apart node := List.Pairwise.nil
  named node a ha := by cases ha

/-- A start tag is new, or it was there before; then it only may have grown, if it is open. -/
theorem span?_of_push (hfits : Fits m b) (hadm : m.Admits t n) {s : Span}
    (hs : (b.push t).document.span? node = some s) :
    (node = b.document.size ∧ (∃ name, t = .openTag name) ∧ s = ⟨b.offset, (b.push t).offset⟩) ∨
      ∃ old, b.document.span? node = some old ∧ s.start = old.start ∧
        (s.stop = old.stop ∨
          (t.isTagPart = true ∧ b.InTag node ∧ s.stop = (b.push t).offset)) := by
  rw [span?_push hfits.open_lt] at hs
  split at hs
  · next hnew =>
    obtain ⟨name, hname, rfl⟩ := Option.map_eq_some_iff.mp hs
    refine Or.inl ⟨hnew, ?_, rfl⟩
    cases t <;> first | exact ⟨_, rfl⟩ | cases hname
  · split at hs
    · next hpart =>
      obtain ⟨old, hold, rfl⟩ := Option.map_eq_some_iff.mp hs
      have hin := hfits.inTag_of_isTagPart hadm hpart.2 hpart.1
      exact Or.inr ⟨old, hold, rfl, Or.inr ⟨hpart.2, hin, rfl⟩⟩
    · exact Or.inr ⟨s, hs, rfl, Or.inl rfl⟩

theorem bracket_push (h : b.document.PlacedIn read) (hfits : Fits m b) (hadm : m.Admits t n)
    (hoffset : b.offset = utf8Length read) {s : Span}
    (hs : (b.push t).document.span? node = some s) :
    Span.Holds ⟨s.start, s.start + 1⟩ (read ++ t.text) ['<'] := by
  rcases span?_of_push hfits hadm hs with ⟨-, ⟨name, rfl⟩, rfl⟩ | ⟨old, hold, hstart, -⟩
  · have hbracket : utf8Length ['<'] = 1 := by decide
    refine ⟨read, name.text, by simp [Token.text], hoffset, ?_⟩
    rw [utf8Length_append, hbracket, ← hoffset]
  · rw [hstart]
    exact (h.bracket node old hold).append t.text

theorem apart_push (h : b.document.PlacedIn read) (hfits : Fits m b) (hadm : m.Admits t n)
    {i j : Nat} (hlt : i < j) {s s' : Span} (hs : (b.push t).document.span? i = some s)
    (hs' : (b.push t).document.span? j = some s') : s.stop ≤ s'.start := by
  rcases span?_of_push hfits hadm hs with ⟨rfl, -⟩ | ⟨old, hold, -, hstop⟩
  · -- no element is behind a new one
    have := lt_size_of_span? hs'
    rw [size_push] at this
    split at this <;> omega
  rcases span?_of_push hfits hadm hs' with ⟨rfl, ⟨name, rfl⟩, rfl⟩ | ⟨old', hold', hstart', -⟩
  · rcases hstop with hstop | ⟨hpart, -⟩
    · rw [hstop]
      exact (hfits.span_le i old hold).2
    · cases hpart
  · rw [hstart']
    rcases hstop with hstop | ⟨-, hin, -⟩
    · rw [hstop]
      exact h.apart i j hlt old old' hold hold'
    · -- the start tag that is open is the last one
      have hlast := lt_size_of_span? hold'
      rw [hin.1] at hlast
      omega

/-- An attribute was there before, or it is the one that the token brings to the open start tag. -/
theorem mem_attributes_of_push (hfits : Fits m b) (hadm : m.Admits t n) {a : Attribute}
    (ha : a ∈ (b.push t).document.attributes node) :
    a ∈ b.document.attributes node ∨ (b.InTag node ∧ ∃ lead name equals q value,
      t = .attribute lead name equals q value ∧
        a = attributeAt b.offset lead name value (b.offset + utf8Length t.text)) := by
  rw [attributes_push hfits.open_lt] at ha
  rcases List.mem_append.mp ha with hold | hgained
  · exact Or.inl hold
  · rcases b.gained_eq t node with hnil | ⟨lead, name, equals, q, value, rfl, hhead, hone⟩
    · rw [hnil] at hgained
      cases hgained
    · rw [hone] at hgained
      exact Or.inr ⟨hfits.inTag_of_isTagPart hadm rfl hhead, lead, name, equals, q, value, rfl,
        List.mem_singleton.mp hgained⟩

theorem exists_span?_of_mem_attributes {d : Document} {a : Attribute}
    (ha : a ∈ d.attributes node) : ∃ s, d.span? node = some s := by
  rw [attributes_eq] at ha
  cases he : d.elements[node]? with
  | none =>
    rw [he] at ha
    cases ha
  | some e => exact ⟨e.span, by rw [Document.span?, he, Option.map_some]⟩

section
variable {lead equals value : List Char} {name : QualifiedName} {q : Char}

/-- There is space in front of an attribute, and quotes are part of it. -/
theorem attributeAt_span (hwf : (Token.attribute lead name equals q value).WellFormed)
    (offset : Nat) :
    let stop := offset + utf8Length (Token.attribute lead name equals q value).text
    let a := attributeAt offset lead name value stop
    offset < a.span.start ∧ a.nameSpan.stop ≤ stop ∧ a.span.start < stop := by
  have hlead := length_le_utf8Length lead
  have hpos := List.length_pos_iff.mpr hwf.1
  have hquote := Char.utf8Size_pos q
  simp only [attributeAt, Token.text, utf8Length_append, utf8Length_cons]
  omega

theorem namedIn_attributeAt (read : List Char) :
    (attributeAt (utf8Length read) lead name value (utf8Length read +
      utf8Length (Token.attribute lead name equals q value).text)).NamedIn
        (read ++ (Token.attribute lead name equals q value).text) where
  holds := by
    refine ⟨read ++ lead ++ name.leadingColon, equals ++ q :: value ++ [q], ?_, ?_, ?_⟩
    · simp [toList_name, Token.text, name.text_eq]
    · rw [nameSpan_start, utf8Length_append, utf8Length_append]
    · rw [nameSpan_stop, toList_name]
      simp only [utf8Length_append]
  start := by
    by_cases hcolon : name.qualifier = some []
    · refine Or.inr ⟨read ++ lead, name.shown ++ equals ++ q :: value ++ [q], ?_, ?_, ?_⟩
      · have hname : name.text = ':' :: name.shown := by
          rw [name.text_eq, QualifiedName.leadingColon, if_pos hcolon, List.singleton_append]
        simp [Token.text, hname]
      · exact (utf8Length_append read lead).symm
      · rw [nameSpan_start, QualifiedName.leadingColon, if_pos hcolon, utf8Length_append,
          utf8Length_append]
    · exact Or.inl (if_neg hcolon)
  stop := by
    simp only [attributeAt, Token.text, utf8Length_append]
    omega

end

theorem attribute_in_push (h : b.document.PlacedIn read) (hfits : Fits m b) (hadm : m.Admits t n)
    (hwf : t.WellFormed) {s : Span} (hs : (b.push t).document.span? node = some s) {a : Attribute}
    (ha : a ∈ (b.push t).document.attributes node) :
    s.start < a.span.start ∧ a.span.start < a.span.stop ∧ a.span.stop ≤ s.stop := by
  rcases mem_attributes_of_push hfits hadm ha with
    hold | ⟨hin, lead, name, equals, q, value, rfl, rfl⟩
  · obtain ⟨old, hspan⟩ := exists_span?_of_mem_attributes hold
    obtain ⟨s', hs', hstart, hstop⟩ := span?_push_of_some (t := t) hfits hspan
    obtain rfl : s' = s := Option.some.inj (hs'.symm.trans hs)
    have := h.attribute_in node old hspan a hold
    omega
  · obtain ⟨old, hspan⟩ := hin.exists_span?
    rw [span?_push_part hfits hin hspan rfl] at hs
    obtain rfl := Option.some.inj hs
    have hle := hfits.span_le node old hspan
    obtain ⟨hlead, -, hstop⟩ := attributeAt_span hwf b.offset
    exact ⟨by dsimp only; omega, hstop, Nat.le_refl _⟩

theorem attributes_apart_push (h : b.document.PlacedIn read) (hfits : Fits m b)
    (hadm : m.Admits t n) (hwf : t.WellFormed) (node : Nat) :
    ((b.push t).document.attributes node).Pairwise fun a a' => a.span.stop < a'.span.start := by
  rw [attributes_push hfits.open_lt]
  rcases b.gained_eq t node with hnil | ⟨lead, name, equals, q, value, rfl, hhead, hone⟩
  · rw [hnil, List.append_nil]
    exact h.attributes_apart node
  · rw [hone]
    refine List.pairwise_append.mpr ⟨h.attributes_apart node, List.pairwise_singleton _ _, ?_⟩
    intro a ha a' ha'
    obtain rfl := List.mem_singleton.mp ha'
    -- the earlier attributes are in the part of the tag that has been read
    obtain ⟨s, hs⟩ := exists_span?_of_mem_attributes ha
    have hin := h.attribute_in node s hs a ha
    have hle := hfits.span_le node s hs
    obtain ⟨hlead, -⟩ := attributeAt_span hwf b.offset
    omega

theorem named_push (h : b.document.PlacedIn read) (hfits : Fits m b) (hadm : m.Admits t n)
    (hoffset : b.offset = utf8Length read) {a : Attribute}
    (ha : a ∈ (b.push t).document.attributes node) : a.NamedIn (read ++ t.text) := by
  rcases mem_attributes_of_push hfits hadm ha with
    hold | ⟨-, lead, name, equals, q, value, rfl, rfl⟩
  · exact (h.named node a hold).append t.text
  · rw [hoffset]
    exact namedIn_attributeAt read

/-- One token keeps all places in the text that has been read. -/
theorem placedIn_push (h : b.document.PlacedIn read) (hfits : Fits m b) (hadm : m.Admits t n)
    (hwf : t.WellFormed) (hoffset : b.offset = utf8Length read) :
    (b.push t).document.PlacedIn (read ++ t.text) where
  bracket _ _ hs := bracket_push h hfits hadm hoffset hs
  span node s hs := by
    rw [utf8Length_append, ← hoffset]
    exact (hfits.push hadm hwf).span_le node s hs
  apart _ _ hlt _ _ hs hs' := apart_push h hfits hadm hlt hs hs'
  attribute_in _ _ hs _ ha := attribute_in_push h hfits hadm hwf hs ha
  attributes_apart := attributes_apart_push h hfits hadm hwf
  named _ _ ha := named_push h hfits hadm hoffset ha

/-- A run of tokens keeps all places in the text that has been read. -/
theorem placedIn_after (h : b.document.PlacedIn read) (hfits : Fits m b) (hruns : m.Runs ts n)
    (hoffset : b.offset = utf8Length read) :
    (b.after ts).document.PlacedIn (read ++ textOf ts) := by
  induction hruns generalizing b read with
  | nil =>
    rw [textOf_nil, List.append_nil]
    exact h
  | @cons m k n t ts hadm hwf _ ih =>
    rw [textOf_cons, ← List.append_assoc]
    refine ih (placedIn_push h hfits hadm hwf hoffset) (hfits.push hadm hwf) ?_
    rw [offset_push, hoffset, utf8Length_append]

end Builder

/-! ## Documents that were parsed -/

namespace Document

theorem placedIn_of_parse {text : String} {d : Document} (h : parse text = .ok d) :
    d.PlacedIn text.toList := by
  obtain ⟨n, rest, hreads⟩ := readsText_tokens text.toList
  have hplaced := Builder.placedIn_after Builder.placedIn_empty Builder.fits_empty hreads.runs rfl
  rw [hreads.text, eq_of_parseChars h, Builder.ofTokens_eq]
  exact hplaced.append rest

/-- In every text that can be read, places are told truly, and at every offset, whether or not it
is between two characters or in the text at all, a search finds what is there. -/
theorem places_of_parse {text : String} {d : Document} (h : parse text = .ok d) :
    d.PlacedIn text.toList ∧ d.Answers :=
  ⟨placedIn_of_parse h, answers_of_placedIn (placedIn_of_parse h)⟩

/-- A name behind a colon and with a character of two bytes, and a start tag that breaks off. -/
def colonText : String := "<a :é='1'/><b"

theorem places_of_parse_colon : ∃ d, parse colonText = .ok d ∧
    d.findAttribute? 5 = some (0, 0) ∧ d.findNode? 99 = none ∧
      d.PlacedIn colonText.toList ∧ d.Answers := by
  have hfound : (parse colonText).toOption.map (fun d => (d.findAttribute? 5, d.findNode? 99)) =
      some (some (0, 0), none) := by
    decide +kernel
  obtain ⟨d, hd, hfound⟩ := Option.map_eq_some_iff.mp hfound
  obtain ⟨hattribute, hnode⟩ := Prod.mk.inj hfound
  have hparse := eq_ok_of_toOption hd
  exact ⟨d, hparse, hattribute, hnode, places_of_parse hparse⟩

end Document

end LayoutCompletion
