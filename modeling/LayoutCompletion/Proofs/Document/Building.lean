import LayoutCompletion.Proofs.Document.Pushing
import LayoutCompletion.Proofs.Markup.Reading

/-!
# Building from tokens

`Builder.Fits m b` says what holds of a builder behind a row of tokens that leaves the reader in
mode `m`. One token keeps it (`Fits.push`), and so does a run (`Fits.after`).

A run adds to what is there and takes nothing away. Tags and parents stay, attributes are only
added behind others, start tags only grow (`span?_after`). Only the element whose start tag is
open changes in this way: all others are settled (`span?_after_settled`).
-/

namespace LayoutCompletion

open Markup Text

/-- The attribute is named by a name that can stand in markup. -/
def Attribute.Named (a : Attribute) : Prop :=
  ∃ name : QualifiedName, name.Valid ∧ a.qualifier = String.ofList name.space ∧
    a.base = String.ofList name.base

namespace Markup.Mode.Admits

variable {m n : Mode} {t : Token}

/-- A start tag is open behind its name and behind an attribute. -/
theorem of_tag {depth : Nat} (h : m.Admits t (.tag depth)) :
    (∃ name, t = .openTag name) ∨
      (m = .tag depth ∧ ∃ lead name equals q value, t = .attribute lead name equals q value) := by
  generalize hk : Mode.tag depth = k at h
  cases h with
  | before text hm hn =>
    subst hk
    simp [Mode.isBefore] at hn
  | root name => exact Or.inl ⟨name, rfl⟩
  | child outer name => exact Or.inl ⟨name, rfl⟩
  | part inner lead name equals q value =>
    obtain rfl : depth = inner := Mode.tag.inj hk
    exact Or.inr ⟨rfl, lead, name, equals, q, value, rfl⟩
  | selfClosing outer lead => exact absurd hk.symm (closing_ne_tag outer depth)
  | closeTag outer name trail => exact absurd hk.symm (closing_ne_tag outer depth)
  | _ => simp at hk

/-- Attributes and ends of start tags stand in start tags only. -/
theorem tag_of_isTagPart (h : m.Admits t n) (hpart : t.isTagPart = true) :
    ∃ depth, m = .tag depth := by
  cases h with
  | part depth => exact ⟨depth, rfl⟩
  | tagEnd depth => exact ⟨depth, rfl⟩
  | selfClosing depth => exact ⟨depth, rfl⟩
  | _ => simp [Token.isTagPart] at hpart

/-- In a start tag, only a part of it may stand. -/
theorem isTagPart_of_tag {depth : Nat} (h : Mode.Admits (.tag depth) t n) : t.isTagPart = true := by
  cases h with
  | part => rfl
  | tagEnd => rfl
  | selfClosing => rfl
  | root _ hbefore => cases hbefore
  | before _ hbefore _ => cases hbefore

end Markup.Mode.Admits

namespace Builder

/-- The builder behind a row of tokens. -/
def after (b : Builder) (ts : List Token) : Builder :=
  ts.foldl push b

@[simp] theorem after_nil (b : Builder) : b.after [] = b := rfl

@[simp] theorem after_cons (b : Builder) (t : Token) (ts : List Token) :
    b.after (t :: ts) = (b.push t).after ts := rfl

@[simp] theorem after_append (b : Builder) (ts us : List Token) :
    b.after (ts ++ us) = (b.after ts).after us := List.foldl_append

theorem ofTokens_eq (ts : List Token) : Document.ofTokens ts = (empty.after ts).document := rfl

theorem offset_after (b : Builder) (ts : List Token) :
    (b.after ts).offset = b.offset + utf8Length (textOf ts) := by
  induction ts generalizing b with
  | nil => rfl
  | cons t ts ih => rw [after_cons, ih, offset_push, textOf_cons, utf8Length_append, Nat.add_assoc]

theorem offset_after_empty (ts : List Token) :
    (empty.after ts).offset = utf8Length (textOf ts) :=
  (offset_after _ _).trans (Nat.zero_add _)

/-! ## The invariant -/

/-- The start tag of this element is open. -/
def InTag (b : Builder) (node : Nat) : Prop :=
  b.document.size = node + 1 ∧ b.openNodes.head? = some node

/-- What holds of a builder behind tokens that leave the reader in the mode. -/
structure Fits (m : Mode) (b : Builder) : Prop where
  inTag : ∀ depth, m = .tag depth → ∃ node, b.InTag node
  open_lt : ∀ n ∈ b.openNodes, n < b.document.size
  parent_lt : ∀ node parent, b.document.parent? node = some parent → parent < node
  span_le : ∀ node s, b.document.span? node = some s → s.start < s.stop ∧ s.stop ≤ b.offset
  name_le : ∀ node, ∀ a ∈ b.document.attributes node, a.nameSpan.stop ≤ b.offset
  named : ∀ node, ∀ a ∈ b.document.attributes node, a.Named

theorem fits_empty : Fits .start empty where
  inTag := by simp
  open_lt := by simp [empty]
  parent_lt := by simp [Document.parent?, Document.empty]
  span_le := by simp [Document.span?, Document.empty]
  name_le := by simp [Document.attributes, Document.empty]
  named := by simp [Document.attributes, Document.empty]

variable {m n : Mode} {b : Builder} {t : Token} {ts : List Token}

/-- A part of a start tag stands in the one that is open. -/
theorem Fits.inTag_of_isTagPart (h : Fits m b) (hadm : m.Admits t n) (hpart : t.isTagPart = true)
    {node : Nat} (hhead : b.openNodes.head? = some node) : b.InTag node := by
  obtain ⟨depth, hm⟩ := hadm.tag_of_isTagPart hpart
  obtain ⟨inner, hin⟩ := h.inTag depth hm
  obtain rfl : inner = node := Option.some.inj (hin.2.symm.trans hhead)
  exact hin

theorem size_le_size_push (b : Builder) (t : Token) :
    b.document.size ≤ (b.push t).document.size := by
  rw [size_push]
  exact Nat.le_add_right _ _

theorem inTag_push_openTag (b : Builder) (name : QualifiedName) :
    (b.push (.openTag name)).InTag b.document.size := by
  constructor
  · simp [size_push, Token.opened?]
  · simp [openNodes_push]

theorem InTag.push_attribute {node : Nat} (h : b.InTag node) (lead : List Char)
    (name : QualifiedName) (equals : List Char) (q : Char) (value : List Char) :
    (b.push (.attribute lead name equals q value)).InTag node := by
  constructor
  · rw [size_push]
    exact h.1
  · rw [openNodes_push]
    exact h.2

theorem inTag_push (h : m.Admits t n) (hin : ∀ depth, m = .tag depth → ∃ node, b.InTag node) :
    ∀ depth, n = .tag depth → ∃ node, (b.push t).InTag node := by
  rintro depth rfl
  rcases h.of_tag with ⟨name, rfl⟩ | ⟨rfl, lead, name, equals, q, value, rfl⟩
  · exact ⟨_, inTag_push_openTag b name⟩
  · obtain ⟨node, hnode⟩ := hin depth rfl
    exact ⟨node, hnode.push_attribute lead name equals q value⟩

theorem mem_openNodes_push {node : Nat} (h : node ∈ (b.push t).openNodes) :
    (node = b.document.size ∧ t.opened?.isSome = true) ∨ node ∈ b.openNodes := by
  rw [openNodes_push] at h
  split at h
  · rcases List.mem_cons.mp h with rfl | h
    · exact Or.inl ⟨rfl, rfl⟩
    · exact Or.inr h
  · exact Or.inr (List.mem_of_mem_tail h)
  · exact Or.inr (List.mem_of_mem_tail h)
  · exact Or.inr h

theorem open_lt_push (hopen : ∀ n ∈ b.openNodes, n < b.document.size) :
    ∀ n ∈ (b.push t).openNodes, n < (b.push t).document.size := by
  intro node hnode
  rcases mem_openNodes_push hnode with ⟨rfl, hnew⟩ | hold
  · rw [size_push, if_pos hnew]
    exact Nat.lt_succ_self _
  · exact Nat.lt_of_lt_of_le (hopen node hold) (size_le_size_push b t)

/-- An attribute of an element behind the token was there before, or the token is about it. -/
theorem mem_attributes_push (hopen : ∀ n ∈ b.openNodes, n < b.document.size) {node : Nat}
    {a : Attribute} (h : a ∈ (b.push t).document.attributes node) :
    a ∈ b.document.attributes node ∨
      ∃ lead name equals q value, t = .attribute lead name equals q value ∧
        a = attributeAt b.offset lead name value (b.offset + utf8Length t.text) := by
  rw [attributes_push hopen] at h
  rcases List.mem_append.mp h with h | h
  · exact Or.inl h
  · rcases b.gained_eq t node with hnil | ⟨lead, name, equals, q, value, rfl, -, hgained⟩
    · rw [hnil] at h
      simp at h
    · rw [hgained] at h
      exact Or.inr ⟨lead, name, equals, q, value, rfl, List.mem_singleton.mp h⟩

theorem text_pos (h : t.WellFormed) (hopened : t.opened?.isSome = true) :
    0 < utf8Length t.text := by
  cases t with
  | openTag name =>
    have := Char.utf8Size_pos '<'
    simp only [Token.text, utf8Length_cons]
    omega
  | _ => simp [Token.opened?] at hopened

/-- One token keeps the invariant. -/
theorem Fits.push (h : Fits m b) (hadm : m.Admits t n) (hwf : t.WellFormed) :
    Fits n (b.push t) where
  inTag := inTag_push hadm h.inTag
  open_lt := open_lt_push h.open_lt
  parent_lt := by
    intro node parent hp
    rw [parent?_push] at hp
    split at hp
    · next hnew =>
      obtain ⟨name, -, hhead⟩ := Option.bind_eq_some_iff.mp hp
      rw [hnew]
      exact h.open_lt _ (List.mem_of_head? hhead)
    · exact h.parent_lt node parent hp
  span_le := by
    intro node s hs
    rw [span?_push h.open_lt] at hs
    split at hs
    · -- a new tag is as long as its name, which is not empty
      obtain ⟨name, hname, rfl⟩ := Option.map_eq_some_iff.mp hs
      have := text_pos hwf (by rw [hname]; rfl)
      exact ⟨Nat.lt_add_of_pos_right this, Nat.le_refl _⟩
    · split at hs
      · -- the open tag is longer than before
        obtain ⟨old, hold, rfl⟩ := Option.map_eq_some_iff.mp hs
        obtain ⟨hlt, hle⟩ := h.span_le node old hold
        exact ⟨by dsimp only; omega, Nat.le_refl _⟩
      · have := h.span_le node s hs
        rw [offset_push]
        exact ⟨this.1, by omega⟩
  name_le := by
    intro node a ha
    rw [offset_push]
    rcases mem_attributes_push h.open_lt ha with ha | ⟨lead, name, equals, q, value, rfl, rfl⟩
    · have := h.name_le node a ha
      omega
    · simp only [attributeAt, Token.text, utf8Length_append]
      omega
  named := by
    intro node a ha
    rcases mem_attributes_push h.open_lt ha with ha | ⟨lead, name, equals, q, value, rfl, rfl⟩
    · exact h.named node a ha
    · exact ⟨name, hwf.2.2.1, rfl, rfl⟩

/-- A run of tokens keeps the invariant. -/
theorem Fits.after (h : Fits m b) (hruns : m.Runs ts n) : Fits n (b.after ts) := by
  induction hruns generalizing b with
  | nil => exact h
  | cons hadm hwf _ ih => exact ih (h.push hadm hwf)

/-- What holds of the document of a row of tokens. -/
theorem fits_of_runs (hruns : Mode.Runs .start ts n) : Fits n (empty.after ts) :=
  fits_empty.after hruns

/-! ## What a run keeps -/

/-- There is an element for every token that opens one. -/
theorem size_after (b : Builder) (ts : List Token) :
    (b.after ts).document.size = b.document.size + ts.countP fun t => t.opened?.isSome := by
  induction ts generalizing b with
  | nil => rfl
  | cons t ts ih =>
    rw [after_cons, ih, size_push, List.countP_cons, Nat.add_right_comm, Nat.add_assoc]

theorem size_le_size_after (b : Builder) (ts : List Token) :
    b.document.size ≤ (b.after ts).document.size := by
  rw [size_after]
  exact Nat.le_add_right _ _

theorem size_pos_of_openTag {name : QualifiedName} (h : .openTag name ∈ ts) :
    0 < (b.after ts).document.size := by
  rw [size_after]
  exact Nat.add_pos_right _ (List.countP_pos_iff.mpr ⟨_, h, rfl⟩)

theorem tag_after {node : Nat} (h : node < b.document.size) (ts : List Token) :
    (b.after ts).document.tag node = b.document.tag node := by
  induction ts generalizing b with
  | nil => rfl
  | cons t ts ih =>
    rw [after_cons, ih (Nat.lt_of_lt_of_le h (size_le_size_push b t)), tag_push,
      if_neg (Nat.ne_of_lt h)]

theorem attributes_after (hopen : ∀ n ∈ b.openNodes, n < b.document.size) (ts : List Token)
    (node : Nat) :
    ∃ more, (b.after ts).document.attributes node = b.document.attributes node ++ more := by
  induction ts generalizing b with
  | nil => exact ⟨[], (List.append_nil _).symm⟩
  | cons t ts ih =>
    obtain ⟨more, hmore⟩ := ih (open_lt_push (t := t) hopen)
    rw [after_cons, hmore, attributes_push hopen, List.append_assoc]
    exact ⟨_, rfl⟩

theorem lt_size_of_span? {d : Document} {node : Nat} {s : Span} (h : d.span? node = some s) :
    node < d.size := by
  obtain ⟨e, he, -⟩ := Option.map_eq_some_iff.mp h
  exact (Array.getElem?_eq_some_iff.mp he).1

theorem InTag.exists_span? {node : Nat} (h : b.InTag node) :
    ∃ s, b.document.span? node = some s := by
  have hlt : node < b.document.size := by
    rw [h.1]
    exact Nat.lt_succ_self node
  obtain ⟨e, he⟩ := exists_element hlt
  exact ⟨e.span, by rw [Document.span?, document, he, Option.map_some]⟩

theorem span?_push_of_some (h : Fits m b) {node : Nat} {s : Span}
    (hs : b.document.span? node = some s) :
    ∃ s', (b.push t).document.span? node = some s' ∧ s'.start = s.start ∧ s.stop ≤ s'.stop := by
  rw [span?_push h.open_lt, if_neg (Nat.ne_of_lt (lt_size_of_span? hs)), hs]
  split
  · have := (h.span_le node s hs).2
    exact ⟨_, rfl, rfl, by dsimp only; omega⟩
  · exact ⟨s, rfl, rfl, Nat.le_refl _⟩

/-- A part of the start tag that is open makes it longer. -/
theorem span?_push_part (hfits : Fits m b) {node : Nat} (hin : b.InTag node) {s : Span}
    (hs : b.document.span? node = some s) (hpart : t.isTagPart = true) :
    (b.push t).document.span? node = some ⟨s.start, (b.push t).offset⟩ := by
  rw [span?_push hfits.open_lt, if_neg (Nat.ne_of_lt (lt_size_of_span? hs)),
    if_pos ⟨hin.2, hpart⟩, hs]
  rfl

/-- A start tag stays where it begins and only grows. -/
theorem span?_after (h : Fits m b) (hruns : m.Runs ts n) {node : Nat} {s : Span}
    (hs : b.document.span? node = some s) :
    ∃ s', (b.after ts).document.span? node = some s' ∧ s'.start = s.start ∧
      s.stop ≤ s'.stop := by
  induction hruns generalizing b s with
  | nil => exact ⟨s, hs, rfl, Nat.le_refl _⟩
  | @cons m k n t ts hadm hwf _ ih =>
    obtain ⟨s', hs', hstart, hstop⟩ := span?_push_of_some (t := t) h hs
    obtain ⟨s'', hs'', hstart', hstop'⟩ := ih (h.push hadm hwf) hs'
    exact ⟨s'', hs'', hstart'.trans hstart, Nat.le_trans hstop hstop'⟩

/-- The start tag of the element has been read to its end. -/
def Settled (m : Mode) (b : Builder) (node : Nat) : Prop :=
  node < b.document.size ∧ ∀ depth, m = .tag depth → ¬b.InTag node

theorem Settled.push {node : Nat} (h : Settled m b node) (hadm : m.Admits t n) :
    Settled n (b.push t) node := by
  refine ⟨Nat.lt_of_lt_of_le h.1 (size_le_size_push b t), ?_⟩
  rintro depth rfl ⟨hsize, hhead⟩
  rcases hadm.of_tag with ⟨name, rfl⟩ | ⟨rfl, lead, name, equals, q, value, rfl⟩
  · rw [(inTag_push_openTag b name).1] at hsize
    have := h.1
    omega
  · rw [size_push] at hsize
    rw [openNodes_push] at hhead
    exact h.2 depth rfl ⟨hsize, hhead⟩

theorem span?_push_settled (hfits : Fits m b) {node : Nat} (h : Settled m b node)
    (hadm : m.Admits t n) : (b.push t).document.span? node = b.document.span? node := by
  rw [span?_push hfits.open_lt, if_neg (Nat.ne_of_lt h.1), if_neg]
  -- a token that makes a tag longer stands in the open tag, which is another one
  rintro ⟨hhead, hpart⟩
  obtain ⟨depth, hm⟩ := hadm.tag_of_isTagPart hpart
  exact h.2 depth hm (hfits.inTag_of_isTagPart hadm hpart hhead)

/-- A start tag that has ended does not change any more. -/
theorem span?_after_settled (hfits : Fits m b) (hruns : m.Runs ts n) {node : Nat}
    (h : Settled m b node) : (b.after ts).document.span? node = b.document.span? node := by
  induction hruns generalizing b with
  | nil => rfl
  | cons hadm hwf _ ih =>
    rw [after_cons, ih (hfits.push hadm hwf) (h.push hadm), span?_push_settled hfits h hadm]

end Builder

end LayoutCompletion
