import LayoutCompletion.Proofs.Document.Lookup
import LayoutCompletion.Proofs.Document.Scoping

/-!
# What later tokens add to a document

Behind a start tag that has ended, tokens add elements to a document and change nothing of those
that are there, but for their children: `Document.Extends` says so, and a run of tokens gives such a
document (`Builder.extends_after`).

The later elements begin behind the place that was reached, so every question about an earlier place
has the same answer in both documents.
-/

namespace LayoutCompletion

open Markup Text

/-- The elements of the one document are in the other one too, and all others in it begin at the
place `stop` or behind it. Only the children of the elements may differ. -/
structure Document.Extends (stop : Nat) (d d' : Document) : Prop where
  tag : ∀ node < d.size, d'.tag node = d.tag node
  parent : ∀ node < d.size, d'.parent? node = d.parent? node
  attributes : ∀ node < d.size, d'.attributes node = d.attributes node
  span : ∀ node < d.size, d'.span? node = d.span? node
  le_start : ∀ node, d.size ≤ node → ∀ s, d'.span? node = some s → stop ≤ s.start

namespace Builder

variable {m n : Mode} {b : Builder} {t : Token} {ts : List Token} {node : Nat}

/-! ## Elements whose start tag has ended -/

theorem parent?_after (h : node < b.document.size) (ts : List Token) :
    (b.after ts).document.parent? node = b.document.parent? node := by
  induction ts generalizing b with
  | nil => rfl
  | cons t ts ih =>
    rw [after_cons, ih (Nat.lt_of_lt_of_le h (size_le_size_push b t)), parent?_push,
      if_neg (Nat.ne_of_lt h)]

/-- A token gives attributes to the element whose start tag is open, which is another one. -/
theorem attributes_push_settled (hfits : Fits m b) (h : Settled m b node) (hadm : m.Admits t n) :
    (b.push t).document.attributes node = b.document.attributes node := by
  rw [attributes_push hfits.open_lt]
  rcases b.gained_eq t node with hnil | ⟨lead, name, equals, q, value, rfl, hhead, -⟩
  · rw [hnil, List.append_nil]
  · obtain ⟨depth, hm⟩ := hadm.tag_of_isTagPart rfl
    exact absurd (hfits.inTag_of_isTagPart hadm rfl hhead) (h.2 depth hm)

theorem attributes_after_settled (hfits : Fits m b) (hruns : m.Runs ts n)
    (h : Settled m b node) :
    (b.after ts).document.attributes node = b.document.attributes node := by
  induction hruns generalizing b with
  | nil => rfl
  | cons hadm hwf _ ih =>
    rw [after_cons, ih (hfits.push hadm hwf) (h.push hadm), attributes_push_settled hfits h hadm]

/-! ## New elements -/

theorem span?_eq_none (h : b.document.size ≤ node) : b.document.span? node = none := by
  have hnone : b.elements[node]? = none := Array.getElem?_eq_none h
  rw [Document.span?, document, hnone, Option.map_none]

/-- A token that brings an element opens its start tag. -/
theorem exists_openTag_of_lt (h : b.document.size ≤ node) (hlt : node < (b.push t).document.size) :
    node = b.document.size ∧ ∃ name, t = .openTag name := by
  rw [size_push] at hlt
  cases t with
  | openTag name =>
    rw [Token.opened?, Option.isSome_some, if_pos rfl] at hlt
    exact ⟨by omega, name, rfl⟩
  | _ => exact absurd h (Nat.not_le_of_lt hlt)

theorem span?_push_openTag (hopen : ∀ n ∈ b.openNodes, n < b.document.size)
    (name : QualifiedName) :
    (b.push (.openTag name)).document.span? b.document.size =
      some ⟨b.offset, (b.push (.openTag name)).offset⟩ := by
  rw [span?_push hopen, if_pos rfl]
  rfl

/-- An element that was not there before begins where reading had come to, or behind that. -/
theorem le_start_after (hfits : Fits m b) (hruns : m.Runs ts n) (h : b.document.size ≤ node)
    {s : Span} (hs : (b.after ts).document.span? node = some s) : b.offset ≤ s.start := by
  induction hruns generalizing b with
  | nil =>
    rw [after_nil, span?_eq_none h] at hs
    cases hs
  | @cons m k n t ts hadm hwf hrest ih =>
    have hfits' := hfits.push hadm hwf
    by_cases hlater : (b.push t).document.size ≤ node
    · have := ih hfits' hlater hs
      rw [offset_push] at this
      omega
    · obtain ⟨rfl, name, rfl⟩ := exists_openTag_of_lt h (Nat.lt_of_not_le hlater)
      obtain ⟨s', hs', hstart, -⟩ :=
        span?_after hfits' hrest (span?_push_openTag hfits.open_lt name)
      obtain rfl : s' = s := Option.some.inj (hs'.symm.trans hs)
      exact Nat.le_of_eq hstart.symm

/-- Behind a start tag that has ended, tokens only add elements. -/
theorem extends_after (hfits : Fits m b) (hm : ∀ depth, m ≠ .tag depth) (hruns : m.Runs ts n) :
    Document.Extends b.offset b.document (b.after ts).document where
  tag _ hnode := tag_after hnode ts
  parent _ hnode := parent?_after hnode ts
  attributes _ hnode :=
    attributes_after_settled hfits hruns ⟨hnode, fun depth h => absurd h (hm depth)⟩
  span _ hnode := span?_after_settled hfits hruns ⟨hnode, fun depth h => absurd h (hm depth)⟩
  le_start _ hnode _ hs := le_start_after hfits hruns hnode hs

end Builder

namespace Document

/-- What is read behind a start tag that has ended adds elements to the document. -/
theorem exists_extends {cs rest : List Char} {ts : List Token} {n : Mode}
    (hreads : ReadsText cs ts n rest) (hn : ∀ inner, n ≠ .tag inner)
    (hpos : 0 < (ofTokens ts).size) :
    ∃ d, parseChars cs = .ok d ∧ Extends (utf8Length (textOf ts)) (ofTokens ts) d := by
  obtain ⟨k, hruns⟩ := runs_tokensFrom n rest
  have htokens := congrArg Lexed.tokens (tokens_of_readsText hreads)
  have hgrow := Builder.size_le_size_after (Builder.empty.after ts) (tokensFrom n rest).tokens
  refine ⟨_, parseChars_of_tokens htokens ?_, ?_⟩
  · rw [Builder.ofTokens_eq, Builder.after_append]
    exact Nat.lt_of_lt_of_le hpos hgrow
  · have h := Builder.extends_after (Builder.fits_of_runs hreads.runs) hn hruns
    rw [Builder.offset_after_empty] at h
    rw [Builder.ofTokens_eq, Builder.ofTokens_eq, Builder.after_append]
    exact h

/-! ## Questions about earlier places -/

theorem le_of_mem_ancestors {d : Document} {node ancestor : Nat}
    (h : ancestor ∈ d.ancestors node) : ancestor ≤ node := by
  induction node using Nat.strongRecOn with
  | ind node ih =>
    rw [ancestors] at h
    split at h
    · exact Nat.le_of_eq (List.mem_singleton.mp h)
    · next parent _ =>
      split at h
      · next hlt =>
        rcases List.mem_cons.mp h with rfl | h
        · exact Nat.le_refl ancestor
        · exact Nat.le_trans (ih parent hlt h) (Nat.le_of_lt hlt)
      · exact Nat.le_of_eq (List.mem_singleton.mp h)

/-- The ancestors of an element depend on what surrounds it and the elements before it. -/
theorem ancestors_congr {d d' : Document} {node : Nat}
    (h : ∀ n ≤ node, d'.parent? n = d.parent? n) : d'.ancestors node = d.ancestors node := by
  induction node using Nat.strongRecOn with
  | ind node ih =>
    rw [ancestors, ancestors, h node (Nat.le_refl node)]
    split
    · rfl
    · next parent _ =>
      split
      · next hlt => rw [ih parent hlt fun n hn => h n (Nat.le_trans hn (Nat.le_of_lt hlt))]
      · rfl

theorem lt_size_of_findNode? {d : Document} {offset node : Nat}
    (h : d.findNode? offset = some node) : node < d.size := by
  obtain ⟨⟨s, hs, -⟩, -⟩ := findNode?_eq_some.mp h
  exact Builder.lt_size_of_span? hs

theorem lt_size_of_findAttribute? {d : Document} {offset node index : Nat}
    (h : d.findAttribute? offset = some (node, index)) : node < d.size :=
  lt_size_of_findNode? (findAttribute?_eq_some.mp h).1

namespace Extends

variable {stop node offset : Nat} {d d' : Document}

/-- The same start tag contains the place. -/
theorem findNode? (h : Extends stop d d') (hoffset : offset ≤ stop) :
    d'.findNode? offset = d.findNode? offset := by
  have hlt {s : Span} {i : Nat} (hs : d'.span? i = some s) (hin : s.start < offset) :
      i < d.size := by
    refine Nat.lt_of_not_le fun hle => ?_
    have := h.le_start i hle s hs
    omega
  refine Option.ext fun i => ?_
  rw [findNode?_eq_some, findNode?_eq_some]
  constructor
  · rintro ⟨⟨s, hs, hin⟩, hearlier⟩
    have hi := hlt hs hin.1
    refine ⟨⟨s, (h.span i hi).symm.trans hs, hin⟩, fun j hj s hs => ?_⟩
    exact hearlier j hj s ((h.span j (Nat.lt_trans hj hi)).trans hs)
  · rintro ⟨⟨s, hs, hin⟩, hearlier⟩
    refine ⟨⟨s, (h.span i (Builder.lt_size_of_span? hs)).trans hs, hin⟩, fun j hj s' hs' => ?_⟩
    have hj' := Nat.lt_trans hj (Builder.lt_size_of_span? hs)
    exact hearlier j hj s' ((h.span j hj').symm.trans hs')

theorem findAttribute? (h : Extends stop d d') (hoffset : offset ≤ stop) :
    d'.findAttribute? offset = d.findAttribute? offset := by
  unfold Document.findAttribute?
  rw [h.findNode? hoffset]
  cases hnode : d.findNode? offset with
  | none => rfl
  | some node =>
    simp only [Option.bind_eq_bind, Option.bind_some,
      h.attributes node (lt_size_of_findNode? hnode)]

theorem ancestors (h : Extends stop d d') (hnode : node < d.size) :
    d'.ancestors node = d.ancestors node :=
  ancestors_congr fun n hn => h.parent n (Nat.lt_of_le_of_lt hn hnode)

/-- All that an element and those around it declare. -/
theorem flatMap_declarations (h : Extends stop d d') (hnode : node < d.size) :
    (d'.ancestors node).flatMap d'.declarations = (d.ancestors node).flatMap d.declarations := by
  have hdeclarations : ∀ ancestor ∈ d.ancestors node,
      d'.declarations ancestor = d.declarations ancestor := by
    intro ancestor hmem
    unfold Document.declarations
    rw [h.attributes ancestor (Nat.lt_of_le_of_lt (le_of_mem_ancestors hmem) hnode)]
  rw [h.ancestors hnode, List.flatMap_def, List.flatMap_def, List.map_congr_left hdeclarations]

theorem namespaceUri? (h : Extends stop d d') (hnode : node < d.size) (space : String) :
    d'.namespaceUri? node space = d.namespaceUri? node space := by
  unfold Document.namespaceUri?
  rw [← lookup_flatMap, ← lookup_flatMap, h.flatMap_declarations hnode]

theorem namespaceDeclarations (h : Extends stop d d') (hnode : node < d.size) :
    d'.namespaceDeclarations node = d.namespaceDeclarations node := by
  unfold Document.namespaceDeclarations
  rw [h.flatMap_declarations hnode]

end Extends

end Document

end LayoutCompletion
