import LayoutCompletion.Completion.Complete
import LayoutCompletion.Proofs.Document.Lookup
import LayoutCompletion.Proofs.Document.Parsing

/-!
# The name under a cursor

An attribute is where reading comes to it: if the reader of a text has come to a start tag and an
attribute stands next, then the text has a document, and the cursor behind any beginning of the name
is in that attribute, with that beginning as what is typed (`cursor?_of_readsText`). What stands
behind the attribute has no influence on this.

Conversely, every attribute of a parsed text was come to in this way (`exists_readsText_attribute`).
-/

namespace LayoutCompletion

open Markup Text

/-- The cursor in the name that was found, when what stands before it is typed. -/
theorem cursor?_of_findAttribute? {d : Document} {offset node index : Nat}
    {a : Attribute} {typed tail : List Char}
    (hfind : d.findAttribute? offset = some (node, index))
    (ha : (d.attributes node)[index]? = some a) (hname : a.name.toList = typed ++ tail)
    (hoffset : offset = a.nameSpan.start + utf8Length typed) :
    d.cursor? offset = some ⟨node, index, typed⟩ := by
  unfold Document.cursor?
  have hsplit : splitAtByte? a.name.toList (offset - a.nameSpan.start) =
      some (typed, tail) := by
    rw [hname, hoffset, Nat.add_sub_cancel_left, splitAtByte?_append]
  simp only [hfind, ha, hsplit, Option.bind_eq_bind, Option.bind_some, Option.pure_def]

/-- A cursor is between two characters of a name that was found. -/
theorem exists_of_cursor? {d : Document} {offset : Nat} {cursor : Cursor}
    (h : d.cursor? offset = some cursor) :
    ∃ a tail, d.findAttribute? offset = some (cursor.node, cursor.index) ∧
      (d.attributes cursor.node)[cursor.index]? = some a ∧
      a.name.toList = cursor.typed ++ tail ∧
      offset - a.nameSpan.start = utf8Length cursor.typed := by
  unfold Document.cursor? at h
  simp only [Option.bind_eq_bind, Option.bind_eq_some_iff, Option.pure_def, Option.some.injEq,
    Prod.exists] at h
  obtain ⟨node, index, hfind, a, ha, typed, tail, hsplit, rfl⟩ := h
  obtain ⟨hname, hlength⟩ := append_of_splitAtByte? hsplit
  exact ⟨a, tail, hfind, ha, hname, hlength⟩

section
variable {cs rest lead equals value typed tail : List Char} {before : List Token} {depth : Nat}
  {name : QualifiedName} {q : Char}

/-- The characters of an attribute, told from what is shown of its name. -/
theorem text_attribute (rest : List Char) :
    (Token.attribute lead name equals q value).text ++ rest =
      (lead ++ name.leadingColon) ++ (name.shown ++ (equals ++ (q :: (value ++ q :: rest)))) := by
  rw [Token.text, name.text_eq]
  simp

/-- The text in which reading comes to an attribute, told in this way. -/
theorem text_of_readsText
    (hreads : ReadsText cs before (.tag depth)
      ((Token.attribute lead name equals q value).text ++ rest)) :
    cs = (textOf before ++ lead ++ name.leadingColon) ++
      (name.shown ++ (equals ++ (q :: (value ++ q :: rest)))) := by
  rw [hreads.text, text_attribute]
  simp only [List.append_assoc]

/-- A text in which reading comes to an attribute has a document. -/
theorem parseChars_of_attribute
    (hreads : ReadsText cs before (.tag depth)
      ((Token.attribute lead name equals q value).text ++ rest))
    (hwf : (Token.attribute lead name equals q value).WellFormed) :
    Document.parseChars cs =
      .ok (Document.ofTokens (before ++ .attribute lead name equals q value ::
        (tokensFrom (.tag depth) rest).tokens)) := by
  have h := Document.parseChars_of_readsText (hreads.append (reads_attribute depth hwf rest))
  rw [List.append_assoc] at h
  exact h

/-- The attribute that reading comes to is the one under a cursor in its name. -/
theorem cursor?_of_readsText
    (hreads : ReadsText cs before (.tag depth)
      ((Token.attribute lead name equals q value).text ++ rest))
    (hwf : (Token.attribute lead name equals q value).WellFormed)
    (hshown : name.shown = typed ++ tail) {node : Nat}
    (hin : (Builder.empty.after before).InTag node) :
    (Document.ofTokens (before ++ .attribute lead name equals q value ::
      (tokensFrom (.tag depth) rest).tokens)).cursor?
        (utf8Length (textOf before ++ lead ++ name.leadingColon ++ typed)) =
      some ⟨node, ((Builder.empty.after before).document.attributes node).length, typed⟩ := by
  have hfits := Builder.fits_of_runs hreads.runs
  have hoffset := Builder.offset_after_empty before
  have hlength := congrArg utf8Length name.text_eq
  rw [hshown] at hlength
  simp only [utf8Length_append] at hlength
  obtain ⟨n, hruns⟩ := runs_tokensFrom (.tag depth) rest
  rw [Builder.ofTokens_eq, Builder.after_append]
  refine cursor?_of_findAttribute? (Builder.findAttribute?_after hfits hin
    (.cons (.part depth _ _ _ _ _) hwf hruns) ?_ ?_)
    (Builder.getElem?_attributes_after hfits hin _)
    ((Builder.toList_name _ _ _ _ _).trans hshown) ?_
  · simp only [hoffset, utf8Length_append]
    omega
  · simp only [hoffset, utf8Length_append]
    omega
  · rw [Builder.nameSpan_start, hoffset]
    simp only [utf8Length_append]

/-- Every attribute of the document of a text was come to. -/
theorem exists_readsText_attribute {cs : List Char} {node index : Nat} {a : Attribute}
    (h : ((Document.ofTokens (tokens cs).tokens).attributes node)[index]? = some a) :
    ∃ before depth lead name equals q value rest,
      ReadsText cs before (.tag depth)
        ((Token.attribute lead name equals q value).text ++ rest) ∧
      (Token.attribute lead name equals q value).WellFormed ∧
      (tokens cs).tokens = before ++ .attribute lead name equals q value ::
        (tokensFrom (.tag depth) rest).tokens ∧
      (Builder.empty.after before).InTag node ∧
      ((Builder.empty.after before).document.attributes node).length = index ∧
      a = Builder.attributeAt (utf8Length (textOf before)) lead name value
        (utf8Length (textOf before) +
          utf8Length (Token.attribute lead name equals q value).text) := by
  obtain ⟨m, hruns⟩ := runs_tokens cs
  obtain ⟨before, lead, name, equals, q, value, behind, -, htokens, -, hin, hlength, ha⟩ :=
    Builder.exists_token Builder.fits_empty hruns h (Nat.zero_le _)
  have hmark : cs.head? = some '\uFEFF' → before ≠ [] := by
    rintro hhead rfl
    obtain ⟨rest, rfl⟩ := List.head?_eq_some_iff.mp hhead
    simp [tokens] at htokens
  obtain ⟨k, mid, hreads, hmid⟩ := exists_readsText before htokens hmark
  obtain ⟨k', rest, hattribute, hrest⟩ :=
    exists_reads [.attribute lead name equals q value] hmid
  obtain ⟨depth, rfl, rfl, hwf⟩ := exists_of_reads_attribute hattribute
  have hoffset := Builder.offset_after_empty before
  have hmidtext := hattribute.text
  rw [textOf_cons, textOf_nil, List.append_nil] at hmidtext
  rw [hmidtext] at hreads
  rw [← hrest] at htokens
  rw [hoffset] at ha
  exact ⟨before, depth, lead, name, equals, q, value, rest, hreads, hwf, htokens, hin, hlength, ha⟩

/-- Behind every beginning of the name of an attribute stands a cursor. -/
theorem cursor?_of_attribute {text : String} {d : Document} {node index : Nat} {a : Attribute}
    (hparse : Document.parse text = .ok d) (ha : (d.attributes node)[index]? = some a)
    (hname : a.name.toList = typed ++ tail) :
    d.cursor? (a.nameSpan.start + utf8Length typed) = some ⟨node, index, typed⟩ := by
  obtain rfl := Document.eq_of_parseChars hparse
  obtain ⟨before, depth, lead, name, equals, q, value, rest, hreads, hwf, htokens, hin, hlength,
    rfl⟩ := exists_readsText_attribute ha
  have hshown : name.shown = typed ++ tail := (Builder.toList_name _ _ _ _ _).symm.trans hname
  have hcursor := cursor?_of_readsText hreads hwf hshown hin
  rw [← htokens, hlength] at hcursor
  rw [Builder.nameSpan_start]
  simpa only [utf8Length_append, Nat.add_assoc] using hcursor

/-- A cursor in the document of a text stands between two characters of the text. -/
theorem exists_cut_of_cursor? {cs : List Char} {offset : Nat} {cursor : Cursor}
    (h : (Document.ofTokens (tokens cs).tokens).cursor? offset = some cursor) :
    ∃ cut, splitAtByte? cs offset = some cut := by
  obtain ⟨a, tail, hfind, ha, hname, hlength⟩ := exists_of_cursor? h
  obtain ⟨found, hfound, hstart, -⟩ := Document.exists_of_findAttribute? hfind
  obtain rfl : found = a := Option.some.inj (hfound.symm.trans ha)
  obtain ⟨before, depth, lead, name, equals, q, value, rest, hreads, -, -, -, -, rfl⟩ :=
    exists_readsText_attribute ha
  rw [Builder.toList_name] at hname
  rw [Builder.nameSpan_start] at hstart hlength
  have hoffset : offset =
      utf8Length (textOf before ++ lead ++ name.leadingColon ++ cursor.typed) := by
    simp only [utf8Length_append]
    omega
  have hcs : cs = (textOf before ++ lead ++ name.leadingColon ++ cursor.typed) ++
      (tail ++ (equals ++ (q :: (value ++ q :: rest)))) := by
    rw [text_of_readsText hreads, hname]
    simp only [List.append_assoc]
  rw [hcs, hoffset]
  exact ⟨_, splitAtByte?_append _ _⟩

end

end LayoutCompletion
