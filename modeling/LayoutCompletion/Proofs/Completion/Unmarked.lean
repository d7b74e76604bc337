import LayoutCompletion.Proofs.Completion.EntryPoints
import LayoutCompletion.Proofs.Completion.Narrowing
import LayoutCompletion.Proofs.Completion.Reach
import LayoutCompletion.Proofs.Document.Places
import LayoutCompletion.Proofs.Text.Occurrences

/-!
# The marker stays inside

A request reads its text with a marker at the cursor. No completion shows the marker
(`completeBy_unmarked`), although the document that was read may bind a prefix with the marker in
it.

The marker stands at the cursor only, so such a prefix is bound by the attribute under the cursor,
and what is typed begins with `xmlns:` (`cursor?_of_binds_marked`). That is a hump of its own. A
name without a colon does not begin with it, and a name with a prefix does, if case is ignored, for
one prefix only, which is too short for the marker (`not_marked_of_searched`).
-/

namespace LayoutCompletion

open Text Matching Markup Markup.Scan

/-- The marker is in the text. -/
def Marked (s : String) : Prop :=
  caretMarker.toList <:+: s.toList

instance (s : String) : Decidable (Marked s) :=
  inferInstanceAs (Decidable (_ <:+: _))

variable {order : Enumeration} {ctx : CompletionContext} {d : Document} {node index : Nat}
  {a : Attribute} {head behind front back typed : List Char} {space name uri : String}

/-! ## Where the marker is -/

theorem not_mem_caretMarker : ∀ c ∈ emptyValue.toList, c ∉ caretMarker.toList := by
  have hother : AllOf (fun c => !isNameChar c) emptyValue.toList := by decide
  intro c hc hmarker
  have hnone : (!isNameChar c) = true := hother c hc
  rw [allOf_caretMarker c hmarker] at hnone
  cases hnone

/-- If the marker was not in the text before, then it is at the cursor only. -/
theorem eq_of_splice (hfree : ¬caretMarker.toList <:+: head ++ behind)
    (h : front ++ (caretMarker.toList ++ back) = CompletionRequest.splice head behind) :
    front = head := by
  have hbehind : behind.takeWhile isTypedChar ++ behind.dropWhile isTypedChar = behind :=
    List.takeWhile_append_dropWhile
  unfold CompletionRequest.splice at h
  simp only [List.append_assoc] at h
  rw [caretMarker_toList] at h
  refine eq_of_append_word (by decide) ?_ ?_ h
  · rw [← caretMarker_toList]
    exact fun hhead => hfree (hhead.trans (List.prefix_append _ _).isInfix)
  · rw [← caretMarker_toList]
    intro hafter
    -- no value that is put behind the name makes a marker out of what stands around it
    have hmarker : caretMarker.toList <:+: behind := by
      split at hafter
      · rw [List.nil_append, hbehind] at hafter
        exact hafter
      · rcases infix_of_append_append not_mem_caretMarker (by decide) hafter with htail | hrest
        · exact htail.trans (List.takeWhile_prefix _).isInfix
        · exact hrest.trans (List.dropWhile_suffix _).isInfix
    exact hfree (hmarker.trans (List.suffix_append _ _).isInfix)

/-- An attribute with the marker in its name is the one under the cursor. -/
theorem cursor?_of_marked (hfree : ¬caretMarker.toList <:+: head ++ behind)
    (hparse : Document.parseChars (CompletionRequest.splice head behind) = .ok d)
    (ha : (d.attributes node)[index]? = some a)
    (hname : a.name.toList = typed ++ (caretMarker.toList ++ back)) :
    d.cursor? (utf8Length head) = some ⟨node, index, typed⟩ := by
  rw [← Document.parse_ofList] at hparse
  have hnamed := (Document.placedIn_of_parse hparse).named node a (List.mem_of_getElem? ha)
  obtain ⟨front, rest, htext, hstart, -⟩ := hnamed.holds
  rw [String.toList_ofList, hname] at htext
  have hhead : front ++ typed = head := by
    have hsplice : front ++ typed ++ (caretMarker.toList ++ (back ++ rest)) =
        CompletionRequest.splice head behind := by
      rw [htext]
      simp only [List.append_assoc]
    exact eq_of_splice hfree hsplice
  rw [← hhead, utf8Length_append, ← hstart]
  exact cursor?_of_attribute hparse ha hname

/-- If a prefix with the marker in it is bound anywhere, then the cursor is in its declaration. -/
theorem cursor?_of_binds_marked (hfree : ¬caretMarker.toList <:+: head ++ behind)
    (hparse : Document.parseChars (CompletionRequest.splice head behind) = .ok d)
    (hbinds : d.Binds space uri node) (hmarked : Marked space) :
    ∃ owner index front,
      d.cursor? (utf8Length head) = some ⟨owner, index, "xmlns".toList ++ ':' :: front⟩ := by
  obtain ⟨owner, howner⟩ := hbinds.exists_mem_declarations
  obtain ⟨a, ha, hsome⟩ := List.mem_filterMap.mp howner
  split at hsome
  · next hqualifier =>
    obtain ⟨rfl, rfl⟩ := Prod.mk.inj (Option.some.inj hsome)
    obtain ⟨index, hindex⟩ := List.mem_iff_getElem?.mp ha
    obtain ⟨front, back, hbase⟩ := hmarked
    have hname :
        a.name.toList = "xmlns".toList ++ ':' :: front ++ (caretMarker.toList ++ back) := by
      rw [Attribute.name, hqualifier, qualify, if_neg (by decide), String.toList_append,
        String.toList_append, ← hbase]
      simp
    exact ⟨owner, index, front, cursor?_of_marked hfree hparse hindex hname⟩
  · cases hsome

/-! ## What a declaration matches -/

theorem humps_xmlns (front : List Char) :
    humps ("xmlns".toList ++ ':' :: front) = ("xmlns".toList ++ [':']) :: humps front := by
  have hword : "xmlns".toList = ['x', 'm', 'l', 'n', 's'] := by decide
  rw [hword]
  rfl

theorem map_toLower_xmlns :
    ("xmlns".toList ++ [':']).map Char.toLower = "xmlns".toList ++ [':'] := by
  decide

/-- A name with a prefix matches a declaration for one prefix only. -/
theorem eq_xmlns_of_matches {space name : List Char} (hspace : ':' ∉ space)
    (h : classifyChars (space ++ ':' :: name) ("xmlns".toList ++ ':' :: front) ≠ .unmatched) :
    space.map Char.toLower = "xmlns".toList := by
  obtain ⟨rest, hrest⟩ := hump_prefix_of_matches h (humps_xmlns front)
  have hcolon : ':' ∉ space.map Char.toLower := mt colon_mem_map_toLower.mp hspace
  rw [map_toLower_xmlns, List.map_append, List.map_cons, List.append_assoc] at hrest
  exact (split_unique (by decide) hcolon hrest).1.symm

/-- A name without a colon matches no declaration. -/
theorem colon_mem_of_matches {name : List Char}
    (h : classifyChars name ("xmlns".toList ++ ':' :: front) ≠ .unmatched) : ':' ∈ name := by
  have hbegins := hump_prefix_of_matches h (humps_xmlns front)
  rw [map_toLower_xmlns] at hbegins
  exact colon_mem_map_toLower.mp (hbegins.subset (by simp))

/-- In a declaration, nothing is found behind a prefix with the marker in it. -/
theorem not_marked_of_searched {package : Package} {quality : Quality} (hd : d.Sound)
    (h : Searched .camelHumps d node ctx.resources ("xmlns".toList ++ ':' :: front) space package
      name quality) (hname : ':' ∉ name.toList) (hmatch : quality ≠ .unmatched) :
    ¬Marked space := by
  have hprefix := h.isPrefix hd
  generalize htyped : "xmlns".toList ++ ':' :: front = typed at h
  cases h with
  | bound _ hcut hspace _ _ =>
    rw [hcut] at htyped
    obtain ⟨rfl, -⟩ := split_unique (by decide) hspace htyped
    decide
  | unbound _ _ _ _ =>
    subst htyped
    simp only [camelHumps_classify, String.toList_ofList] at hmatch
    rcases Quality.best_ne_unmatched.mp hmatch with hlabel | hbare
    · have hcolon : ":".toList = [':'] := by decide
      rw [String.toList_append, String.toList_append, hcolon, List.append_assoc] at hlabel
      have hlength := congrArg List.length (eq_xmlns_of_matches hprefix.2 hlabel)
      rw [List.length_map] at hlength
      intro hmarked
      exact absurd (hlength ▸ hmarked.length_le) (by decide)
    · exact absurd (colon_mem_of_matches hbare) hname

/-! ## No marker comes out -/

namespace ResourceRegistry

/-- A styleable of some package lists an attribute of this name. -/
def Lists (r : ResourceRegistry) (name : String) : Prop :=
  ∃ p ∈ r.allPackages, ∃ owner, p.Lists name owner

end ResourceRegistry

/--
**No completion shows the marker.**

If neither the text nor a listed name has the marker in it, and no listed name has a colon, then the
marker is in no prefix, no name and no label of a completion, wherever in the text the cursor is.
-/
theorem completeBy_unmarked {text : String} {offset : Nat} {list : CompletionList} {c : Candidate}
    (htext : ¬Marked text)
    (hnames : ∀ name, ctx.resources.Lists name → ¬Marked name ∧ ':' ∉ name.toList)
    (hok : completeBy order ctx text offset = .ok list) (hc : c ∈ list.items) :
    ¬Marked c.space ∧ ¬Marked c.name ∧ ¬Marked c.label := by
  obtain ⟨head, behind, d, hcut, rfl, hsplice, hin⟩ := exists_of_completeBy hok
  have hparse := (Document.parse_ofList _).trans hsplice
  have hd := Document.sound_of_parse hparse
  obtain ⟨cursor, hcursor, hoffered⟩ := exists_offered hparse hin hc
  obtain ⟨uri, hbinds, p, hp, hlists⟩ := hoffered.exists_lists
  obtain ⟨hname, hcolon⟩ := hnames c.name ⟨p, ResourceRegistry.mem_allPackages hp, _, hlists⟩
  obtain ⟨searched, _, _, hsearched, -, -, hmatch, -⟩ := hoffered
  have hspace : ¬Marked c.space := by
    intro hmarked
    rw [Marked, hcut] at htext
    obtain ⟨owner, index, front, hdeclaring⟩ :=
      cursor?_of_binds_marked htext hsplice hbinds hmarked
    obtain rfl := Option.some.inj (hdeclaring.symm.trans hcursor)
    exact not_marked_of_searched hd hsearched hcolon hmatch hmarked
  refine ⟨hspace, hname, ?_⟩
  have hlist : ":".toList = [':'] := by decide
  rw [Candidate.label, qualify_of_isPrefix (hbinds.isPrefix hd), Marked, String.toList_append,
    String.toList_append, hlist, List.append_assoc]
  intro hlabel
  exact (infix_of_append_cons (by decide) hlabel).elim hspace hname

/-! ## A cursor in a declaration -/

theorem Package.lists_insertStyleable {p : Package} {styleable name : String} {owner : PackageName}
    {attributes : List (String × AttrFormat)}
    (h : (p.insertStyleable styleable attributes).Lists name owner) :
    name ∈ attributes.map Prod.fst ∨ p.Lists name owner := by
  obtain ⟨declared, group, hgroup, a, ha, rfl, rfl⟩ := h
  rcases styleable?_insert hgroup with hnew | hold
  · obtain rfl := ResourceValue.styleable.inj hnew
    obtain ⟨b, hb, rfl⟩ := List.mem_map.mp ha
    exact Or.inl (List.mem_map.mpr ⟨b, hb, rfl⟩)
  · exact Or.inr ⟨declared, group, hold, a, ha, rfl, rfl⟩

/-- The cursor is to be behind the last `t`, in a name that binds a prefix. -/
def declaringText : String :=
  "<lib.View xmlns:XMLNS=\x22http://schemas.android.com/apk/res/lib\x22" ++
    " xmlns:t=\x22http://schemas.android.com/apk/res/lib\x22/>"

/-- With the marker in it, the text binds a prefix that has the marker in it. -/
def declaringDocument : Document where
  elements := #[{
    tag := "lib.View"
    span := ⟨0, 129⟩
    attributes := [⟨"xmlns", "XMLNS", libUri, ⟨10, 21⟩, ⟨10, 62⟩⟩,
      ⟨"xmlns", "tLayoutAttrsCaret", libUri, ⟨63, 86⟩, ⟨63, 127⟩⟩]
    parent := none
    children := [] }]

theorem complete_declaringText : complete (libContext owningTable) declaringText 70 =
    completeIn (libContext owningTable) declaringDocument 70 := by
  have hcut : (splitAtByte? declaringText.toList 70).map
      (fun cut => (Document.parseChars (CompletionRequest.splice cut.1 cut.2)).toOption) =
      some (some declaringDocument) := by
    decide +kernel
  obtain ⟨⟨head, behind⟩, hcut, hparse⟩ := Option.map_eq_some_iff.mp hcut
  obtain ⟨htext, hoffset⟩ := append_of_splitAtByte? hcut
  rw [complete, completeBy, htext, hoffset, completeCharsBy_append (eq_ok_of_toOption hparse),
    completeIn]

theorem unmarked_of_owningTable (name : String)
    (h : (libContext owningTable).resources.Lists name) : ¬Marked name ∧ ':' ∉ name.toList := by
  obtain ⟨p, hp, owner, hlists⟩ := h
  have hpackages : (libContext owningTable).resources.allPackages = [owningPackage] := by decide
  rw [hpackages] at hp
  obtain rfl := List.mem_singleton.mp hp
  rcases Package.lists_insertStyleable hlists with hnew | ⟨_, _, hold, -⟩
  · obtain rfl := List.mem_singleton.mp hnew
    decide
  · cases hold

/-- Nothing is found behind the prefix that is bound at the cursor, but behind the other one. -/
theorem completeBy_unmarked_declaration :
    (declaringDocument.declarations 0).map Prod.fst = ["XMLNS", "tLayoutAttrsCaret"] ∧
      ∃ list, complete (libContext owningTable) declaringText 70 = .ok list ∧
        ∃ c ∈ list.items, c.label = "XMLNS:text" ∧
          ¬Marked c.space ∧ ¬Marked c.name ∧ ¬Marked c.label := by
  have hitems : (completeIn (libContext owningTable) declaringDocument 70).toOption.map
      CompletionList.items = some [⟨"text", "XMLNS", ⟨"lib"⟩, ⟨2⟩, .loose⟩] := by
    decide +kernel
  obtain ⟨list, hlist, hitems⟩ := Option.map_eq_some_iff.mp hitems
  have hok := complete_declaringText.trans (eq_ok_of_toOption hlist)
  have hc : ⟨"text", "XMLNS", ⟨"lib"⟩, ⟨2⟩, .loose⟩ ∈ list.items := by
    rw [hitems]
    exact .head _
  have htext : ¬Marked declaringText := fun h =>
    absurd (h.subset (by decide : 'C' ∈ caretMarker.toList)) (by decide +kernel)
  exact ⟨by decide, list, hok, _, hc, by decide,
    completeBy_unmarked htext unmarked_of_owningTable hok hc⟩

end LayoutCompletion
