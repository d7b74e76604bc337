import LayoutCompletion.Proofs.Text.Quoted
import LayoutCompletion.Proofs.View.Names
import LayoutCompletion.Proofs.View.Plain

/-!
# Nothing is lost in rendering

From the lines of a view everything that it shows can be told (`View.print_eq_iff`). A line tells
the tag and the attributes of its element and where it ends (`View.line_append_inj`), since names
end where no name goes on, and values are in quotes. How far a line is indented tells which elements
are in which: what follows the lines of a row of views is not indented as far as these are
(`View.Shallow`).
-/

namespace LayoutCompletion.View

open Markup Markup.Scan Text

variable {depth : Nat} {tag tag' : String} {attributes attributes' : List (String × String)}
  {rest rest' : List Char} {view other : View}

/-! ## Lines -/

theorem toList_attributeText (name value : String) :
    (attributeText (name, value)).toList =
      ' ' :: (name.toList ++ '=' :: quotedChars value.toList) := by
  simp [attributeText, quoted, String.toList_append]

theorem toList_line (depth : Nat) (tag : String) (attributes : List (String × String)) :
    (line depth tag attributes).toList =
      List.replicate (2 * depth) ' ' ++ (tag.toList ++
        ((attributes.flatMap fun a => (attributeText a).toList) ++ ['\n'])) := by
  have hnewline : "\n".toList = ['\n'] := rfl
  rw [line, String.toList_append, String.toList_append, String.toList_append, String.toList_ofList,
    String.toList_join, List.flatMap_map, hnewline, List.append_assoc, List.append_assoc]

/-- Attributes tell their names and values and where the line ends. -/
theorem attributes_append_inj (h : ∀ a ∈ attributes, IsName a.1)
    (h' : ∀ a ∈ attributes', IsName a.1)
    (heq : (attributes.flatMap fun a => (attributeText a).toList) ++ '\n' :: rest =
      (attributes'.flatMap fun a => (attributeText a).toList) ++ '\n' :: rest') :
    attributes = attributes' ∧ rest = rest' := by
  have hequals (rest : List Char) : Ends QualifiedName.continues ('=' :: rest) :=
    ends_cons.mpr (by decide)
  induction attributes generalizing attributes' with
  | nil =>
    cases attributes' with
    | nil => exact ⟨rfl, (List.cons.inj heq).2⟩
    | cons a' attributes' =>
      rw [List.flatMap_cons, toList_attributeText] at heq
      exact absurd (List.cons.inj heq).1 (by decide)
  | cons a attributes ih =>
    obtain ⟨name, value⟩ := a
    rw [List.flatMap_cons, toList_attributeText] at heq
    cases attributes' with
    | nil => exact absurd (List.cons.inj heq).1 (by decide)
    | cons a' attributes' =>
      obtain ⟨name', value'⟩ := a'
      rw [List.flatMap_cons, toList_attributeText] at heq
      rw [List.forall_mem_cons] at h h'
      simp only [List.cons_append, List.append_assoc, List.cons.injEq, true_and] at heq
      obtain ⟨hname, hquoted⟩ :=
        append_inj_of_ends h.1.1 (hequals _) h'.1.1 (hequals _) heq
      obtain ⟨hvalue, hlater⟩ := quotedChars_append_inj (List.cons.inj hquoted).2
      obtain ⟨rfl, hrest⟩ := ih h.2 h'.2 hlater
      obtain rfl := String.toList_inj.mp hname
      obtain rfl := String.toList_inj.mp hvalue
      exact ⟨rfl, hrest⟩

/-- A line tells the tag and the attributes of its element and where it ends. -/
theorem line_append_inj (htag : IsName tag) (hattributes : ∀ a ∈ attributes, IsName a.1)
    (htag' : IsName tag') (hattributes' : ∀ a ∈ attributes', IsName a.1)
    (heq : (line depth tag attributes).toList ++ rest =
      (line depth tag' attributes').toList ++ rest') :
    tag = tag' ∧ attributes = attributes' ∧ rest = rest' := by
  have hends (attributes : List (String × String)) (rest : List Char) :
      Ends QualifiedName.continues
        ((attributes.flatMap fun a => (attributeText a).toList) ++ '\n' :: rest) := by
    cases attributes with
    | nil => exact ends_cons.mpr (by decide)
    | cons a attributes =>
      rw [List.flatMap_cons, toList_attributeText]
      exact ends_cons.mpr (by decide)
  simp only [toList_line, List.append_assoc, List.append_cancel_left_eq, List.singleton_append]
    at heq
  obtain ⟨hname, hlater⟩ := append_inj_of_ends htag.1 (hends _ _) htag'.1 (hends _ _) heq
  obtain ⟨rfl, hrest⟩ := attributes_append_inj hattributes hattributes' hlater
  exact ⟨String.toList_inj.mp hname, rfl, hrest⟩

/-! ## Indentation -/

/-- The text does not begin with a line that is indented to this depth or further. -/
def Shallow (depth : Nat) (rest : List Char) : Prop :=
  ¬List.replicate (2 * depth) ' ' <+: rest

theorem Shallow.succ (h : Shallow depth rest) : Shallow (depth + 1) rest := by
  intro hbegins
  refine h (List.IsPrefix.trans ⟨[' ', ' '], ?_⟩ hbegins)
  rw [Nat.mul_add, List.replicate_add]
  rfl

/-- A line is indented to its own depth. -/
theorem not_shallow_line : ¬Shallow depth ((line depth tag attributes).toList ++ rest) := by
  rw [toList_line, List.append_assoc]
  exact fun h => h (List.prefix_append _ _)

/-- A line is indented no further, since no tag begins with a space. -/
theorem shallow_succ_line (htag : IsName tag) :
    Shallow (depth + 1) ((line depth tag attributes).toList ++ rest) := by
  obtain ⟨-, c, hhead, hstart⟩ := htag
  obtain ⟨cs, hcs⟩ := List.head?_eq_some_iff.mp hhead
  intro hbegins
  rw [toList_line, hcs, Nat.mul_add, List.replicate_add, List.append_assoc,
    List.prefix_append_right_inj] at hbegins
  obtain ⟨more, hmore⟩ := hbegins
  obtain rfl : ' ' = c := (List.cons.inj hmore).1
  exact absurd hstart (by decide)

/-! ## Views -/

/-- What a view shows is an element. -/
theorem exists_plain_eq (view : View) :
    ∃ tag attributes children, view.plain = .element tag attributes children := by
  cases view with
  | element tag attributes children => exact ⟨tag, attributes, plainAll children, rfl⟩
  | included root => exact exists_plain_eq root

mutual

/-- What a view shows stands for nothing else. -/
theorem plain_plain : (view : View) → view.plain.plain = view.plain
  | .element tag attributes children => by
    rw [plain, plain, plainAll_plainAll children]
  | .included root => plain_plain root

theorem plainAll_plainAll : (views : List View) → plainAll (plainAll views) = plainAll views
  | [] => rfl
  | view :: views => by
    rw [plainAll, plainAll, plain_plain view, plainAll_plainAll views]

end

theorem Named.plain (h : view.Named) : view.plain.Named := by
  induction h with
  | element htag hattributes _ ih =>
    refine .element htag hattributes fun child hchild => ?_
    rw [plainAll_eq_map] at hchild
    obtain ⟨inner, hinner, rfl⟩ := List.mem_map.mp hchild
    exact ih inner hinner
  | included _ ih => exact ih

theorem toList_print_element (depth : Nat) (tag : String) (attributes : List (String × String))
    (children : List View) (rest : List Char) :
    ((element tag attributes children).print depth).toList ++ rest =
      (line depth tag attributes).toList ++ ((printAll (depth + 1) children).toList ++ rest) := by
  rw [print, String.toList_append, List.append_assoc]

theorem toList_printAll_cons (depth : Nat) (view : View) (views : List View) (rest : List Char) :
    (printAll depth (view :: views)).toList ++ rest =
      (view.print depth).toList ++ ((printAll depth views).toList ++ rest) := by
  rw [printAll, String.toList_append, List.append_assoc]

/-- The lines of a view begin with one of its own depth. -/
theorem Named.exists_line (h : view.Named) (depth : Nat) (rest : List Char) :
    ∃ tag attributes behind, IsName tag ∧
      (view.print depth).toList ++ rest = (line depth tag attributes).toList ++ behind := by
  induction h with
  | @element tag attributes children htag _ _ _ =>
    exact ⟨tag, attributes, _, htag, toList_print_element depth tag attributes children rest⟩
  | included _ ih => exact ih

/-- What follows the lines of a view is not indented further than they are. -/
theorem shallow_succ_printAll {views : List View} (hviews : ∀ view ∈ views, view.Named)
    (hrest : Shallow depth rest) :
    Shallow (depth + 1) ((printAll depth views).toList ++ rest) := by
  cases views with
  | nil => exact hrest.succ
  | cons view views =>
    obtain ⟨tag, attributes, behind, htag, hline⟩ :=
      (List.forall_mem_cons.mp hviews).1.exists_line depth ((printAll depth views).toList ++ rest)
    rw [toList_printAll_cons, hline]
    exact shallow_succ_line htag

/-- Where nothing follows that is indented as far, there is no further view. -/
theorem printAll_cons_ne {views : List View} (h : view.Named) (hrest : Shallow depth rest)
    (rest' : List Char) : (printAll depth (view :: views)).toList ++ rest' ≠ rest := by
  rintro rfl
  obtain ⟨tag, attributes, behind, -, hline⟩ :=
    h.exists_line depth ((printAll depth views).toList ++ rest')
  rw [toList_printAll_cons, hline] at hrest
  exact not_shallow_line hrest

mutual

/-- The lines of a view tell what it shows and where they end. -/
theorem print_append_inj (depth : Nat) :
    (view : View) → view.Named → ∀ {other : View}, other.Named →
      ∀ {rest rest' : List Char}, Shallow (depth + 1) rest → Shallow (depth + 1) rest' →
        (view.print depth).toList ++ rest = (other.print depth).toList ++ rest' →
          view.plain = other.plain ∧ rest = rest'
  | .element tag attributes children, h, other, hother, rest, rest', hrest, hrest', heq => by
    obtain ⟨tag', attributes', children', hplain⟩ := exists_plain_eq other
    have hnamed := hother.plain
    have hsettled : plainAll children' = children' := by
      have hsame := plain_plain other
      rw [hplain, plain] at hsame
      exact (View.element.inj hsame).2.2
    rw [hplain] at hnamed
    rw [← print_plain depth other, hplain, toList_print_element, toList_print_element] at heq
    obtain ⟨htag, hattributes, hchildren⟩ := h
    obtain ⟨htag', hattributes', hchildren'⟩ := hnamed
    obtain ⟨rfl, rfl, hlater⟩ := line_append_inj htag hattributes htag' hattributes' heq
    obtain ⟨hsame, rfl⟩ :=
      printAll_append_inj (depth + 1) children hchildren hchildren' hrest hrest' hlater
    rw [hplain, plain, hsame, hsettled]
    exact ⟨rfl, rfl⟩
  | .included root, h, other, hother, rest, rest', hrest, hrest', heq => by
    cases h with
    | included hroot => exact print_append_inj depth root hroot hother hrest hrest' heq

/-- The lines of views tell what they show and where they end. -/
theorem printAll_append_inj (depth : Nat) :
    (views : List View) → (∀ view ∈ views, view.Named) →
      ∀ {others : List View}, (∀ view ∈ others, view.Named) →
        ∀ {rest rest' : List Char}, Shallow depth rest → Shallow depth rest' →
          (printAll depth views).toList ++ rest = (printAll depth others).toList ++ rest' →
            plainAll views = plainAll others ∧ rest = rest'
  | [], _, [], _, rest, rest', _, _, heq => ⟨rfl, heq⟩
  | [], _, other :: others, hothers, rest, rest', hrest, _, heq =>
    absurd heq.symm (printAll_cons_ne (hothers other List.mem_cons_self) hrest rest')
  | view :: views, hviews, [], _, rest, rest', _, hrest', heq =>
    absurd heq (printAll_cons_ne (hviews view List.mem_cons_self) hrest' rest)
  | view :: views, hviews, other :: others, hothers, rest, rest', hrest, hrest', heq => by
    rw [List.forall_mem_cons] at hviews hothers
    rw [toList_printAll_cons, toList_printAll_cons] at heq
    obtain ⟨hview, hlater⟩ := print_append_inj depth view hviews.1 hothers.1
      (shallow_succ_printAll hviews.2 hrest) (shallow_succ_printAll hothers.2 hrest') heq
    obtain ⟨hviews, hrest⟩ :=
      printAll_append_inj depth views hviews.2 hothers.2 hrest hrest' hlater
    rw [plainAll, plainAll, hview, hviews]
    exact ⟨rfl, hrest⟩

end

theorem shallow_succ_nil (depth : Nat) : Shallow (depth + 1) [] := by
  intro hbegins
  have hlength := hbegins.length_le
  rw [List.length_replicate, List.length_nil] at hlength
  omega

/--
**Rendering loses nothing.**

All views of documents are named. Two views with names have the same lines at a depth if, and only
if, they show the same: the same tags, attributes and children, whatever stands for layouts.
-/
theorem print_eq_iff :
    (∀ (text : String) (d : Document) (layouts : Layouts) (view : View),
      Document.parse text = .ok d →
      (∀ name inner, layouts.get? name = some inner → ∃ text, Document.parse text = .ok inner) →
      d.view? layouts = some view → view.Named) ∧
    ∀ view other : View, view.Named → other.Named →
      ∀ depth, view.print depth = other.print depth ↔ view.plain = other.plain := by
  refine ⟨fun _ _ _ _ hparse hlayouts h => named_of_view? hparse hlayouts h,
    fun view other hview hother depth => ⟨fun heq => ?_, fun hsame => ?_⟩⟩
  · have hlines : (view.print depth).toList ++ [] = (other.print depth).toList ++ [] := by rw [heq]
    exact (print_append_inj depth view hview hother (shallow_succ_nil depth)
      (shallow_succ_nil depth) hlines).1
  · rw [← print_plain depth view, hsame, print_plain depth other]

/-- A view with an attribute that looks like another one and a child. -/
def forgedView : View :=
  .element "View" [("id", "\" text=\"\n  View")] []

/-- A view that has these. -/
def honestView : View :=
  .included (.element "View" [("id", ""), ("text", "\n")] [.element "View" [] []])

/-- A layout that cannot be included is shown as it is. -/
def missingText : String := "<p:View><include layout=\"@layout/a\"/></p:View>"

/-- The lines of the two views differ, and the view of a text is named. -/
theorem print_eq_iff_forgedView :
    (∃ d view, Document.parse missingText = .ok d ∧ d.view? .empty = some view ∧ view.Named) ∧
      forgedView.Named ∧ honestView.Named ∧ forgedView.print 1 ≠ honestView.print 1 := by
  have hparse : Document.parse missingText =
      .ok (Document.ofTokens (tokens missingText.toList).tokens) :=
    eq_ok_of_toOption (by decide +kernel)
  have hsome : ((Document.ofTokens (tokens missingText.toList).tokens).view? .empty).isSome :=
    by decide +kernel
  obtain ⟨view, hview⟩ := Option.isSome_iff_exists.mp hsome
  have htag : IsName "View" := ⟨by decide, 'V', rfl, .inl (by decide)⟩
  have hid : IsName "id" := ⟨by decide, 'i', rfl, .inl (by decide)⟩
  have htext : IsName "text" := ⟨by decide, 't', rfl, .inl (by decide)⟩
  have hforged : forgedView.Named := .element htag (by simp [hid]) (by simp)
  have hhonest : honestView.Named :=
    .included (.element htag (by simp [hid, htext])
      (List.forall_mem_singleton.mpr (.element htag (by simp) (by simp))))
  refine ⟨⟨_, view, hparse, hview, ?_⟩, hforged, hhonest, fun heq => ?_⟩
  · exact print_eq_iff.1 missingText _ .empty view hparse (fun _ _ h => by cases h) hview
  · have hsame := (print_eq_iff.2 forgedView honestView hforged hhonest 1).mp heq
    simp [forgedView, honestView, plain, plainAll] at hsame

end LayoutCompletion.View
