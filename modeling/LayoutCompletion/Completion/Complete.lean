import LayoutCompletion.Completion.Ranking
import LayoutCompletion.Completion.Request
import LayoutCompletion.Document.Build
import LayoutCompletion.Document.Query
import LayoutCompletion.Namespaces
import LayoutCompletion.Styleable.Hierarchy

/-!
# Completing an attribute name

What is typed of a name tells which packages are searched. A prefix that is bound to a namespace
stands for the packages behind it; otherwise every declared prefix is tried. Each package gives
the attributes of the styleables that apply to the element.

These styleables are a set, and a request may go through it in any order (`Enumeration`). So what is
said of a request is said for every order (`completeInBy`, `completeBy`), and two requests need not
go by the same one. The requests that are run take the styleables as they were found (`completeIn`,
`complete`).
-/

namespace LayoutCompletion

/-- What a request reads. -/
structure CompletionContext where
  widgets : WidgetIndex
  resources : ResourceRegistry
  settings : CompletionSettings
deriving DecidableEq, Repr

/-- Why there is no list of completions. -/
inductive CompletionError
  /-- No attribute name stands at the offset. -/
  | invalidRequest (offset : Nat)
  /-- The text has no element. -/
  | malformed (cause : Malformed)
deriving DecidableEq, Repr

namespace CompletionError

/-- What people read about the error. -/
def message : CompletionError → String
  | invalidRequest offset => "no attribute name at offset " ++ toString offset
  | malformed cause => "could not parse layout: " ++ cause.message

/-- What people read about the place of the error. -/
def label : CompletionError → String
  | invalidRequest _ => "requested here"
  | malformed _ => "parsing stopped here"

/-- The byte offset that the error is about. -/
def offset : CompletionError → Nat
  | invalidRequest offset => offset
  | malformed cause => cause.offset

/-- A fixed name for the kind of error. -/
def code : CompletionError → String
  | invalidRequest _ => "layout_attrs::invalid_request"
  | malformed _ => "layout_attrs::malformed"

/-- What people can do about the error. -/
def help? : CompletionError → Option String
  | invalidRequest _ =>
    some "completions must be requested inside or at the end of an attribute name"
  | malformed _ => none

end CompletionError

/-- What to search, and what to match there. -/
structure Search where
  targets : List SearchTarget
  needle : Needle
deriving DecidableEq, Repr

/-- The search for a typed text whose prefix is bound at the node. -/
def boundSearch? (d : Document) (node : Nat) (r : ResourceRegistry) (typed : List Char) :
    Option Search := do
  let (space, base) ← Text.splitFirst? ':' typed
  let uri ← d.namespaceUri? node (String.ofList space)
  pure ⟨targetsFor r uri (String.ofList space), .bare (String.ofList base)⟩

/-- The search for a typed text. -/
def Search.ofTyped (d : Document) (node : Nat) (r : ResourceRegistry) (typed : List Char) :
    Search :=
  (boundSearch? d node r typed).getD ⟨fanOut d node r, .qualified (String.ofList typed)⟩

/--
The order in which a search goes through the styleables of an element, for each place among its
targets.

No order of a set is given. It may be another for every target, and another in the next request.
-/
structure Enumeration where
  arrange : Nat → StyleableSet → StyleableSet
  perm : ∀ place set, (arrange place set).groups.entries.Perm set.groups.entries

/-- The order in which the styleables were put into the set. -/
def Enumeration.asFound : Enumeration where
  arrange _ set := set
  perm _ _ := List.Perm.refl _

/-- Everything that a search finds for an element, in the order in which it goes through
styleables. -/
def Search.candidatesBy (order : Enumeration) (s : Search) (matcher : Matcher)
    (widgets : WidgetIndex) (d : Document) (node : Nat) : List Candidate :=
  s.targets.zipIdx.flatMap fun (target, place) =>
    assemble (order.arrange place (widgets.resolve d node target.package)) s.needle target.space
      matcher

/-- An attribute name under a cursor, and what of it stands before the cursor. -/
structure Cursor where
  node : Nat
  index : Nat
  typed : List Char
deriving DecidableEq, Repr

/-- The attribute name at an offset, unless the offset is inside a character of it. -/
def Document.cursor? (d : Document) (offset : Nat) : Option Cursor := do
  let (node, index) ← d.findAttribute? offset
  let a ← (d.attributes node)[index]?
  let (typed, _) ← Text.splitAtByte? a.name.toList (offset - a.nameSpan.start)
  pure ⟨node, index, typed⟩

/-- The completions for the attribute name at an offset of a document, made with what is found in
this order. -/
def completeInBy (order : Enumeration) (ctx : CompletionContext) (d : Document) (offset : Nat)
    (matcher : Matcher := .camelHumps) : Except CompletionError CompletionList :=
  match d.cursor? offset with
  | none => .error (.invalidRequest offset)
  | some cursor =>
    let search := Search.ofTyped d cursor.node ctx.resources cursor.typed
    .ok (CompletionList.ofCandidates ctx.settings (d.attributes cursor.node) cursor.index
      (search.candidatesBy order matcher ctx.widgets d cursor.node))

/-- The completions for the attribute name at an offset of a text, made with what is found in this
order. -/
def completeCharsBy (order : Enumeration) (ctx : CompletionContext) (text : List Char)
    (offset : Nat) (matcher : Matcher := .camelHumps) : Except CompletionError CompletionList :=
  match CompletionRequest.prepareChars text offset with
  | .error e => .error (.invalidRequest e.offset)
  | .ok request =>
    match Document.parseChars request.text with
    | .error e => .error (.malformed e)
    | .ok d => completeInBy order ctx d request.offset matcher

/-- The completions for the attribute name at an offset of a text, made with what is found in this
order. -/
def completeBy (order : Enumeration) (ctx : CompletionContext) (text : String) (offset : Nat)
    (matcher : Matcher := .camelHumps) : Except CompletionError CompletionList :=
  completeCharsBy order ctx text.toList offset matcher

/-- The completions for the attribute name at an offset of a document. -/
def completeIn (ctx : CompletionContext) (d : Document) (offset : Nat)
    (matcher : Matcher := .camelHumps) : Except CompletionError CompletionList :=
  completeInBy .asFound ctx d offset matcher

/-- The completions for the attribute name at an offset of a text. -/
def complete (ctx : CompletionContext) (text : String) (offset : Nat)
    (matcher : Matcher := .camelHumps) : Except CompletionError CompletionList :=
  completeBy .asFound ctx text offset matcher

end LayoutCompletion
