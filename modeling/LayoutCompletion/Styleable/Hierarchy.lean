import LayoutCompletion.Document.Basic
import LayoutCompletion.Styleable.Set
import LayoutCompletion.Widget.Ancestry

/-!
# The styleables of a node

Attributes are declared for classes, not for tags. A node has the styleables of its own class and
of every class above it, and the layout parameters that the class of its parent offers to
children. Nothing further out counts.

`applicableNames` lists the names of these styleables, whatever package is asked;
`resolve` picks those that a package declares.
-/

namespace LayoutCompletion

/-- What ends the name of a class's layout parameters. -/
def layoutSuffix : String := "_Layout"

/-- What ends the name of a class's layout parameters with margins. -/
def marginLayoutSuffix : String := "_MarginLayout"

/-- The styleable of what every widget has. -/
def baseStyleable : String := "View"

/-- The simple name of the class that every container extends. -/
def rootContainerName : String := "ViewGroup"

/-- The qualified name of the class that every container extends. -/
def rootContainer : String := "android.view.ViewGroup"

/-- The styleable of the layout parameters that every container offers. -/
def containerLayout : String := "ViewGroup_Layout"

/-- The styleable of the layout parameters with margins of the root container. -/
def containerMarginLayout : String := "ViewGroup_MarginLayout"

/-- What a tag stands for. -/
inductive WidgetClass
  /-- A class in the index. -/
  | known (widget : Widget)
  /-- A dotted tag that no class in the index has. By convention its simple name is the name of
  its styleable. -/
  | convention (name : String)
  /-- Nothing that could be guessed. -/
  | unresolved
deriving DecidableEq, Repr

namespace WidgetIndex

/-- What a tag stands for. -/
def classify (index : WidgetIndex) (tag : String) : WidgetClass :=
  match index.lookup? tag with
  | some widget => .known widget
  | none => if isDotted tag then .convention (simpleName tag) else .unresolved

/-- The simple names of a class and of all above it, its own first. -/
def lineage (index : WidgetIndex) (w : Widget) : List String :=
  w.simpleName :: (index.superclassChain w).map simpleName

/-- Is this the class that every container extends? -/
def isRootContainer (name : String) : Bool :=
  name = rootContainer || name = rootContainerName

/-- The names of the styleables that a node has from its own class. -/
def ownNames (index : WidgetIndex) : WidgetClass → List String
  | .unresolved => []
  | .convention name => [baseStyleable, name]
  | .known w =>
    baseStyleable :: index.lineage w ++
      if (index.superclassChain w).any isRootContainer then [containerMarginLayout] else []

/-- The names of the layout parameters that a class offers to children. -/
def layoutNames (index : WidgetIndex) : WidgetClass → List String
  | .known w => (index.lineage w).flatMap fun c => [c ++ layoutSuffix, c ++ marginLayoutSuffix]
  | _ => []

/-- The names of the layout parameters that a node has from its parent. -/
def parentNames (index : WidgetIndex) (d : Document) (node : Nat) : List String :=
  match d.parent? node with
  | none => []
  | some parent =>
    containerLayout :: containerMarginLayout :: index.layoutNames (index.classify (d.tag parent))

/-- The names of all styleables that apply to a node. To a tag that stands for nothing none does,
whatever its parent is. -/
def applicableNames (index : WidgetIndex) (d : Document) (node : Nat) : List String :=
  match index.classify (d.tag node) with
  | .unresolved => []
  | c => index.ownNames c ++ index.parentNames d node

/-- The styleables of a package that apply to a node. -/
def resolve (index : WidgetIndex) (d : Document) (node : Nat) (package : Package) :
    StyleableSet :=
  StyleableSet.ofNames package (index.applicableNames d node)

end WidgetIndex

end LayoutCompletion
