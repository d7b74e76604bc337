import LayoutCompletion.Document.Query
import LayoutCompletion.Resource.Basic

/-!
# From namespaces to packages

A namespace behind which a package stands is a fixed marker followed by the package's name. One
reserved namespace stands for every package of every table. All others stand for none.
-/

namespace LayoutCompletion

/-- The marker with which every namespace of a package begins. -/
def uriMarker : String := "http://schemas.android.com/apk/res/"

/-- The namespace that stands for every package. -/
def autoUri : String := "http://schemas.android.com/apk/res-auto"

/-- The package named by a namespace. -/
def packageOfUri? (uri : String) : Option String :=
  if uriMarker.toList.isPrefixOf uri.toList then
    some (String.ofList (uri.toList.drop uriMarker.toList.length))
  else none

namespace ResourceRegistry

/-- The packages behind a namespace. -/
def packagesFor (r : ResourceRegistry) (uri : String) : List Package :=
  if uri = autoUri then r.allPackages
  else
    match packageOfUri? uri with
    | none => []
    | some name => (r.tablesFor uri).filterMap (·.package? name)

end ResourceRegistry

/-- A package to search, and the prefix with which its attributes are written. -/
structure SearchTarget where
  package : Package
  space : String
deriving DecidableEq, Repr

/-- What to search for an attribute whose prefix stands for a namespace. -/
def targetsFor (r : ResourceRegistry) (uri space : String) : List SearchTarget :=
  (r.packagesFor uri).map fun package => ⟨package, space⟩

/-- What to search for an attribute that has no namespace yet: everything behind every prefix that
is declared at the node or around it. -/
def fanOut (d : Document) (node : Nat) (r : ResourceRegistry) : List SearchTarget :=
  (d.namespaceDeclarations node).flatMap fun (space, uri) => targetsFor r uri space

end LayoutCompletion
