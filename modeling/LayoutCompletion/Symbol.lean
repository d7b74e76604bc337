import LayoutCompletion.Text.Quoted

/-!
# Symbols

Names of packages and names of resources are told apart by their type. Symbols of one kind are
equal and ordered as their texts are. An `Interner` knows the symbols that were made with it.
-/

namespace LayoutCompletion

/-- What a symbol names. -/
inductive SymbolKind
  | package
  | resource
deriving DecidableEq, Repr

/-- How a kind of symbol is shown. -/
def SymbolKind.label : SymbolKind → String
  | .package => "Package"
  | .resource => "ResourceEntry"

/-- A name of something of the given kind. -/
structure Symbol (kind : SymbolKind) where
  text : String
deriving DecidableEq, Repr

/-- The name of a package. -/
abbrev PackageName := Symbol .package

/-- The name of a resource. -/
abbrev ResourceName := Symbol .resource

namespace Symbol

variable {kind : SymbolKind}

instance : Ord (Symbol kind) := ⟨fun a b => compare a.text b.text⟩

/-- The symbol with its kind and its text in quotes. -/
def describe (s : Symbol kind) : String :=
  "Symbol<" ++ kind.label ++ ">(" ++ Text.quoted s.text ++ ")"

/-- Symbols in the order of their texts. -/
def sort (symbols : List (Symbol kind)) : List (Symbol kind) :=
  symbols.mergeSort fun a b => (compare a b).isLE

end Symbol

/-- The symbols made so far, oldest first. -/
structure Interner (kind : SymbolKind) where
  symbols : List (Symbol kind)
deriving DecidableEq, Repr

namespace Interner

variable {kind : SymbolKind}

/-- No symbol was made yet. -/
def empty : Interner kind := ⟨[]⟩

/-- Makes the symbol of a text known. -/
def intern (i : Interner kind) (text : String) : Interner kind :=
  if ⟨text⟩ ∈ i.symbols then i else ⟨i.symbols ++ [⟨text⟩]⟩

/-- The symbol of a text, if it was made before. -/
def find? (i : Interner kind) (text : String) : Option (Symbol kind) :=
  i.symbols.find? (·.text = text)

end Interner

end LayoutCompletion
