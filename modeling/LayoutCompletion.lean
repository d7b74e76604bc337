import LayoutCompletion.BoundedList
import LayoutCompletion.CommandLine.Arguments
import LayoutCompletion.CommandLine.Run
import LayoutCompletion.CommandLine.Target
import LayoutCompletion.Completion.Candidate
import LayoutCompletion.Completion.Complete
import LayoutCompletion.Completion.Ranking
import LayoutCompletion.Completion.Request
import LayoutCompletion.Dictionary
import LayoutCompletion.Document.Basic
import LayoutCompletion.Document.Build
import LayoutCompletion.Document.Query
import LayoutCompletion.Document.Tree
import LayoutCompletion.Files.Basic
import LayoutCompletion.Files.Tree
import LayoutCompletion.Json.Decode
import LayoutCompletion.Json.Fault
import LayoutCompletion.Json.Numeral
import LayoutCompletion.Json.Read
import LayoutCompletion.Json.Record
import LayoutCompletion.Json.StringToken
import LayoutCompletion.Json.Tree
import LayoutCompletion.Json.Value
import LayoutCompletion.Main
import LayoutCompletion.Markup.Character
import LayoutCompletion.Markup.Failure
import LayoutCompletion.Markup.Lexer
import LayoutCompletion.Markup.Scan
import LayoutCompletion.Markup.Token
import LayoutCompletion.Markup.Tokens
import LayoutCompletion.Matching
import LayoutCompletion.Namespaces
import LayoutCompletion.Number.Binary64
import LayoutCompletion.Number.Shortest
import LayoutCompletion.PathPattern.Basic
import LayoutCompletion.PathPattern.Parse
import LayoutCompletion.PathPattern.Rules
import LayoutCompletion.Project.Config
import LayoutCompletion.Project.Load
import LayoutCompletion.Proofs.CommandLine.Arguments
import LayoutCompletion.Proofs.CommandLine.Target
import LayoutCompletion.Proofs.Completion.Agreement
import LayoutCompletion.Proofs.Completion.Candidates
import LayoutCompletion.Proofs.Completion.Continuing
import LayoutCompletion.Proofs.Completion.EntryPoints
import LayoutCompletion.Proofs.Completion.Formats
import LayoutCompletion.Proofs.Completion.HalfTyped
import LayoutCompletion.Proofs.Completion.KeptNamespaces
import LayoutCompletion.Proofs.Completion.Locality
import LayoutCompletion.Proofs.Completion.MarkedName
import LayoutCompletion.Proofs.Completion.MarkedTag
import LayoutCompletion.Proofs.Completion.Narrowing
import LayoutCompletion.Proofs.Completion.Offered
import LayoutCompletion.Proofs.Completion.OrderIndependence
import LayoutCompletion.Proofs.Completion.Outcomes
import LayoutCompletion.Proofs.Completion.Ranked
import LayoutCompletion.Proofs.Completion.Ranking
import LayoutCompletion.Proofs.Completion.Reach
import LayoutCompletion.Proofs.Completion.Renaming
import LayoutCompletion.Proofs.Completion.Splicing
import LayoutCompletion.Proofs.Completion.UnderCursor
import LayoutCompletion.Proofs.Completion.Unmarked
import LayoutCompletion.Proofs.Dictionary
import LayoutCompletion.Proofs.Document.Bindings
import LayoutCompletion.Proofs.Document.Building
import LayoutCompletion.Proofs.Document.Extending
import LayoutCompletion.Proofs.Document.FailurePlace
import LayoutCompletion.Proofs.Document.Lookup
import LayoutCompletion.Proofs.Document.Nesting
import LayoutCompletion.Proofs.Document.Outline
import LayoutCompletion.Proofs.Document.Parsing
import LayoutCompletion.Proofs.Document.Places
import LayoutCompletion.Proofs.Document.Pushing
import LayoutCompletion.Proofs.Document.Recovery
import LayoutCompletion.Proofs.Document.Scoping
import LayoutCompletion.Proofs.Document.StartTags
import LayoutCompletion.Proofs.Document.Trees
import LayoutCompletion.Proofs.Json.Contents
import LayoutCompletion.Proofs.Markup.Constructs
import LayoutCompletion.Proofs.Markup.Names
import LayoutCompletion.Proofs.Markup.Opening
import LayoutCompletion.Proofs.Markup.Reading
import LayoutCompletion.Proofs.Markup.Stability
import LayoutCompletion.Proofs.Markup.StartTag
import LayoutCompletion.Proofs.Markup.Steps
import LayoutCompletion.Proofs.Markup.Success
import LayoutCompletion.Proofs.Markup.Tags
import LayoutCompletion.Proofs.Markup.Writing
import LayoutCompletion.Proofs.Matching
import LayoutCompletion.Proofs.Matching.Assignment
import LayoutCompletion.Proofs.Resource.History
import LayoutCompletion.Proofs.Resource.Loading
import LayoutCompletion.Proofs.Resource.Lookup
import LayoutCompletion.Proofs.Resource.Reordering
import LayoutCompletion.Proofs.Resource.Written
import LayoutCompletion.Proofs.Styleable.Applicable
import LayoutCompletion.Proofs.Styleable.Groups
import LayoutCompletion.Proofs.Styleable.Inheritance
import LayoutCompletion.Proofs.Text.Humps
import LayoutCompletion.Proofs.Text.Lines
import LayoutCompletion.Proofs.Text.Occurrences
import LayoutCompletion.Proofs.Text.Positions
import LayoutCompletion.Proofs.Text.Quoted
import LayoutCompletion.Proofs.Text.Rows
import LayoutCompletion.Proofs.View.Expansion
import LayoutCompletion.Proofs.View.Limit
import LayoutCompletion.Proofs.View.Names
import LayoutCompletion.Proofs.View.Plain
import LayoutCompletion.Proofs.View.Recursion
import LayoutCompletion.Proofs.View.Rendering
import LayoutCompletion.Proofs.View.Wrapping
import LayoutCompletion.Proofs.Widget.Ancestry
import LayoutCompletion.Proofs.Widget.BreadthFirst
import LayoutCompletion.Proofs.Widget.Index
import LayoutCompletion.Proofs.Widget.Names
import LayoutCompletion.Resource.Basic
import LayoutCompletion.Resource.Decode
import LayoutCompletion.Resource.Format
import LayoutCompletion.Styleable.Hierarchy
import LayoutCompletion.Styleable.Set
import LayoutCompletion.Symbol
import LayoutCompletion.Text.Alphanumeric
import LayoutCompletion.Text.Blank
import LayoutCompletion.Text.CodePointSet
import LayoutCompletion.Text.Digits
import LayoutCompletion.Text.Humps
import LayoutCompletion.Text.Position
import LayoutCompletion.Text.Printable
import LayoutCompletion.Text.Quoted
import LayoutCompletion.Text.Split
import LayoutCompletion.Text.Uppercase
import LayoutCompletion.Text.Utf8
import LayoutCompletion.View.Basic
import LayoutCompletion.View.Include
import LayoutCompletion.Widget.Ancestry
import LayoutCompletion.Widget.Basic
import LayoutCompletion.Widget.Decode
