import SchemaGraph.Builtin
import SchemaGraph.Command.Folder
import SchemaGraph.Command.Line
import SchemaGraph.Command.Options
import SchemaGraph.Command.Run
import SchemaGraph.Decimal.Binary64
import SchemaGraph.Decimal.Layout
import SchemaGraph.Decimal.Shortest
import SchemaGraph.Deletion.Cleanup
import SchemaGraph.Deletion.Listing
import SchemaGraph.Deletion.Plan
import SchemaGraph.Deletion.Record
import SchemaGraph.Deletion.Run
import SchemaGraph.Distinct
import SchemaGraph.Failure.Basic
import SchemaGraph.Failure.Classify
import SchemaGraph.Failure.Record
import SchemaGraph.Graph.Basic
import SchemaGraph.Graph.Edit
import SchemaGraph.Graph.Equality
import SchemaGraph.Graph.Error
import SchemaGraph.Graph.FieldEdit
import SchemaGraph.Graph.Loading
import SchemaGraph.Graph.Name
import SchemaGraph.Graph.Printer
import SchemaGraph.Graph.Record
import SchemaGraph.Graph.TypeEdit
import SchemaGraph.Graph.Validation
import SchemaGraph.Json.Basic
import SchemaGraph.Json.Fault
import SchemaGraph.Json.Number
import SchemaGraph.Json.Printer
import SchemaGraph.Json.Reader
import SchemaGraph.Json.Record
import SchemaGraph.Json.Text
import SchemaGraph.Keyed
import SchemaGraph.Main
import SchemaGraph.Model.Key
import SchemaGraph.Model.Record
import SchemaGraph.Model.Version
import SchemaGraph.Query.Build
import SchemaGraph.Query.Items
import SchemaGraph.Query.Params
import SchemaGraph.Query.Selection
import SchemaGraph.Sdl.Document
import SchemaGraph.Sdl.Lexeme
import SchemaGraph.Sdl.Literal
import SchemaGraph.Sdl.Number
import SchemaGraph.Sdl.Reader
import SchemaGraph.Sdl.Syntax
import SchemaGraph.Sdl.Text
import SchemaGraph.Sdl.Token
import SchemaGraph.Sorted
import SchemaGraph.Text.Basic
import SchemaGraph.Text.Blank
import SchemaGraph.Text.Quoted
import SchemaGraph.Text.Shown
import SchemaGraph.Text.Split
import SchemaGraph.Text.Unprintable
import SchemaGraph.TypeKind
import SchemaGraph.Proofs.Command.Agreement
import SchemaGraph.Proofs.Command.Coverage
import SchemaGraph.Proofs.Decimal.Rounding
import SchemaGraph.Proofs.Decimal.Shortest
import SchemaGraph.Proofs.Deletion.Batches
import SchemaGraph.Proofs.Deletion.KeptViews
import SchemaGraph.Proofs.Deletion.Listing
import SchemaGraph.Proofs.Deletion.ListingOrder
import SchemaGraph.Proofs.Deletion.ReferenceCount
import SchemaGraph.Proofs.Deletion.References
import SchemaGraph.Proofs.Deletion.Reports
import SchemaGraph.Proofs.Deletion.Safety
import SchemaGraph.Proofs.Failure.BadRequests
import SchemaGraph.Proofs.Failure.Precedence
import SchemaGraph.Proofs.Graph.Declared
import SchemaGraph.Proofs.Graph.Edits
import SchemaGraph.Proofs.Graph.EqualEdits
import SchemaGraph.Proofs.Graph.Equality
import SchemaGraph.Proofs.Graph.FieldAdditions
import SchemaGraph.Proofs.Graph.FieldEdits
import SchemaGraph.Proofs.Graph.FieldUpdates
import SchemaGraph.Proofs.Graph.Invariant
import SchemaGraph.Proofs.Graph.Loaded
import SchemaGraph.Proofs.Graph.Merging
import SchemaGraph.Proofs.Graph.Name
import SchemaGraph.Proofs.Graph.NormalForm
import SchemaGraph.Proofs.Graph.Printing
import SchemaGraph.Proofs.Graph.Records
import SchemaGraph.Proofs.Graph.Relations
import SchemaGraph.Proofs.Graph.Removal
import SchemaGraph.Proofs.Graph.Renamable
import SchemaGraph.Proofs.Graph.Renaming
import SchemaGraph.Proofs.Graph.Rereading
import SchemaGraph.Proofs.Graph.RoundTrip
import SchemaGraph.Proofs.Graph.Spelling
import SchemaGraph.Proofs.Graph.TypeUpdates
import SchemaGraph.Proofs.Graph.Upkeep
import SchemaGraph.Proofs.Graph.Violations
import SchemaGraph.Proofs.Json.Rereading
import SchemaGraph.Proofs.Keyed
import SchemaGraph.Proofs.Keyed.Lookup
import SchemaGraph.Proofs.Query.Accepted
import SchemaGraph.Proofs.Query.Answerable
import SchemaGraph.Proofs.Query.Bounds
import SchemaGraph.Proofs.Query.CallerValues
import SchemaGraph.Proofs.Query.Composites
import SchemaGraph.Proofs.Query.Grammar
import SchemaGraph.Proofs.Query.NestedArguments
import SchemaGraph.Proofs.Query.Projection
import SchemaGraph.Proofs.Query.Reading
import SchemaGraph.Proofs.Query.Renaming
import SchemaGraph.Proofs.Query.Requests
import SchemaGraph.Proofs.Query.Selections
import SchemaGraph.Proofs.Query.Shapes
import SchemaGraph.Proofs.Query.Sorting
import SchemaGraph.Proofs.Sdl.Accepted
import SchemaGraph.Proofs.Sdl.Boundaries
import SchemaGraph.Proofs.Sdl.Declarations
import SchemaGraph.Proofs.Sdl.Documents
import SchemaGraph.Proofs.Sdl.Floats
import SchemaGraph.Proofs.Sdl.Integers
import SchemaGraph.Proofs.Sdl.Lexing
import SchemaGraph.Proofs.Sdl.Literals
import SchemaGraph.Proofs.Sdl.Nesting
import SchemaGraph.Proofs.Sdl.Quoted
import SchemaGraph.Proofs.Sdl.Reading
import SchemaGraph.Proofs.Sdl.Rereading
import SchemaGraph.Proofs.Sdl.Unambiguous
