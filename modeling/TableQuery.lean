import TableQuery.Action.Access
import TableQuery.Action.Argument
import TableQuery.Action.Arithmetic
import TableQuery.Action.Catalogue
import TableQuery.Action.Comparison
import TableQuery.Action.Mutation
import TableQuery.Action.Range
import TableQuery.Action.Registry
import TableQuery.Action.Selection
import TableQuery.Arity
import TableQuery.Assoc
import TableQuery.Binary64.Basic
import TableQuery.Binary64.Decimal
import TableQuery.CommandLine
import TableQuery.Context
import TableQuery.Database
import TableQuery.Error
import TableQuery.Files
import TableQuery.Main
import TableQuery.Proofs.Value.Equality
import TableQuery.Proofs.Value.Fields
import TableQuery.Quoted
import TableQuery.Report
import TableQuery.Sequence
import TableQuery.Session.Basic
import TableQuery.Session.History
import TableQuery.State
import TableQuery.Store
import TableQuery.Term.Basic
import TableQuery.Term.Evaluation
import TableQuery.Term.Reader
import TableQuery.Term.Scope
import TableQuery.Term.Substitution
import TableQuery.Text.Emoji
import TableQuery.Text.EmojiSequence
import TableQuery.Text.Invisible
import TableQuery.Text.Joiner
import TableQuery.Text.Ligature
import TableQuery.Text.Lines
import TableQuery.Text.Ranges
import TableQuery.Text.Visible
import TableQuery.Text.Wide
import TableQuery.Text.Width
import TableQuery.Token
import TableQuery.TypeTag
import TableQuery.Value.Basic
import TableQuery.Value.Keys
import TableQuery.Value.Order
import TableQuery.Value.Reader
import TableQuery.Value.Shape
import TableQuery.Value.Text
import TableQuery.View.Basic
import TableQuery.View.Grid
import TableQuery.View.Style
import TableQuery.Proofs.Action.Reading
import TableQuery.Proofs.Term.Evaluation
import TableQuery.Proofs.Term.Reader
import TableQuery.Proofs.PrimaryKey.Keyed
import TableQuery.Proofs.Action.Patching
import TableQuery.Proofs.PrimaryKey.Writing
import TableQuery.Proofs.PrimaryKey.Runs
import TableQuery.Proofs.PrimaryKey.Legality
import TableQuery.Proofs.Action.Replacement
import TableQuery.Proofs.Selection.Selected
import TableQuery.Proofs.Selection.Deletion
import TableQuery.Proofs.Selection.Update
import TableQuery.Proofs.Selection.Exactness
import TableQuery.Proofs.PrimaryKey.LegalRuns
import TableQuery.Proofs.Action.Atomicity
import TableQuery.Proofs.Action.Streams
import TableQuery.Proofs.Term.Frame
import TableQuery.Proofs.Action.Deferral
import TableQuery.Proofs.Term.Substitution
import TableQuery.Spelling
import TableQuery.Term.Rendering
import TableQuery.Proofs.Quoted
import TableQuery.Proofs.Token
import TableQuery.Proofs.Literal
import TableQuery.Proofs.Value.NumberText
import TableQuery.Proofs.Term.Rendering
import TableQuery.Proofs.Term.Roundtrip
import TableQuery.Proofs.Term.Soundness
import TableQuery.Proofs.Binary64.Integers
import TableQuery.Proofs.Selection.Faithful
import TableQuery.Proofs.Action.Locality
import TableQuery.Proofs.PrimaryKey.Integers
import TableQuery.Proofs.Term.Locality
import TableQuery.Proofs.PrimaryKey.Insertion
import TableQuery.Proofs.Action.Accounting
import TableQuery.Proofs.Selection.Agreement
import TableQuery.Proofs.Action.Registration
import TableQuery.Proofs.Term.Folding
import TableQuery.Proofs.Failures
import TableQuery.Proofs.Action.Failures
import TableQuery.Proofs.Term.RowFree
import TableQuery.Proofs.Term.Blanks
import TableQuery.Proofs.Session.Fold
import TableQuery.Proofs.Action.InTurn
import TableQuery.Proofs.Selection.AtOnce
import TableQuery.Proofs.Value.Restated
import TableQuery.Proofs.Selection.Unchanged
import TableQuery.Proofs.Action.LostRows
import TableQuery.Proofs.Selection.GivenKeys
import TableQuery.Proofs.Selection.Targets
import TableQuery.Proofs.Selection.Idempotence
import TableQuery.Proofs.Value.Comparison
import TableQuery.Proofs.Sequence.Slice
import TableQuery.Proofs.Value.Trichotomy
import TableQuery.Proofs.Sequence.Position
import TableQuery.Proofs.PrimaryKey.Identity
import TableQuery.Proofs.Value.Chain
import TableQuery.Proofs.Sequence.Sorting
import TableQuery.Proofs.Selection.KeyLookup
import TableQuery.Proofs.Value.Merging
import TableQuery.Proofs.Loops
import TableQuery.Proofs.Sequence.Search
import TableQuery.Proofs.Term.MergeChain
import TableQuery.Proofs.Term.Filtering
import TableQuery.Proofs.Value.Projection
import TableQuery.Proofs.Fixture
import TableQuery.Proofs.Action.ArgumentCount
import TableQuery.Proofs.Session.Newest
import TableQuery.Proofs.Session.Saved
import TableQuery.Proofs.View.Columns
import TableQuery.Proofs.Action.Arithmetic
import TableQuery.Proofs.Action.Locating
