import StyleLedger.Audit
import StyleLedger.Bucket
import StyleLedger.Cascade.Apply
import StyleLedger.Cascade.State
import StyleLedger.Cascade.Timed
import StyleLedger.Command.Arguments
import StyleLedger.Command.Run
import StyleLedger.Command.Shell
import StyleLedger.Compile
import StyleLedger.Condition
import StyleLedger.Config.Compiler
import StyleLedger.Config.Project
import StyleLedger.Conflict
import StyleLedger.Decimal.Rounded
import StyleLedger.Decimal.Shortest
import StyleLedger.Decimal.Wide
import StyleLedger.Declaration
import StyleLedger.Descriptor.Basic
import StyleLedger.Descriptor.Columns
import StyleLedger.Digest.Sha1
import StyleLedger.Disk
import StyleLedger.Failure
import StyleLedger.Finding
import StyleLedger.History
import StyleLedger.Identity
import StyleLedger.Json.Decode
import StyleLedger.Json.Encode
import StyleLedger.Json.Shape
import StyleLedger.Json.Value
import StyleLedger.Main
import StyleLedger.Migration.Drift
import StyleLedger.Migration.Engine
import StyleLedger.Migration.Files
import StyleLedger.Migration.Log
import StyleLedger.Migration.Name
import StyleLedger.Moment.Basic
import StyleLedger.Moment.Date
import StyleLedger.Moment.Reading
import StyleLedger.Path
import StyleLedger.Project
import StyleLedger.Query
import StyleLedger.Selector.Basic
import StyleLedger.Selector.Codec
import StyleLedger.Selector.Pseudo
import StyleLedger.Selector.Specificity
import StyleLedger.Sheet.Basic
import StyleLedger.Sheet.Plan
import StyleLedger.Sheet.Render
import StyleLedger.Source.Error
import StyleLedger.Source.File
import StyleLedger.Source.Grammar
import StyleLedger.Source.Keyword
import StyleLedger.Source.Lexeme
import StyleLedger.Source.Parse
import StyleLedger.Source.Position
import StyleLedger.Source.Reading
import StyleLedger.Source.Term
import StyleLedger.Source.Token
import StyleLedger.Statement
import StyleLedger.Store.Basic
import StyleLedger.Store.Cell
import StyleLedger.Store.Codec
import StyleLedger.Store.Document
import StyleLedger.Store.Row
import StyleLedger.Store.Schema
import StyleLedger.Table
import StyleLedger.Text.Blank
import StyleLedger.Text.Category
import StyleLedger.Text.LetterCase
import StyleLedger.Text.Printable
import StyleLedger.Text.Quoted
import StyleLedger.Text.Search
import StyleLedger.Text.Utf8
import StyleLedger.Value
import StyleLedger.Proofs.Cascade.Buckets
import StyleLedger.Proofs.Cascade.Coherent
import StyleLedger.Proofs.Cascade.Growth
import StyleLedger.Proofs.Cascade.Index
import StyleLedger.Proofs.Cascade.Kept
import StyleLedger.Proofs.Cascade.Matching
import StyleLedger.Proofs.Cascade.Repeated
import StyleLedger.Proofs.Cascade.Refused
import StyleLedger.Proofs.Cascade.Settled
import StyleLedger.Proofs.Cascade.Sound
import StyleLedger.Proofs.Cascade.Typed
import StyleLedger.Proofs.Cascade.Unspaced
import StyleLedger.Proofs.Condition.NormalForm
import StyleLedger.Proofs.Config
import StyleLedger.Proofs.Descriptor.Bounds
import StyleLedger.Proofs.Descriptor.Columns
import StyleLedger.Proofs.Descriptor.Composition
import StyleLedger.Proofs.Descriptor.Gathering
import StyleLedger.Proofs.Directories
import StyleLedger.Proofs.Disk
import StyleLedger.Proofs.History
import StyleLedger.Proofs.Json.Lines
import StyleLedger.Proofs.Json.RoundTrip
import StyleLedger.Proofs.Migration.Atomic
import StyleLedger.Proofs.Migration.Created
import StyleLedger.Proofs.Migration.Drained
import StyleLedger.Proofs.Migration.Drift
import StyleLedger.Proofs.Migration.Named
import StyleLedger.Proofs.Migration.Rebuild
import StyleLedger.Proofs.Migration.Seeding
import StyleLedger.Proofs.Migration.Stack
import StyleLedger.Proofs.Moment
import StyleLedger.Proofs.Outcome
import StyleLedger.Proofs.Selector.Alternatives
import StyleLedger.Proofs.Selector.Lists
import StyleLedger.Proofs.Selector.Positions
import StyleLedger.Proofs.Selector.References
import StyleLedger.Proofs.Selector.Specificity
import StyleLedger.Proofs.Sheet.Appended
import StyleLedger.Proofs.Sheet.Brackets
import StyleLedger.Proofs.Sheet.Emission
import StyleLedger.Proofs.Sheet.Inspected
import StyleLedger.Proofs.Sheet.Layout
import StyleLedger.Proofs.Sheet.Macros
import StyleLedger.Proofs.Sheet.Matching
import StyleLedger.Proofs.Sheet.Quoted
import StyleLedger.Proofs.Sheet.Reapplied
import StyleLedger.Proofs.Sheet.Repeated
import StyleLedger.Proofs.Sheet.Undone
import StyleLedger.Proofs.Sheet.Variables
import StyleLedger.Proofs.Sheet.Written
import StyleLedger.Proofs.Source.Appended
import StyleLedger.Proofs.Source.Asked
import StyleLedger.Proofs.Source.Caseless
import StyleLedger.Proofs.Source.Commented
import StyleLedger.Proofs.Source.Cuts
import StyleLedger.Proofs.Source.Drawn
import StyleLedger.Proofs.Source.Ends
import StyleLedger.Proofs.Source.Evaluation
import StyleLedger.Proofs.Source.Extent
import StyleLedger.Proofs.Source.Follow
import StyleLedger.Proofs.Source.Formed
import StyleLedger.Proofs.Source.Front
import StyleLedger.Proofs.Source.Leads
import StyleLedger.Proofs.Source.Literal
import StyleLedger.Proofs.Source.Placed
import StyleLedger.Proofs.Source.Plain
import StyleLedger.Proofs.Source.Printed
import StyleLedger.Proofs.Source.Recased
import StyleLedger.Proofs.Source.Steady
import StyleLedger.Proofs.Source.Strict
import StyleLedger.Proofs.Spacing
import StyleLedger.Proofs.Statement
import StyleLedger.Proofs.Store.Anchored
import StyleLedger.Proofs.Store.Audited
import StyleLedger.Proofs.Store.Blobs
import StyleLedger.Proofs.Store.Composite
import StyleLedger.Proofs.Store.Contract
import StyleLedger.Proofs.Store.Declared
import StyleLedger.Proofs.Store.Identified
import StyleLedger.Proofs.Store.Loaded
import StyleLedger.Proofs.Store.Named
import StyleLedger.Proofs.Store.Persisted
import StyleLedger.Proofs.Store.Regrouped
import StyleLedger.Proofs.Store.Reloaded
import StyleLedger.Proofs.Store.RoundTrip
import StyleLedger.Proofs.Store.Shapes
import StyleLedger.Proofs.Store.Tables
import StyleLedger.Proofs.Store.Transaction
import StyleLedger.Proofs.Store.Typed
import StyleLedger.Proofs.Store.Unspaced
import StyleLedger.Proofs.Store.Verified
import StyleLedger.Proofs.Store.Written
import StyleLedger.Proofs.Table
import StyleLedger.Proofs.Trace.Agreement
import StyleLedger.Proofs.Trace.Basic
import StyleLedger.Proofs.Trace.Semantics
import StyleLedger.Proofs.Value
