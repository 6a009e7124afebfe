import StyleTypings.Classes.Extract
import StyleTypings.Classes.NameFormat
import StyleTypings.Classes.Scan
import StyleTypings.Command.Arguments
import StyleTypings.Command.Generate
import StyleTypings.Command.Outcome
import StyleTypings.Command.Report
import StyleTypings.Command.Run
import StyleTypings.Command.Watch
import StyleTypings.Css.Component
import StyleTypings.Css.Name
import StyleTypings.Css.Numeral
import StyleTypings.Css.Token
import StyleTypings.Decimal.Positional
import StyleTypings.Decimal.Shortest
import StyleTypings.Files.Disk
import StyleTypings.Files.Path
import StyleTypings.Files.Walk
import StyleTypings.Globs.Pattern
import StyleTypings.Globs.Walk
import StyleTypings.Json.Cursor
import StyleTypings.Json.Numbers
import StyleTypings.Json.Strings
import StyleTypings.Json.Values
import StyleTypings.Less.Comment
import StyleTypings.Less.Compile
import StyleTypings.Less.Error
import StyleTypings.Less.Evaluation
import StyleTypings.Less.Expression
import StyleTypings.Less.Guard
import StyleTypings.Less.Import
import StyleTypings.Less.Naming
import StyleTypings.Less.Node
import StyleTypings.Less.Scope
import StyleTypings.Less.Selector
import StyleTypings.Less.Signature
import StyleTypings.Less.Splitting
import StyleTypings.Less.Statement
import StyleTypings.Less.Value
import StyleTypings.Main
import StyleTypings.Proofs.Css.ClassSelectors
import StyleTypings.Proofs.Css.Components
import StyleTypings.Proofs.Css.Spelling
import StyleTypings.Proofs.Css.Tokens
import StyleTypings.Proofs.Decoding
import StyleTypings.Proofs.Descent
import StyleTypings.Proofs.Evaluation.Depth
import StyleTypings.Proofs.Evaluation.Ending
import StyleTypings.Proofs.Evaluation.Origin
import StyleTypings.Proofs.Evaluation.Tasks
import StyleTypings.Proofs.Evaluation.Visits
import StyleTypings.Proofs.Failures
import StyleTypings.Proofs.Files
import StyleTypings.Proofs.Halting
import StyleTypings.Proofs.Identifiers
import StyleTypings.Proofs.Imports
import StyleTypings.Proofs.Inert
import StyleTypings.Proofs.Preludes
import StyleTypings.Proofs.Words
import StyleTypings.Settings.Basic
import StyleTypings.Settings.Discovery
import StyleTypings.Settings.Printer
import StyleTypings.Settings.Reader
import StyleTypings.Sources.Pattern
import StyleTypings.Sources.Scan
import StyleTypings.Text.Basic
import StyleTypings.Text.Blank
import StyleTypings.Text.Casing
import StyleTypings.Text.Letter
import StyleTypings.Text.Quoted
import StyleTypings.Text.Words
import StyleTypings.Typings.Binding
import StyleTypings.Typings.Options
import StyleTypings.Typings.Render
import StyleTypings.Proofs.Casing
import StyleTypings.Proofs.Evaluation.Output
import StyleTypings.Proofs.NameFormats
import StyleTypings.Proofs.Naming
import StyleTypings.Proofs.Constants
import StyleTypings.Proofs.Scoping
import StyleTypings.Proofs.Arguments
import StyleTypings.Proofs.Evaluation.Outcome
import StyleTypings.Proofs.Evaluation.Likeness
import StyleTypings.Proofs.Evaluation.Simulation
import StyleTypings.Proofs.Evaluation.Numbering
import StyleTypings.Proofs.ImportedOnce
import StyleTypings.Proofs.Inclusion
import StyleTypings.Proofs.Rearrangement
import StyleTypings.Proofs.Evaluation.Silence
import StyleTypings.Proofs.Evaluation.Omission
import StyleTypings.Proofs.References
import StyleTypings.Proofs.Evaluation.Comparison
import StyleTypings.Proofs.Evaluation.Muting
import StyleTypings.Proofs.Evaluation.Readings
import StyleTypings.Proofs.Evaluation.Replacement
import StyleTypings.Proofs.Evaluation.Exchange
import StyleTypings.Proofs.Declarations
import StyleTypings.Proofs.AtRules
import StyleTypings.Proofs.Inlining
import StyleTypings.Proofs.Files.Steps
import StyleTypings.Proofs.Files.Ancestors
import StyleTypings.Proofs.Files.Kinds
import StyleTypings.Proofs.Files.Fillers
import StyleTypings.Proofs.Files.Trees
import StyleTypings.Proofs.Files.Walks
import StyleTypings.Proofs.Files.Scans
import StyleTypings.Proofs.Outputs
import StyleTypings.Proofs.Unread
import StyleTypings.Proofs.Processing
import StyleTypings.Proofs.Checking
import StyleTypings.Proofs.Interpolation
import StyleTypings.Proofs.Changes
import StyleTypings.Proofs.Css.Reading
import StyleTypings.Proofs.Css.Brackets
import StyleTypings.Proofs.Css.Selectors
import StyleTypings.Proofs.Files.Slashes
import StyleTypings.Proofs.Globs.Matching
import StyleTypings.Proofs.Globs.Reading
import StyleTypings.Proofs.Globs.Pieces
import StyleTypings.Proofs.Globs.Walking
import StyleTypings.Proofs.WatchRoots
import StyleTypings.Proofs.Watching
import StyleTypings.Proofs.Rendering
import StyleTypings.Proofs.Literals
import StyleTypings.Proofs.Expressions
import StyleTypings.Proofs.Guards
import StyleTypings.Proofs.Selection
import StyleTypings.Proofs.Parameters
import StyleTypings.Proofs.ParameterNames
import StyleTypings.Proofs.Collapsing
import StyleTypings.Proofs.Cutting
import StyleTypings.Proofs.Printing
import StyleTypings.Proofs.Comments.Stripping
import StyleTypings.Proofs.Comments.Spacing
import StyleTypings.Proofs.Files.Listing
import StyleTypings.Proofs.Directories
import StyleTypings.Proofs.Json.Reading
import StyleTypings.Proofs.Settings
import StyleTypings.Proofs.QuotedValues
import StyleTypings.Proofs.Chains
import StyleTypings.Proofs.Attributes
import StyleTypings.Proofs.Css.Steady
import StyleTypings.Proofs.Css.Skipping
import StyleTypings.Proofs.Css.Steps
import StyleTypings.Proofs.Css.Readers
import StyleTypings.Proofs.Css.Collapsed
import StyleTypings.Proofs.Separators
import StyleTypings.Proofs.Splitting
import StyleTypings.Proofs.Combinations
import StyleTypings.Proofs.Evaluation.Errors
import StyleTypings.Proofs.Evaluation.Machine
import StyleTypings.Proofs.Evaluation.States
import StyleTypings.Proofs.ClassLike
import StyleTypings.Proofs.Evaluation.Twins
import StyleTypings.Proofs.SelfCalls
import StyleTypings.Proofs.StringDefaults
import StyleTypings.Proofs.FormattedNames
import StyleTypings.Proofs.Comments.Runs
import StyleTypings.Proofs.Comments.Addresses
import StyleTypings.Proofs.Comments.Unclosed
import StyleTypings.Proofs.Places
import StyleTypings.Proofs.Comments.Lines
import StyleTypings.Proofs.Discovery
import StyleTypings.Proofs.Spellings
