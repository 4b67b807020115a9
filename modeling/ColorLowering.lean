import ColorLowering.Session
import ColorLowering.Store.Resolve
import ColorLowering.Proofs.Text.Written
import ColorLowering.Proofs.Text.Cleaning
import ColorLowering.Proofs.Text.Shifting
import ColorLowering.Proofs.Store.Interned
import ColorLowering.Proofs.Store.History
import ColorLowering.Proofs.Store.Types
import ColorLowering.Proofs.Store.Interning
import ColorLowering.Proofs.Store.Allocation
import ColorLowering.Proofs.Emission.Frame
import ColorLowering.Proofs.Emission.Emitters
import ColorLowering.Proofs.Emission.Heading
import ColorLowering.Proofs.Emission.Initializer
import ColorLowering.Proofs.Session.Rollback
import ColorLowering.Proofs.Session.Reached
import ColorLowering.Proofs.Session.Tables
import ColorLowering.Proofs.Session.ForwardDeclarations
import ColorLowering.Proofs.Session.Defaults
import ColorLowering.Proofs.Constants.Lowering
import ColorLowering.Proofs.Constants.Entries
import ColorLowering.Proofs.Constants.InitializationOrder
import ColorLowering.Proofs.Constants.Survey
import ColorLowering.Proofs.Constants.Texts
import ColorLowering.Proofs.Constants.Places
import ColorLowering.Proofs.Constants.Callees
import ColorLowering.Proofs.Folding.Exact
import ColorLowering.Proofs.Folding.Operators
import ColorLowering.Proofs.Folding.Chains
import ColorLowering.Proofs.Folding.Surveyed
import ColorLowering.Proofs.Defaults.Rendering
import ColorLowering.Proofs.Defaults.Sharing
import ColorLowering.Proofs.Defaults.Reuse
import ColorLowering.Proofs.Statements.Reading
import ColorLowering.Proofs.Statements.Tokens
import ColorLowering.Proofs.Statements.Nesting
import ColorLowering.Proofs.Statements.Emitted
import ColorLowering.Proofs.Aggregate.Execution
import ColorLowering.Proofs.Aggregate.Filling
import ColorLowering.Proofs.Aggregate.Mirror
import ColorLowering.Proofs.Aggregate.Forms
import ColorLowering.Proofs.Constants.Section
import ColorLowering.Proofs.Agreement.References
import ColorLowering.Proofs.Agreement.Rendering
import ColorLowering.Proofs.Agreement.Emission
import ColorLowering.Proofs.Agreement.Module
import ColorLowering.Proofs.Agreement.Apart
import ColorLowering.Proofs.Agreement.Renaming
import ColorLowering.Proofs.Session.Independence
import ColorLowering.Proofs.Session.Renaming
import ColorLowering.Proofs.Reading.Lexer
import ColorLowering.Proofs.Reading.Spacing
import ColorLowering.Proofs.Reading.Reader
import ColorLowering.Proofs.Reading.Operand
import ColorLowering.Proofs.Reading.Compound
import ColorLowering.Proofs.Reading.Layout
import ColorLowering.Proofs.Reading.Names
import ColorLowering.Proofs.Reading.Values
import ColorLowering.Proofs.Reading.Types
import ColorLowering.Proofs.Reading.Lists
import ColorLowering.Proofs.Reading.Expression
import ColorLowering.Proofs.Reading.Legible
import ColorLowering.Proofs.Reading.Rendered
import ColorLowering.Proofs.Reading.Entered
import ColorLowering.Proofs.Session.Expressions
import ColorLowering.Proofs.Emission.Parts
import ColorLowering.Proofs.Emission.Signatures
import ColorLowering.Proofs.Session.Chunks
import ColorLowering.Proofs.Session.Signatures
import ColorLowering.Proofs.Dialect.Targets
import ColorLowering.Proofs.Rendering.Property
import ColorLowering.Proofs.Dialect.Emission
import ColorLowering.Proofs.Session.Dialect
import ColorLowering.Proofs.Rerun.Rendering
import ColorLowering.Proofs.Rerun.Emission
import ColorLowering.Proofs.Rerun.Entries
import ColorLowering.Proofs.Rerun.Constants
import ColorLowering.Proofs.Rerun.Module
import ColorLowering.Proofs.Session.Regeneration
import ColorLowering.Proofs.Constants.Declarations
import ColorLowering.Proofs.Constants.Deferral
import ColorLowering.Proofs.Session.Entries
import ColorLowering.Proofs.Session.Deferral
import ColorLowering.Proofs.Session.DeclaredConstants
import ColorLowering.Proofs.Session.References
import ColorLowering.Proofs.Calls.Nesting
import ColorLowering.Proofs.Calls.Solid
import ColorLowering.Proofs.Calls.Lists
import ColorLowering.Proofs.Calls.Rendered
import ColorLowering.Proofs.Calls.Entered
import ColorLowering.Proofs.Calls.Arguments
import ColorLowering.Proofs.Calls.Stored
import ColorLowering.Proofs.Session.Calls
import ColorLowering.Proofs.Constants.Substitution
import ColorLowering.Proofs.Statements.Assignments
import ColorLowering.Proofs.Session.Substitution
import ColorLowering.Proofs.Folding.Machine
import ColorLowering.Proofs.Folding.Steps
import ColorLowering.Proofs.Folding.Computed
import ColorLowering.Proofs.Folding.Agreement
import ColorLowering.Proofs.Statements.Locals
import ColorLowering.Proofs.Aggregate.Accounting
import ColorLowering.Proofs.Constants.Scan
import ColorLowering.Proofs.Reading.Strings
import ColorLowering.Proofs.Types.Spelling
import ColorLowering.Proofs.Emission.Undisturbed
import ColorLowering.Proofs.Rounding.Nearest
import ColorLowering.Proofs.Rounding.Shortest
import ColorLowering.Proofs.Reading.Floating
import ColorLowering.Proofs.Rounding.Literals
