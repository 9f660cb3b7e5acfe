import CommandScript.Amount
import CommandScript.Assembly
import CommandScript.Assignment
import CommandScript.Assoc
import CommandScript.Calendar
import CommandScript.Command
import CommandScript.Command.Reader
import CommandScript.CommandLine
import CommandScript.CommandLine.Help
import CommandScript.CommandLine.Request
import CommandScript.Condition
import CommandScript.Control
import CommandScript.Engine
import CommandScript.Engine.Execution
import CommandScript.Engine.Run
import CommandScript.Engine.Viewpoint
import CommandScript.Fault
import CommandScript.Files.Desk
import CommandScript.Files.Path
import CommandScript.Files.Snapshot
import CommandScript.Files.Tree
import CommandScript.Files.Words
import CommandScript.Flow.Chain
import CommandScript.Flow.Loop
import CommandScript.Flow.Subroutine
import CommandScript.Formula
import CommandScript.Formula.Evaluation
import CommandScript.Formula.Reader
import CommandScript.Keyword
import CommandScript.Log
import CommandScript.Main
import CommandScript.Memory
import CommandScript.Name
import CommandScript.Numeral
import CommandScript.Operand
import CommandScript.Option
import CommandScript.Program
import CommandScript.Proofs.Amount
import CommandScript.Proofs.Argument
import CommandScript.Proofs.Assembly.Apart
import CommandScript.Proofs.Assembly.Blocks
import CommandScript.Proofs.Assembly.Change
import CommandScript.Proofs.Assembly.Coherent
import CommandScript.Proofs.Assembly.Exchange
import CommandScript.Proofs.Assembly.Finish
import CommandScript.Proofs.Assembly.Mirror
import CommandScript.Proofs.Assembly.Reading
import CommandScript.Proofs.Assembly.Recording
import CommandScript.Proofs.Assembly.Sight
import CommandScript.Proofs.Assembly.Simple
import CommandScript.Proofs.Assembly.Walk
import CommandScript.Proofs.Assignment
import CommandScript.Proofs.Bookkeeping
import CommandScript.Proofs.Checked
import CommandScript.Proofs.Couples
import CommandScript.Proofs.Declarations.Alongside
import CommandScript.Proofs.Declarations.Change
import CommandScript.Proofs.Declarations.Complete
import CommandScript.Proofs.Declarations.Exchange
import CommandScript.Proofs.Declarations.Recording
import CommandScript.Proofs.Engine.Alike
import CommandScript.Proofs.Engine.Arguments
import CommandScript.Proofs.Engine.Assignment
import CommandScript.Proofs.Engine.Breakpoints
import CommandScript.Proofs.Engine.Clock
import CommandScript.Proofs.Engine.Confined
import CommandScript.Proofs.Engine.Counting
import CommandScript.Proofs.Engine.Data
import CommandScript.Proofs.Engine.Effect
import CommandScript.Proofs.Engine.Flags
import CommandScript.Proofs.Engine.Iteration
import CommandScript.Proofs.Engine.Kindred
import CommandScript.Proofs.Engine.Likeness
import CommandScript.Proofs.Engine.Looking
import CommandScript.Proofs.Engine.Mates
import CommandScript.Proofs.Engine.Order
import CommandScript.Proofs.Engine.Pairing
import CommandScript.Proofs.Engine.Placed
import CommandScript.Proofs.Engine.Plain
import CommandScript.Proofs.Engine.Reachable
import CommandScript.Proofs.Engine.References
import CommandScript.Proofs.Engine.Relocated
import CommandScript.Proofs.Engine.Relocation
import CommandScript.Proofs.Engine.Renewal
import CommandScript.Proofs.Engine.Retains
import CommandScript.Proofs.Engine.Schedule
import CommandScript.Proofs.Engine.Scope
import CommandScript.Proofs.Engine.Steering
import CommandScript.Proofs.Engine.Stepping
import CommandScript.Proofs.Engine.Supply
import CommandScript.Proofs.Engine.Twins
import CommandScript.Proofs.Engine.Typed
import CommandScript.Proofs.Engine.Visits
import CommandScript.Proofs.Ensures
import CommandScript.Proofs.Evaluation
import CommandScript.Proofs.Files.Appended
import CommandScript.Proofs.Files.Changes
import CommandScript.Proofs.Files.Chunks
import CommandScript.Proofs.Files.Desk
import CommandScript.Proofs.Files.Kept
import CommandScript.Proofs.Files.Location
import CommandScript.Proofs.Files.Requests
import CommandScript.Proofs.Formula.Arithmetic
import CommandScript.Proofs.Formula.Layout
import CommandScript.Proofs.Formula.Rendering
import CommandScript.Proofs.Formula.Single
import CommandScript.Proofs.Formula.Tree
import CommandScript.Proofs.Formula.Trimmed
import CommandScript.Proofs.Formula.Value
import CommandScript.Proofs.Nesting
import CommandScript.Proofs.Nesting.Places
import CommandScript.Proofs.Nesting.Program
import CommandScript.Proofs.Nesting.Tables
import CommandScript.Proofs.Numeral
import CommandScript.Proofs.Numeral.Grammar
import CommandScript.Proofs.Operand
import CommandScript.Proofs.Operand.Agreement
import CommandScript.Proofs.Reference
import CommandScript.Proofs.Reference.Extent
import CommandScript.Proofs.Reference.Measure
import CommandScript.Proofs.Reference.Shape
import CommandScript.Proofs.Relates
import CommandScript.Proofs.Relation
import CommandScript.Proofs.Relation.Sign
import CommandScript.Proofs.Script.Agreement
import CommandScript.Proofs.Script.Blocks
import CommandScript.Proofs.Script.Check
import CommandScript.Proofs.Script.Compile
import CommandScript.Proofs.Script.Contexts
import CommandScript.Proofs.Script.Exchange
import CommandScript.Proofs.Script.Lockstep
import CommandScript.Proofs.Script.Passes
import CommandScript.Proofs.Script.Passing
import CommandScript.Proofs.Script.Placed
import CommandScript.Proofs.Script.Recording
import CommandScript.Proofs.Script.Reordered
import CommandScript.Proofs.Script.Statement
import CommandScript.Proofs.Script.Swapped
import CommandScript.Proofs.Script.Variables
import CommandScript.Proofs.Store.Calls
import CommandScript.Proofs.Store.Filters
import CommandScript.Proofs.Store.Fits
import CommandScript.Proofs.Store.History
import CommandScript.Proofs.Store.Isolation
import CommandScript.Proofs.Store.Kindred
import CommandScript.Proofs.Store.Lists
import CommandScript.Proofs.Store.Masks
import CommandScript.Proofs.Store.Operations
import CommandScript.Proofs.Store.Requests
import CommandScript.Proofs.Store.Retains
import CommandScript.Proofs.Store.Timeless
import CommandScript.Proofs.Store.Warnings
import CommandScript.Proofs.Structure.Brackets
import CommandScript.Proofs.Structure.Commands
import CommandScript.Proofs.Structure.Constructs
import CommandScript.Proofs.Structure.Course
import CommandScript.Proofs.Structure.Follows
import CommandScript.Proofs.Structure.Grouped
import CommandScript.Proofs.Structure.Meaning
import CommandScript.Proofs.Structure.Refinement
import CommandScript.Proofs.Structure.Steps
import CommandScript.Proofs.Structure.Tree
import CommandScript.Proofs.Text.Arguments
import CommandScript.Proofs.Text.Bytes
import CommandScript.Proofs.Text.Folded
import CommandScript.Proofs.Text.Lines
import CommandScript.Proofs.Text.Quoted
import CommandScript.Proofs.Text.Trimmed
import CommandScript.Proofs.Typing
import CommandScript.Proofs.Unplaced
import CommandScript.Proofs.Unplaced.Execution
import CommandScript.Proofs.Value
import CommandScript.Proofs.Value.Slices
import CommandScript.Proofs.WellFormed
import CommandScript.Reference
import CommandScript.Reference.Reader
import CommandScript.Relation
import CommandScript.Reserved
import CommandScript.Script.Compile
import CommandScript.Script.Declarations
import CommandScript.Script.Findings
import CommandScript.Settings
import CommandScript.Settings.File
import CommandScript.Store
import CommandScript.Store.Filter
import CommandScript.Store.Variable
import CommandScript.Text.Blank
import CommandScript.Text.Case
import CommandScript.Text.CaseTable
import CommandScript.Text.Folded
import CommandScript.Text.Quoted
import CommandScript.Text.Shown
import CommandScript.Toml.Document
import CommandScript.Toml.Key
import CommandScript.Toml.Node
import CommandScript.Toml.Number
import CommandScript.Trait
import CommandScript.Typing
import CommandScript.Value
