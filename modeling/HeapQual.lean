import HeapQual.Allocation
import HeapQual.Ascending
import HeapQual.Cache
import HeapQual.Cell
import HeapQual.Command
import HeapQual.Diagnostic
import HeapQual.Effect
import HeapQual.Effect.Members
import HeapQual.Exclusion
import HeapQual.Fault
import HeapQual.Flow
import HeapQual.Forest
import HeapQual.Graph
import HeapQual.Handle
import HeapQual.Journal
import HeapQual.Kind
import HeapQual.Lattice
import HeapQual.Lattice.Level
import HeapQual.Lattice.Taint
import HeapQual.Linearity
import HeapQual.Location
import HeapQual.PairHash
import HeapQual.Position
import HeapQual.Proofs.Allocation
import HeapQual.Proofs.Cache
import HeapQual.Proofs.Cell
import HeapQual.Proofs.Demand
import HeapQual.Proofs.Effect.Coverage
import HeapQual.Proofs.Effect.Members
import HeapQual.Proofs.Effect.Split
import HeapQual.Proofs.Effect.Table
import HeapQual.Proofs.Flow
import HeapQual.Proofs.Forest
import HeapQual.Proofs.Graph
import HeapQual.Proofs.Journal
import HeapQual.Proofs.Lookup
import HeapQual.Proofs.Reaching
import HeapQual.Proofs.Rekeying
import HeapQual.Proofs.SameCells
import HeapQual.Proofs.Saturation
import HeapQual.Proofs.Session.Answers
import HeapQual.Proofs.Session.Asking
import HeapQual.Proofs.Session.Building
import HeapQual.Proofs.Session.Closing
import HeapQual.Proofs.Session.Cone
import HeapQual.Proofs.Session.Demotion
import HeapQual.Proofs.Session.Freshness
import HeapQual.Proofs.Session.Inclusions
import HeapQual.Proofs.Session.Invariants
import HeapQual.Proofs.Session.KnownEqual
import HeapQual.Proofs.Session.LeastDomains
import HeapQual.Proofs.Session.LeastMembers
import HeapQual.Proofs.Session.Ledger
import HeapQual.Proofs.Session.Linearities
import HeapQual.Proofs.Session.Moves
import HeapQual.Proofs.Session.Replaying
import HeapQual.Proofs.Session.Runs
import HeapQual.Proofs.Shape
import HeapQual.Proofs.Store.Domains
import HeapQual.Proofs.Store.LeastDomains
import HeapQual.Proofs.Walk
import HeapQual.Proofs.Worklist
import HeapQual.Session
import HeapQual.Session.Closing
import HeapQual.Session.Effects
import HeapQual.Session.Exclusions
import HeapQual.Session.Linearities
import HeapQual.Session.Locations
import HeapQual.Session.Questions
import HeapQual.Session.Stores
import HeapQual.Store
import HeapQual.Store.Domains
import HeapQual.Text.CharClass
import HeapQual.Text.Dot
import HeapQual.Text.Extending
import HeapQual.Text.Graph
import HeapQual.Text.Invisible
import HeapQual.Text.Output
import HeapQual.Text.Quoted
import HeapQual.Text.Unassigned
import HeapQual.Walk
import HeapQual.Worklist
import HeapQual.Proofs.Session.MarkedOnly
import HeapQual.Proofs.Mirror.Effects
import HeapQual.Proofs.Mirror.Graph
import HeapQual.Proofs.Mirror.Flow
import HeapQual.Proofs.Mirror.Session
import HeapQual.Proofs.Mirror.Solving
import HeapQual.Proofs.Mirror.Asking
import HeapQual.Proofs.Printing
import HeapQual.Proofs.Mirror.Commands
import HeapQual.Proofs.Session.Evictions
import HeapQual.Proofs.Speech
import HeapQual.Proofs.Session.Speaking
import HeapQual.Proofs.Session.Retelling
import HeapQual.Proofs.Session.Snapshot
import HeapQual.Proofs.Session.Violations
import HeapQual.Proofs.Session.Standing
import HeapQual.Proofs.Session.Tainting
import HeapQual.Proofs.Effect.Absorbing
import HeapQual.Proofs.Session.Growth
import HeapQual.Proofs.Session.Reporting
import HeapQual.Proofs.Marks
import HeapQual.Proofs.Session.Remarking
import HeapQual.Proofs.Session.Memo
import HeapQual.Proofs.Effect.Pieces
import HeapQual.Proofs.Constraints
import HeapQual.Proofs.Session.Agreeing
import HeapQual.Proofs.Session.Reordering
import HeapQual.Proofs.Effect.Leaves
import HeapQual.Proofs.Session.Eliding
import HeapQual.Proofs.Session.Recipes
import HeapQual.Proofs.Session.Unions
import HeapQual.Proofs.Merging
import HeapQual.Proofs.Session.Merging
import HeapQual.Proofs.Converse
import HeapQual.Proofs.Session.Propagating
import HeapQual.Proofs.Effect.Expressions
import HeapQual.Proofs.Session.ClosedEffects
import HeapQual.Proofs.Session.Intersections
import HeapQual.Proofs.MergedCells
import HeapQual.Proofs.Classes
import HeapQual.Proofs.Session.Classes
import HeapQual.Proofs.Calls
import HeapQual.Proofs.Drawing
import HeapQual.Proofs.Session.Aliases
import HeapQual.Proofs.Session.CellWalks
import HeapQual.Proofs.Session.Allocating
import HeapQual.Proofs.Cache.History
import HeapQual.Proofs.PairHash
import HeapQual.Proofs.Text.Replacing
import HeapQual.Proofs.Text.Labels
