import PegMachine.Compile
import PegMachine.Run.StockAction
import PegMachine.Proofs.Run
import PegMachine.Proofs.Structured
import PegMachine.Proofs.Placement
import PegMachine.Proofs.Layout
import PegMachine.Proofs.Slots
import PegMachine.Proofs.Unrolling
import PegMachine.Proofs.Executors
import PegMachine.Proofs.Peg
import PegMachine.Proofs.Blocks
import PegMachine.Proofs.Generation
import PegMachine.Proofs.Meaning
import PegMachine.Proofs.Compiled
import PegMachine.Proofs.Simulation
import PegMachine.Proofs.Positions
import PegMachine.Proofs.Language
import PegMachine.Proofs.Boundaries
import PegMachine.Proofs.Movement
import PegMachine.Proofs.ClassPatterns
import PegMachine.Proofs.Terminals
import PegMachine.Proofs.Marks
import PegMachine.Proofs.Points
import PegMachine.Proofs.Linking
import PegMachine.Proofs.Reaching
import PegMachine.Proofs.Trees
import PegMachine.Proofs.Sweeps
import PegMachine.Proofs.Records
import PegMachine.Proofs.Guards
import PegMachine.Proofs.Correctness
import PegMachine.Proofs.Expectations
import PegMachine.Proofs.Recall
import PegMachine.Proofs.Parses
import PegMachine.Proofs.Halting
import PegMachine.Proofs.Accepted
import PegMachine.Proofs.Removal
import PegMachine.Proofs.Progress
import PegMachine.Proofs.Proxies
import PegMachine.Proofs.Transparency
import PegMachine.Proofs.Termination
import PegMachine.Proofs.Typing
import PegMachine.Proofs.TypedCode
import PegMachine.Proofs.Safety
import PegMachine.Proofs.Heights
import PegMachine.Proofs.WellFormedCode
import PegMachine.Proofs.EffectSums
import PegMachine.Proofs.RunHeights
import PegMachine.Proofs.Bounds
import PegMachine.Proofs.Widening
import PegMachine.Proofs.Consumed
import PegMachine.Proofs.Balanced
import PegMachine.Proofs.Needed
import PegMachine.Proofs.Resolved
import PegMachine.Proofs.Upkeep
import PegMachine.Proofs.Actions
import PegMachine.Proofs.Generating
import PegMachine.Proofs.Instrumentation
import PegMachine.Proofs.Brackets
import PegMachine.Proofs.Tracing
import PegMachine.Proofs.Furthest
import PegMachine.Proofs.MustConsume
import PegMachine.Proofs.LeastBounds
import PegMachine.Proofs.Forests
import PegMachine.Proofs.LeftCalls
import PegMachine.Proofs.Readers
import PegMachine.Proofs.Tails
import PegMachine.Proofs.EmptyMatches
import PegMachine.Proofs.Cuts
import PegMachine.Proofs.Anchoring
import PegMachine.Proofs.Takers
import PegMachine.Proofs.FirstSets
import PegMachine.Proofs.Prepared
import PegMachine.Proofs.MatchEnds
import PegMachine.Proofs.Inside
import PegMachine.Proofs.InsideFrames
import PegMachine.Proofs.Stepping
import PegMachine.Proofs.InsideRoutines
import PegMachine.Proofs.Slicing
import PegMachine.Proofs.FoundAtEnd
import PegMachine.Proofs.Counterparts
import PegMachine.Proofs.Elision
import PegMachine.Proofs.Observing
import PegMachine.Proofs.TerminalCode
import PegMachine.Proofs.Literals
import PegMachine.Proofs.Classes
import PegMachine.Proofs.Ranges
import PegMachine.Proofs.Buckets
import PegMachine.Proofs.LineEnds
import PegMachine.Proofs.Policy
import PegMachine.Proofs.Bindings
import PegMachine.Proofs.Scoping
import PegMachine.Proofs.Collecting
import PegMachine.Proofs.Parameters
import PegMachine.Proofs.Emitting
import PegMachine.Proofs.Signatures
import PegMachine.Proofs.Comments
import PegMachine.Proofs.Listings
import PegMachine.Proofs.Reports
import PegMachine.Proofs.StoredOptions
import PegMachine.Proofs.StoredArtefacts
import PegMachine.Proofs.Escapes
import PegMachine.Proofs.ReadingBack
import PegMachine.Proofs.Walks
import PegMachine.Proofs.Depths
import PegMachine.Proofs.Naming
import PegMachine.Proofs.Combining
