import TacAnalysis.Main
import TacAnalysis.Proofs.PointsTo.Soundness
import TacAnalysis.Proofs.Dataflow.Solvers
import TacAnalysis.Proofs.DeadCode
import TacAnalysis.Proofs.Dataflow.LivePaths
import TacAnalysis.Proofs.DeadStatements
import TacAnalysis.Proofs.Interprocedural.ConstantSoundness
import TacAnalysis.Proofs.Execution.Traces
import TacAnalysis.Proofs.Resolution.ExactSplitting
import TacAnalysis.Proofs.Resolution.Hierarchy
import TacAnalysis.Proofs.HierarchyCallGraph
import TacAnalysis.Proofs.CallGraph.Filtering
import TacAnalysis.Proofs.PointsTo.Refinement
import TacAnalysis.Proofs.PointsTo.CallStrings
import TacAnalysis.Proofs.PointsTo.Receivers
import TacAnalysis.Proofs.Graph.Cycles
import TacAnalysis.Proofs.Interprocedural.Comparison
import TacAnalysis.Proofs.Interprocedural.Precision
import TacAnalysis.Proofs.Interprocedural.Steps
import TacAnalysis.Proofs.PointsTo.Bounds
import TacAnalysis.Proofs.PointsTo.Resuming
import TacAnalysis.Proofs.Resolution.ClassTable
import TacAnalysis.Proofs.Resolution.Printing
import TacAnalysis.Proofs.Source.Gap
import TacAnalysis.Proofs.Source.Layout
import TacAnalysis.Proofs.Resolution.Members
import TacAnalysis.Proofs.Resolution.Signatures
import TacAnalysis.Proofs.Resolution.Statements
import TacAnalysis.Proofs.Resolution.WellFormed
import TacAnalysis.Proofs.Resolution.Subtyping
import TacAnalysis.Proofs.Execution.OperatorResults
import TacAnalysis.Proofs.Dataflow.FactEdits
import TacAnalysis.Proofs.CallGraph.Projections
import TacAnalysis.Proofs.PointsTo.Invariants
import TacAnalysis.Proofs.PointsTo.Interning
import TacAnalysis.Proofs.Resolution.ReachingPaths
import TacAnalysis.Proofs.Resolution.Renaming
import TacAnalysis.Proofs.UnionFind
