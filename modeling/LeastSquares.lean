import LeastSquares.Association.Table
import LeastSquares.Dense.Workspace
import LeastSquares.HalfStep
import LeastSquares.Kernel.Operand
import LeastSquares.Proofs.Association.BirthOrder
import LeastSquares.Proofs.Association.FailedAddition
import LeastSquares.Proofs.Association.FlatMap
import LeastSquares.Proofs.Association.Ghosts
import LeastSquares.Proofs.Association.Interleaving
import LeastSquares.Proofs.Association.Locality
import LeastSquares.Proofs.Association.Rebuilding
import LeastSquares.Proofs.Association.Rendering
import LeastSquares.Proofs.Association.TableReading
import LeastSquares.Proofs.Dense.Addressing
import LeastSquares.Proofs.Dense.LayoutVerdict
import LeastSquares.Proofs.Dense.Rectangular
import LeastSquares.Proofs.Dense.Sharing
import LeastSquares.Proofs.Kernel.CrossOutcome
import LeastSquares.Proofs.Kernel.CrossProducts
import LeastSquares.Proofs.Kernel.MixedLengths
import LeastSquares.Proofs.Kernel.NormalEquations
import LeastSquares.Proofs.Kernel.StoreProjection
import LeastSquares.Proofs.Linear.ApparentRank
import LeastSquares.Proofs.Linear.Backends
import LeastSquares.Proofs.Linear.Degenerate
import LeastSquares.Proofs.Linear.Recovery
import LeastSquares.Proofs.Linear.Relative
import LeastSquares.Proofs.Linear.Solution
import LeastSquares.Proofs.Linear.ZeroPivots
import LeastSquares.Proofs.Settings.Obtained
import LeastSquares.Solver.Journal
