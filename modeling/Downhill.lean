import Downhill.Cache.Basic
import Downhill.Json.Printer
import Downhill.Json.Reader
import Downhill.Problem.Classifier
import Downhill.Problem.Polynomial
import Downhill.Stored.Comparison
import Downhill.Stored.Options
import Downhill.Stored.Trace
import Downhill.Proofs.Iteration
import Downhill.Proofs.RunHistory
import Downhill.Proofs.RecordChain
import Downhill.Proofs.EvaluationAccounts
import Downhill.Proofs.Backtracking
import Downhill.Proofs.RunsInStep
import Downhill.Proofs.IdleMemory
import Downhill.Proofs.ReadFields
import Downhill.Proofs.DirectionLengths
import Downhill.Proofs.ExactStopping
import Downhill.Proofs.NumberOrder
import Downhill.Proofs.Truncation
import Downhill.Proofs.MemoryQueue
import Downhill.Proofs.InverseHessian
import Downhill.Proofs.CacheRecency
import Downhill.Proofs.CacheTransparency
import Downhill.Proofs.Narrowing
import Downhill.Proofs.StoredTraces
import Downhill.Proofs.SufficientDecrease
import Downhill.Proofs.PositiveMemory
import Downhill.Proofs.RealMatrices
import Downhill.Proofs.Elimination
import Downhill.Proofs.PositiveDefinite
import Downhill.Proofs.NewtonCertificate
import Downhill.Proofs.SmallPivots
import Downhill.Proofs.TriangularFactors
import Downhill.Proofs.AcceptedOptions
import Downhill.Proofs.ConvexNewton
import Downhill.Proofs.AcceptedSteps
import Downhill.Proofs.SmoothDescent
import Downhill.Proofs.QuadraticValues
import Downhill.Proofs.FixedSteps
import Downhill.Proofs.NewtonQuadratic
import Downhill.Proofs.DiagonalHessians
import Downhill.Proofs.CharacteristicRoots
import Downhill.Proofs.SpectralDiagnostics
import Downhill.Proofs.InverseBounds
import Downhill.Proofs.LbfgsQuadratic
import Downhill.Proofs.SpecialValues
import Downhill.Proofs.DampedDiagonals
import Downhill.Proofs.NonFiniteHessians
import Downhill.Proofs.UphillDirections
import Downhill.Proofs.LiftedPoints
import Downhill.Proofs.MarginLosses
import Downhill.Proofs.ClampedProbabilities
import Downhill.Proofs.LogisticGradient
import Downhill.Proofs.GramHessians
import Downhill.Proofs.NamedMinimizers
import Downhill.Proofs.ExactDerivatives
import Downhill.Proofs.QuadraticMinimizers
import Downhill.Proofs.Verdicts
import Downhill.Proofs.SwappedRuns
import Downhill.Proofs.UndefinedResults
import Downhill.Proofs.SoundPasses
import Downhill.Proofs.KeySeparation
import Downhill.Proofs.StoredRecords
