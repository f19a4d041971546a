import XChainVM.Js.Value
import XChainVM.Machine.Run
import XChainVM.Gas.Tracker
import XChainVM.Executor.Settlement
import XChainVM.Executor.Authenticity
import XChainVM.Executor.HostTermination
import XChainVM.Executor.Liveness
import XChainVM.Executor.SnapshotAgreement
import XChainVM.Runtime.GasCeiling
import XChainVM.Runtime.CallTree
import XChainVM.Runtime.StateContinuity
import XChainVM.Harness.PaidAllocations
import XChainVM.Harness.PaidLoops
import XChainVM.Allocators.SpreadOrder
import XChainVM.Allocators.Concatenation
import XChainVM.Allocators.MemberConcat
import XChainVM.Allocators.ObjectSpreadOrder
import XChainVM.Metering.Hygiene
import XChainVM.Runtime.IdentifierDistinct
import XChainVM.Metering.RestPartition
import XChainVM.Metering.ShadowedReads
import XChainVM.NativeStack.Guarded
import XChainVM.Json.ReviverWalk
import XChainVM.Stringify.NativeDepth
import XChainVM.Lint.EarlyStop
import XChainVM.Guards.NativeDepth
import XChainVM.Guards.DepthWalk
import XChainVM.Guards.RootWalk
import XChainVM.Guards.FrameWalk
import XChainVM.Guards.CycleCheck
import XChainVM.Js.Double
import XChainVM.SetAlgebra.Methods
import XChainVM.SetAlgebra.Wrapper
import XChainVM.SetAlgebra.Counting
import XChainVM.SetAlgebra.MeteredRuns
import XChainVM.SetAlgebra.WrapperRuns
import XChainVM.SetAlgebra.Charges
import XChainVM.SetAlgebra.DocumentedCharge
import XChainVM.Json.Descent
import XChainVM.Json.Recognition
import XChainVM.Json.ParseDepth
import XChainVM.Manifest.Serializer
import XChainVM.Manifest.Wrapper
import XChainVM.Manifest.Verdicts
import XChainVM.Manifest.Ending
import XChainVM.SparseCallback.Objects
import XChainVM.SparseCallback.Program
import XChainVM.SparseCallback.Probe
import XChainVM.SparseCallback.Beside
import XChainVM.SparseCallback.Transparency
import XChainVM.SparseCallback.Reentry
import XChainVM.Machine.Relate
import XChainVM.Reentrant.Program
import XChainVM.Reentrant.Resolver
import XChainVM.Reentrant.Pools
import XChainVM.Reentrant.Beside
import XChainVM.Reentrant.Resolution
import XChainVM.Reentrant.Nesting
import XChainVM.Lint.BannedSurface
import XChainVM.Lint.Composition
import XChainVM.Lint.Refinement
import XChainVM.Lint.Gate
import XChainVM.Machine.Memo
import XChainVM.Runtime.LintAndMetering
import XChainVM.Runtime.StripCopy
import XChainVM.Splice.Occurrences
import XChainVM.Splice.Spans
import XChainVM.Harness.Derivation
import XChainVM.Harness.DerivedText
import XChainVM.Metering.BinaryChains
import XChainVM.Math.Decimal
import XChainVM.Math.OutputMeter
import XChainVM.DepthGuard.Program
import XChainVM.DepthGuard.Run
import XChainVM.DepthGuard.Keeps
import XChainVM.DepthGuard.Sticky
import XChainVM.Metering.FrameSlots
import XChainVM.Metering.StrictPhases
import XChainVM.Metering.StrictTransform
import XChainVM.Metering.Directives
import XChainVM.Runtime.Emitters
import XChainVM.Runtime.GenuineStatus
import XChainVM.Runtime.EmissionAtomicity
import XChainVM.Executor.ClosedLoop
import XChainVM.Visits.ControlFlow
import XChainVM.Visits.Coverage
import XChainVM.Runtime.GatewayRuns
import XChainVM.Harness.Selection
import XChainVM.Js.Utf16
import XChainVM.Runtime.CompileCaches
import XChainVM.Simulator.Contracts
import XChainVM.Simulator.StakeViews
