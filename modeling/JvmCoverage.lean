import JvmCoverage.Agent.Description
import JvmCoverage.Main
import JvmCoverage.Proofs.Stability
import JvmCoverage.Proofs.Bookkeeping
import JvmCoverage.Proofs.Unchanged
import JvmCoverage.Proofs.Keys
import JvmCoverage.Proofs.Totals
import JvmCoverage.Proofs.Ledger
import JvmCoverage.Proofs.Agreement
import JvmCoverage.Proofs.LoadOrder
import JvmCoverage.Proofs.LineStatus
import JvmCoverage.Proofs.Counters
import JvmCoverage.Proofs.PrefixFree
import JvmCoverage.Proofs.Transfers
import JvmCoverage.Proofs.SafeAgent
import JvmCoverage.Proofs.LineLookup
import JvmCoverage.Proofs.Widening
import JvmCoverage.Proofs.Branches
import JvmCoverage.Proofs.Reservation
import JvmCoverage.Proofs.SegmentNumber
import JvmCoverage.Proofs.BuiltPool
import JvmCoverage.Proofs.Boundaries
import JvmCoverage.Proofs.Monotone
import JvmCoverage.Proofs.Filing
import JvmCoverage.Proofs.LineShares
import JvmCoverage.Proofs.Verification
import JvmCoverage.Proofs.Inspection
import JvmCoverage.Proofs.Annotations
import JvmCoverage.Proofs.FrameTables
import JvmCoverage.Proofs.Relocation
