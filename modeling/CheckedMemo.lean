import CheckedMemo.Script.Caches
import CheckedMemo.Script.Data
import CheckedMemo.Script.Queries
import CheckedMemo.Transcript
import CheckedMemo.Proofs.Effects
import CheckedMemo.Proofs.Change
import CheckedMemo.Proofs.Views
import CheckedMemo.Proofs.Contents
import CheckedMemo.Proofs.Computations
import CheckedMemo.Proofs.SingleComputation
import CheckedMemo.Proofs.StoredValues
import CheckedMemo.Proofs.Marks
import CheckedMemo.Proofs.Cleanup
import CheckedMemo.Proofs.Borrowing
import CheckedMemo.Proofs.Trails
import CheckedMemo.Proofs.Evaluation
import CheckedMemo.Proofs.Exclusion
import CheckedMemo.Proofs.RecursiveBody
import CheckedMemo.Proofs.Cycles
import CheckedMemo.Proofs.PlainRecursion
import CheckedMemo.Proofs.Registry
import CheckedMemo.Proofs.Paths
import CheckedMemo.Proofs.Installation
import CheckedMemo.Proofs.ThreadCaches
import CheckedMemo.Proofs.Hooks
import CheckedMemo.Proofs.Extraction
import CheckedMemo.Proofs.HookChains
import CheckedMemo.Proofs.Footprints
import CheckedMemo.Proofs.Uses
import CheckedMemo.Proofs.Sameness
import CheckedMemo.Proofs.Interleaving
import CheckedMemo.Proofs.Journal
import CheckedMemo.Proofs.Counters
import CheckedMemo.Proofs.Fetching
import CheckedMemo.Proofs.Heap
import CheckedMemo.Proofs.Copies
import CheckedMemo.Proofs.Replacement
import CheckedMemo.Proofs.Twins
import CheckedMemo.Proofs.SameContract
import CheckedMemo.Proofs.Refusals
import CheckedMemo.Proofs.LookupPaths
import CheckedMemo.Proofs.KeyEquality
import CheckedMemo.Proofs.WriteOnlyJournal
import CheckedMemo.Proofs.Respelling
import CheckedMemo.Proofs.EqualKeys
import CheckedMemo.Proofs.KeyClasses
import CheckedMemo.Proofs.Lines
import CheckedMemo.Proofs.Configuring
import CheckedMemo.Proofs.Complaints
import CheckedMemo.Proofs.TruthfulFaults
import CheckedMemo.Proofs.LookupAccounts
import CheckedMemo.Proofs.LookupOrder
import CheckedMemo.Proofs.Observability
import CheckedMemo.Proofs.KnownAddresses
import CheckedMemo.Proofs.OneThread
import CheckedMemo.Proofs.EnvironmentSettings
import CheckedMemo.Proofs.TimedBlocks
