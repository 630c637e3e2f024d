import LockingDb.Database
import LockingDb.LogFile
import LockingDb.RowBench
import LockingDb.Script
import LockingDb.Proofs.NoMissedGrant
import LockingDb.Proofs.StoreContents
import LockingDb.Proofs.CommitOrder
import LockingDb.Proofs.ActionLog
import LockingDb.Proofs.Ledger
import LockingDb.Proofs.QuietCalls
import LockingDb.Proofs.LedgerInStep
import LockingDb.Proofs.LedgerCalls
import LockingDb.Proofs.LedgerCommit
import LockingDb.Proofs.DraftMarks
import LockingDb.Proofs.SessionLedger
import LockingDb.Proofs.LedgerSteps
import LockingDb.Proofs.LedgerSessionCalls
import LockingDb.Proofs.DatabaseLedger
import LockingDb.Proofs.ScanView
import LockingDb.Proofs.RollbackInverse
import LockingDb.Proofs.LogReplay
import LockingDb.Proofs.LogBatches
import LockingDb.Proofs.RowNumbers
import LockingDb.Proofs.WakeUps
import LockingDb.Proofs.Books
import LockingDb.Proofs.TransactionEnd
import LockingDb.Proofs.SessionMoves
import LockingDb.Proofs.CallMoves
import LockingDb.Proofs.DatabaseStanding
import LockingDb.Proofs.StrictLocking
import LockingDb.Proofs.SessionReplies
import LockingDb.Proofs.SessionBoundary
import LockingDb.Proofs.FailedCommit
import LockingDb.Proofs.AbortedTransactions
import LockingDb.Proofs.TextRoundTrip
import LockingDb.Proofs.TreeRoundTrip
import LockingDb.Proofs.RecordRoundTrip
import LockingDb.Proofs.LogRefinement
import LockingDb.Proofs.LogKeeping
import LockingDb.Proofs.SavepointRollback
import LockingDb.Proofs.StatementAtomicity
import LockingDb.Proofs.RowOwners
import LockingDb.Proofs.OwnedRows
import LockingDb.Proofs.LogAppending
import LockingDb.Proofs.StoredDoubles
import LockingDb.Proofs.GrantedLocks
import LockingDb.Proofs.Overtaking
import LockingDb.Proofs.ClockTimes
import LockingDb.Proofs.Timestamps
import LockingDb.Proofs.CoordinatorLocks
import LockingDb.Proofs.LockEntries
import LockingDb.Proofs.OpenTransactions
import LockingDb.Proofs.CheckedHandover
import LockingDb.Proofs.ChangedRequests
import LockingDb.Proofs.AskingAgain
import LockingDb.Proofs.RowPlaces
import LockingDb.Proofs.ReinsertedRows
import LockingDb.Proofs.TransactionTerms
import LockingDb.Proofs.ChosenModes
import LockingDb.Proofs.AcquireLaw
import LockingDb.Proofs.SinglePass
import LockingDb.Proofs.StaleSavepoints
import LockingDb.Proofs.RedoSignals
import LockingDb.Proofs.RedoRequests
import LockingDb.Proofs.SavepointMoves
import LockingDb.Proofs.SavepointStack
import LockingDb.Proofs.ReadOnlyWork
import LockingDb.Proofs.StorePlaces
import LockingDb.Proofs.SturdyTables
import LockingDb.Proofs.LoggedPlaces
import LockingDb.Proofs.StoreTurns
import LockingDb.Proofs.FaultyRuns
import LockingDb.Proofs.FinishedTransactions
import LockingDb.Proofs.HeldRequests
import LockingDb.Proofs.StoreRuns
import LockingDb.Proofs.Allocation
import LockingDb.Proofs.ReclaimedRows
import LockingDb.Proofs.ValueEquality
import LockingDb.Proofs.CycleSearch
import LockingDb.Proofs.RowIndex
