import CppDb.RecordPages
import CppDb.Restart
import CppDb.AdapterAgreement
import CppDb.IndexPersistence
import CppDb.FreeSpaceMap
import CppDb.Recovery
import CppDb.Durability
import CppDb.EntrySizes
import CppDb.FlushFailures
import CppDb.TornTails
import CppDb.Rejection
import CppDb.Flusher
import CppDb.Completions
import CppDb.OpIds
import CppDb.Replay
import CppDb.RecordSize
import CppDb.RecordChecks
import CppDb.Allocation
import CppDb.MapLoading
import CppDb.IndexLoading
import CppDb.Acceptance
import CppDb.Delivery
import CppDb.Termination
import CppDb.PageAddressing
import CppDb.Clearing
import CppDb.LongValues
import CppDb.Returns
import CppDb.IndexSessions
import CppDb.FreeSpaceSessions
import CppDb.Trimming
import CppDb.StorageRuns
import CppDb.CheckedMutex
import CppDb.Interleavings
import CppDb.LogBytes
import CppDb.HashingAdapter
import CppDb.LogHistory
import CppDb.RandomAccess
