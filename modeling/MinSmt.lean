import MinSmt.Library.Run
import MinSmt.Library.Trace
import MinSmt.Library.Parking
import MinSmt.Library.Progress
import MinSmt.Library.LinkedQueue
import MinSmt.Library.Scanf
import MinSmt.Scheduler.RunQueue
import MinSmt.Scheduler.TidMap
import MinSmt.Scheduler.WaitQueue
import MinSmt.Scheduler.Waking
import MinSmt.Scheduler.RRScheduler
import MinSmt.Scheduler.Layout
import MinSmt.Scheduler.Scans
import MinSmt.Scheduler.Release
import MinSmt.Scheduler.Threads
import MinSmt.Scheduler.Renaming
import MinSmt.Scheduler.Invariant
import MinSmt.Scheduler.Steps
import MinSmt.Scheduler.TurnToken
import MinSmt.Scheduler.Conservation
import MinSmt.Scheduler.TwoQueues
import MinSmt.Scheduler.TondSync
import MinSmt.Scheduler.StatusChecks
import MinSmt.Scheduler.IdleThread
import MinSmt.Scheduler.Frame
import MinSmt.Scheduler.Exclusion
import MinSmt.Scheduler.SyncLog
import MinSmt.Scheduler.Unseen
import MinSmt.Scheduler.BlockDelay
import MinSmt.Scheduler.Timeouts
import MinSmt.Scheduler.Fairness
import MinSmt.Scheduler.NextThread
import MinSmt.Scheduler.CurrentThread
import MinSmt.Scheduler.NonDetRelease
import MinSmt.Scheduler.NonDetThreads
import MinSmt.Scheduler.NonDetBound
import MinSmt.Scheduler.Fork
import MinSmt.Scheduler.QueueOps
import MinSmt.Scheduler.QueueRuns
import MinSmt.Scheduler.QueueErase
import MinSmt.Scheduler.YieldCounts
import MinSmt.Scheduler.YieldPosition
import MinSmt.Scheduler.Relay
import MinSmt.Scheduler.ThreadIds
import MinSmt.Scheduler.RoleProposals
import MinSmt.Runtime.Handshake
import MinSmt.Runtime.Handles
import MinSmt.Runtime.Objects
import MinSmt.Runtime.Calls
import MinSmt.Runtime.Recorder
import MinSmt.Runtime.TimedCalls
import MinSmt.Runtime.LostWakeups
import MinSmt.Runtime.Deadlines
import MinSmt.Runtime.Frames
import MinSmt.Runtime.ReaderWriter
import MinSmt.Runtime.Waiters
import MinSmt.Runtime.Barriers
import MinSmt.Runtime.Lineups
import MinSmt.Runtime.CondVars
import MinSmt.Runtime.Sleeps
import MinSmt.Runtime.WaiterCounts
import MinSmt.Runtime.Privileges
import MinSmt.Runtime.RoleCounts
import MinSmt.Runtime.CriticalSections
import MinSmt.Runtime.SchedulerLock
import MinSmt.Runtime.Execution
import MinSmt.Runtime.LazyExecution
import MinSmt.Runtime.TurnRenaming
import MinSmt.Runtime.ExecutionRenaming
import MinSmt.Runtime.HandleReuse
import MinSmt.Runtime.Determinism
import MinSmt.Runtime.TurnDiscipline
import MinSmt.Runtime.TurnProjection
import MinSmt.Runtime.RecorderRefinement
import MinSmt.Log.CallRecords
import MinSmt.Runtime.DelayFile
import MinSmt.Options.OptionParser
import MinSmt.Options.DumpedOptions
