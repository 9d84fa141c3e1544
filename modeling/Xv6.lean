import Xv6.Library.Machine
import Xv6.Library.CircularQueue
import Xv6.Library.LevelQueues
import Xv6.Process.Table
import Xv6.Process.Queues
import Xv6.Library.LeastScan
import Xv6.Process.Operations
import Xv6.Process.Scheduler
import Xv6.Process.Steps
import Xv6.Process.Effects
import Xv6.Process.Invariant
import Xv6.Process.TableSteps
import Xv6.Mlfq.Passes
import Xv6.Process.Traps
import Xv6.Mlfq.Invariant
import Xv6.Mlfq.Levels
import Xv6.Mlfq.LifeCycle
import Xv6.Mlfq.TimeSlice
import Xv6.Process.Identifiers
import Xv6.Fcfs.Order
import Xv6.Library.CyclicOrder
import Xv6.Pbs.Dispatch
import Xv6.Pbs.Preemption
import Xv6.Accounting.Waitx
import Xv6.Library.RedoLog
import Xv6.Log.Model
import Xv6.Log.Steps
import Xv6.Log.Invariant
import Xv6.Log.Journal
import Xv6.Library.CounterRing
import Xv6.Log.Reservation
import Xv6.Log.CrashAtomicity
import Xv6.Pipe.Model
import Xv6.Library.Ownership
import Xv6.Pipe.Steps
import Xv6.Pipe.Fifo
import Xv6.Pipe.Sleepers
import Xv6.Bio.Model
import Xv6.Bio.Coherence
import Xv6.Library.Panics
import Xv6.Library.Trade
import Xv6.Memory.Model
import Xv6.Memory.Space
import Xv6.Memory.Tables
import Xv6.Memory.Images
import Xv6.File.Table
import Xv6.Memory.Kernel
import Xv6.Memory.Ledger
import Xv6.Memory.Ownership
import Xv6.Memory.Room
import Xv6.Memory.Boot
import Xv6.Memory.PageOwnership
import Xv6.RoundRobin.Fairness
import Xv6.Process.Family
import Xv6.Sleep.Model
import Xv6.Sleep.Wakeups
import Xv6.Shell.Lexer
import Xv6.Shell.Grammar
import Xv6.Fs.Format
import Xv6.Fs.Blocks
import Xv6.Library.BlockMap
import Xv6.Fs.Allocation
import Xv6.Fs.Content
import Xv6.Fs.ReadWrite
import Xv6.Fs.SharedWrites
import Xv6.Mkfs.Model
import Xv6.Mkfs.Simulation
import Xv6.Fs.InodeUpdate
import Xv6.Mkfs.Image
import Xv6.Mkfs.Consistency
import Xv6.Fs.Inodes
import Xv6.Mlfq.Ageing
import Xv6.Mlfq.Selection
import Xv6.Mlfq.TickAccounts
import Xv6.Process.FailingFork
import Xv6.Memory.Growth
import Xv6.Console.Lines
import Xv6.Console.Delivery
import Xv6.Ide.Model
import Xv6.Ide.Refinement
import Xv6.Fs.FileContent
import Xv6.Memory.ExecCopies
import Xv6.Memory.Runs
import Xv6.Process.Reaping
import Xv6.Memory.ExecStack
import Xv6.Memory.ExecImage
import Xv6.Process.FailingExec
import Xv6.Grep.Lines
import Xv6.Mp.Table
import Xv6.Syscall.Arguments
