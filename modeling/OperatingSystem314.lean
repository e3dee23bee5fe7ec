import OperatingSystem314.Lib.LinkedSlots
import OperatingSystem314.Lib.Simulation
import OperatingSystem314.Paging.FileIO
import OperatingSystem314.Paging.FifoRuns
import OperatingSystem314.Paging.Memory
import OperatingSystem314.Paging.SwapFile
import OperatingSystem314.Paging.Paged
import OperatingSystem314.Paging.Layout
import OperatingSystem314.Paging.Exchange
import OperatingSystem314.Paging.Exchanged
import OperatingSystem314.Paging.Transparency
import OperatingSystem314.Paging.Frame
import OperatingSystem314.Paging.Coherent
import OperatingSystem314.Paging.Fork
import OperatingSystem314.Paging.Child
import OperatingSystem314.Paging.Release
import OperatingSystem314.Paging.CopyMemory
import OperatingSystem314.Paging.SwapCreate
import OperatingSystem314.Paging.SwapNames
import OperatingSystem314.Paging.SwapCopy
import OperatingSystem314.Paging.ForkReturns
import OperatingSystem314.Paging.SwapCopied
import OperatingSystem314.Paging.ForkMemory
import OperatingSystem314.Paging.Queues
import OperatingSystem314.Lib.PrefixScan
import OperatingSystem314.Lottery.Table
import OperatingSystem314.Lottery.Scheduler
import OperatingSystem314.Lottery.Wakeup
import OperatingSystem314.Lottery.Smp
import OperatingSystem314.Lib.Runs
import OperatingSystem314.Lib.Spill
import OperatingSystem314.Paging.Mapped
import OperatingSystem314.Paging.Growth
import OperatingSystem314.Paging.Dealloc
import OperatingSystem314.Paging.Overgrowth
import OperatingSystem314.Paging.Shrink
import OperatingSystem314.Paging.Atomic
import OperatingSystem314.Lottery.Accounting
import OperatingSystem314.Airport.Channel
import OperatingSystem314.Lib.LightSwitch
import OperatingSystem314.Lib.Threads
import OperatingSystem314.Airport.Priority
import OperatingSystem314.Airport.Stations
import OperatingSystem314.Airport.Progress
import OperatingSystem314.Airport.Simulate
import OperatingSystem314.Lib.Slots
import OperatingSystem314.Airport.Belts
import OperatingSystem314.Paging.Service
import OperatingSystem314.Lib.Ownership
import OperatingSystem314.Paging.Owner
import OperatingSystem314.Paging.Exec
import OperatingSystem314.Paging.Pages
import OperatingSystem314.Paging.Dirs
import OperatingSystem314.Paging.Image
import OperatingSystem314.Paging.Load
import OperatingSystem314.Paging.Stack
import OperatingSystem314.Paging.LoadSteps
import OperatingSystem314.Paging.Calls
import OperatingSystem314.Paging.ForkFails
import OperatingSystem314.Lib.FileTree
import OperatingSystem314.Lib.Folders
import OperatingSystem314.Organiser.Script
import OperatingSystem314.Organiser.Passes
import OperatingSystem314.Organiser.Words
import OperatingSystem314.Organiser.WorkingDir
import OperatingSystem314.Organiser.Output
import OperatingSystem314.Organiser.Outcome
import OperatingSystem314.Paging.Tlb
import OperatingSystem314.Paging.Permissions
import OperatingSystem314.Paging.SafeEviction
import OperatingSystem314.Paging.SwapRuns
import OperatingSystem314.Paging.Phases
import OperatingSystem314.Paging.PhaseCalls
import OperatingSystem314.Paging.Userinit
import OperatingSystem314.Paging.Procdump
import OperatingSystem314.Lottery.Generator
import OperatingSystem314.Lottery.Getpinfo
import OperatingSystem314.Lottery.Settickets
import OperatingSystem314.Lottery.Simlot
import OperatingSystem314.Syscall.Addi
import OperatingSystem314.Syscall.Arguments
import OperatingSystem314.Lib.ByteMemory
import OperatingSystem314.Lib.Congruential
import OperatingSystem314.Airport.Kiosks
import OperatingSystem314.Airport.Names
import OperatingSystem314.Airport.Params
import OperatingSystem314.Organiser.Unquoted
import OperatingSystem314.Paging.Transactions
import OperatingSystem314.Paging.FailedExec
import OperatingSystem314.Paging.BufferFaults
import OperatingSystem314.Paging.Journal
import OperatingSystem314.Paging.FsCalls
import OperatingSystem314.Paging.Exit
import OperatingSystem314.User.Grep
import OperatingSystem314.Storage.Recovery
import OperatingSystem314.Storage.Coherence
import OperatingSystem314.Kernel.PipeRuns
import OperatingSystem314.Kernel.ConsoleLines
import OperatingSystem314.Kernel.ProcessRuns
