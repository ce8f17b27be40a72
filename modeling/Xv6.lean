import Xv6.Transition.Run
import Xv6.Transition.Scan
import Xv6.Transition.RoundRobin
import Xv6.Transition.Stride
import Xv6.Transition.RedoLog
import Xv6.Transition.Tally
import Xv6.Transition.Hoare
import Xv6.Transition.Ownership
import Xv6.Transition.Ring
import Xv6.Transition.Chain
import Xv6.Proc.Table
import Xv6.Proc.Fss
import Xv6.Proc.Arguments
import Xv6.Proc.Calls
import Xv6.Proc.Kernel
import Xv6.Proc.Slots
import Xv6.Proc.Entry
import Xv6.Proc.Groups
import Xv6.Proc.FairShare
import Xv6.Proc.PassOrder
import Xv6.Proc.Tree
import Xv6.Proc.Kill
import Xv6.Proc.Ticks
import Xv6.Proc.Setgroup
import Xv6.Proc.RoundRobin
import Xv6.Proc.Waitx
import Xv6.Proc.Starvation
import Xv6.Proc.Reaping
import Xv6.Fs.Block
import Xv6.Fs.Cache
import Xv6.Fs.Machine
import Xv6.Fs.Refs
import Xv6.Fs.Ops
import Xv6.Fs.Owners
import Xv6.Fs.Contents
import Xv6.Fs.Stage
import Xv6.Fs.Journal
import Xv6.Fs.Ledger
import Xv6.Fs.Admission
import Xv6.Fs.Room
import Xv6.Fs.Flat
import Xv6.Fs.Icache
import Xv6.Fs.InodeRefs
import Xv6.Fs.InodeCopies
import Xv6.Fs.InodeCache
import Xv6.Files.State
import Xv6.Files.Inodes
import Xv6.Files.Names
import Xv6.Files.Calls
import Xv6.Files.Sys
import Xv6.Files.Blocks
import Xv6.Files.Bmap
import Xv6.Files.Contents
import Xv6.Files.Nodes
import Xv6.Files.NodeOps
import Xv6.Files.Lookup
import Xv6.Files.Quiet
import Xv6.Files.Dirents
import Xv6.Files.CallSpecs
import Xv6.Files.ByteArray
import Xv6.Files.Runs
import Xv6.Files.Failures
import Xv6.Sync.Machine
import Xv6.Sync.Monitor
import Xv6.Sync.Condition
import Xv6.Sync.Console
import Xv6.Sync.LineDiscipline
import Xv6.Sync.Ide
import Xv6.Sync.IdeQueue
import Xv6.Sync.IdeRequests
import Xv6.Sync.SleepLock
import Xv6.Sync.Pipe
import Xv6.Sync.PipeWakeups
import Xv6.Sync.Clock
import Xv6.Files.LogSpace
import Xv6.Files.SharedFile
import Xv6.Mkfs.Image
import Xv6.Mkfs.Append
import Xv6.Mkfs.Made
import Xv6.Mkfs.Run
import Xv6.Mkfs.Consistency
import Xv6.Mkfs.ReadBack
import Xv6.Files.OneWriter
import Xv6.Files.Open
import Xv6.Transition.Holdings
import Xv6.Vm.Memory
import Xv6.Vm.Space
import Xv6.Vm.Grow
import Xv6.Vm.Kernel
import Xv6.Vm.Copy
import Xv6.Exec.Program
import Xv6.Vm.Copyout
import Xv6.Exec.Load
import Xv6.Exec.Stack
import Xv6.Exec.Outcome
import Xv6.Exec.Gap
import Xv6.Files.Resolve
import Xv6.Files.DirNames
import Xv6.Files.Transactions
import Xv6.User.Memmove
import Xv6.User.Regexp
import Xv6.User.Grep
import Xv6.Boot.Mp
import Xv6.Transition.Linked
import Xv6.Fs.Lru
import Xv6.Vm.Dealloc
