import BoomStop.Lib.Machine
import BoomStop.Lib.UndoLog
import BoomStop.Lib.RingOrder
import BoomStop.Ucsr
import BoomStop.Process
import BoomStop.Asm
import BoomStop.Checkpoint
import BoomStop.Decode
import BoomStop.Rename
import BoomStop.RenameExact
import BoomStop.Issue
import BoomStop.Wakeup
import BoomStop.Rob
import BoomStop.RobOrder
import BoomStop.RobXcpt
import BoomStop.SampleLeak
import BoomStop.Hella
import BoomStop.Ptrace
import BoomStop.SelfHandle
import BoomStop.Predication
import BoomStop.IssueAge
import BoomStop.Ftq
import BoomStop.FetchBuffer
import BoomStop.BranchMask
import BoomStop.StoreOrder
import BoomStop.CustomPipe
import BoomStop.CustomWrite
import BoomStop.DCachePipe
import BoomStop.BankedRegs
import BoomStop.PipeInterference
import BoomStop.Lib.Shadow
import BoomStop.SfbSample
import BoomStop.Restore
import BoomStop.Takeover
import BoomStop.FetchParse
import BoomStop.BranchUnit
import BoomStop.PathOrder
import BoomStop.CorePath
import BoomStop.Lib.Arbiter
import BoomStop.LsuSched
import BoomStop.Tlb
import BoomStop.FetchPipe
import BoomStop.StoreIssue
import BoomStop.IssuePorts
import BoomStop.Lib.SpecRing
import BoomStop.StoreDeps
import BoomStop.StoreReady
import BoomStop.StoreReport
import BoomStop.RoccShim
import BoomStop.MiniException
import BoomStop.MispCount
import BoomStop.SampleArming
import BoomStop.SampleExit
import BoomStop.Lib.Survivors
import BoomStop.KillableQueue
import BoomStop.BankedArray
import BoomStop.DataBypass
import BoomStop.SyscallPath
import BoomStop.UserCount
import BoomStop.CustomRead
import BoomStop.Dispatch
import BoomStop.Immediates
import BoomStop.PcRebuild
import BoomStop.Predictor
import BoomStop.WrBypass
import BoomStop.Btb
import BoomStop.BankedPredictor
import BoomStop.RepairWalk
import BoomStop.FetchHistory
import BoomStop.StoredHistory
import BoomStop.TextLoad
import BoomStop.Forwarding
import BoomStop.HistoryCut
import BoomStop.RingHelpers
import BoomStop.TlbTranslate
import BoomStop.FuncUnit
import BoomStop.AluExeUnit
import BoomStop.FpuExeUnit
import BoomStop.ExeUnits
import BoomStop.FpFlags
import BoomStop.FpFlagsExact
import BoomStop.Lib.Priority
import BoomStop.Mshr
import BoomStop.MshrExact
import BoomStop.MshrRefill
import BoomStop.DCacheMisses
import BoomStop.LineAnswers
