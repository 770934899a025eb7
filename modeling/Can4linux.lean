import Can4linux.Lib.Run
import Can4linux.Lib.Trace
import Can4linux.Lib.Mailbox
import Can4linux.Lib.Ring
import Can4linux.Lib.Count
import Can4linux.Lib.Sole
import Can4linux.Lib.Lens
import Can4linux.Lib.Project
import Can4linux.Lib.Handout
import Can4linux.Defs
import Can4linux.MsgQ
import Can4linux.Spsc
import Can4linux.Regs
import Can4linux.Sja1000
import Can4linux.Dev
import Can4linux.Transfer
import Can4linux.Codec
import Can4linux.RoundTrip
import Can4linux.Sja1000Funcs
import Can4linux.Delay
import Can4linux.Recorder
import Can4linux.FrameKind
import Can4linux.Forward
import Can4linux.FileOps
import Can4linux.Frames
import Can4linux.OpenFail
import Can4linux.Effects
import Can4linux.Sides
import Can4linux.IrqTermination
import Can4linux.System
import Can4linux.Flow
import Can4linux.Session
import Can4linux.Filter
import Can4linux.Reinit
import Can4linux.TxProgress
import Can4linux.TxHandshake
import Can4linux.TxOrder
import Can4linux.RxPath
import Can4linux.Wire
import Can4linux.Calm
import Can4linux.AccFilter
import Can4linux.Drain
import Can4linux.Network
import Can4linux.TestRun
import Can4linux.Window
import Can4linux.Recovery
import Can4linux.Status
import Can4linux.Stamps
import Can4linux.Clock
import Can4linux.Service
import Can4linux.Pressure
import Can4linux.Intake
import Can4linux.Settle
import Can4linux.Driver
import Can4linux.Poll
import Can4linux.Resources
import Can4linux.Leak
import Can4linux.Faults
import Can4linux.Timers
import Can4linux.ErrorFlags
import Can4linux.Lifetime
import Can4linux.IrqSteps
import Can4linux.Reports
import Can4linux.TxBuffer
import Can4linux.Threads
import Can4linux.Exclusion
import Can4linux.Channels
import Can4linux.Independence
import Can4linux.Sends
import Can4linux.UseCount
import Can4linux.Stop
import Can4linux.Indexed
import Can4linux.Lib.Bytes
import Can4linux.CommTest
import Can4linux.PciScan
import Can4linux.Dnpsetup
import Can4linux.Lib.Awk
import Can4linux.SysctlAwk
import Can4linux.SysctlEntries
