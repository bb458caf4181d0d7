import FmacSdk.Foundation.Transition
import FmacSdk.Foundation.RingWindow
import FmacSdk.Foundation.Blocks
import FmacSdk.Foundation.PagedMemory
import FmacSdk.Foundation.RetryQueue
import FmacSdk.Foundation.Writes
import FmacSdk.Foundation.Slots
import FmacSdk.Foundation.ByteMemory
import FmacSdk.Foundation.BoundedFifo
import FmacSdk.Foundation.PreparedLog
import FmacSdk.Foundation.CString
import FmacSdk.Foundation.FlagReg
import FmacSdk.Foundation.OneShot
import FmacSdk.Foundation.BitLanes
import FmacSdk.Foundation.Leases
import FmacSdk.Foundation.Signals
import FmacSdk.Foundation.Tally
import FmacSdk.Foundation.OwnedHeap
import FmacSdk.Foundation.Carving
import FmacSdk.Foundation.Custody
import FmacSdk.Foundation.Chains
import FmacSdk.Foundation.CipherChaining
import FmacSdk.Foundation.BlockMemory
import FmacSdk.Foundation.Cursors
import FmacSdk.Foundation.Objects
import FmacSdk.Foundation.Ascii
import FmacSdk.Foundation.Separators
import FmacSdk.Foundation.BitFields
import FmacSdk.Foundation.Ranks
import FmacSdk.Foundation.Lockstep
import FmacSdk.Foundation.RingStream
import FmacSdk.Common.Errno
import FmacSdk.Common.Rbuffer
import FmacSdk.Common.RbufferFifo
import FmacSdk.Common.RbufferSpace
import FmacSdk.Driver.DwDmac
import FmacSdk.Driver.DwDmacCalls
import FmacSdk.Driver.DmaWaits
import FmacSdk.Driver.M2mDma
import FmacSdk.Driver.M2mDmaCalls
import FmacSdk.Driver.HgtimerHw
import FmacSdk.Driver.TickerApi
import FmacSdk.Driver.HgtimerV2
import FmacSdk.Driver.HgtimerOneShot
import FmacSdk.Driver.HgtimerIntervals
import FmacSdk.Driver.HggpioV2
import FmacSdk.Driver.HggpioV2Afio
import FmacSdk.Driver.HgCrc
import FmacSdk.Driver.HgCrcHold
import FmacSdk.Driver.HgCrcResults
import FmacSdk.Driver.HgCrcSleep
import FmacSdk.Driver.HgSysaes
import FmacSdk.Driver.HgSysaesCbc
import FmacSdk.Driver.HgSysaesCalls
import FmacSdk.Common.HwMemcpy
import FmacSdk.Common.SleepData
import FmacSdk.Common.SleepDataFreesize
import FmacSdk.Common.Strcasecmp
import FmacSdk.Common.Str2ip
import FmacSdk.Common.Strtok
import FmacSdk.Common.HexCodec
import FmacSdk.Common.Hgprintf
import FmacSdk.Hal.Dev
import FmacSdk.Heap.AllocCalls
import FmacSdk.MacBus.MacBus
import FmacSdk.MacBus.UartBus
import FmacSdk.MacBus.UartBusRing
import FmacSdk.MacBus.UartBusFraming
import FmacSdk.MacBus.UartBusFixlen
import FmacSdk.MacBus.UsbBus
import FmacSdk.MacBus.UsbBusOwnership
import FmacSdk.MacBus.SdioBus
import FmacSdk.MacBus.SdioBusQueue
import FmacSdk.MacBus.SdioBusBusy
import FmacSdk.Net.Skmonitor
import FmacSdk.Net.SkmonitorLifetime
import FmacSdk.Net.SkmonitorEvents
import FmacSdk.SpiNor.Flash
import FmacSdk.SpiNor.Write
import FmacSdk.SpiNor.Bus
import FmacSdk.SpiNor.Commands
import FmacSdk.SpiNor.Framing
import FmacSdk.SpiNor.WireModes
import FmacSdk.SpiNor.Busy
import FmacSdk.SpiNor.ReadModes
import FmacSdk.Project.SysConfig
import FmacSdk.Project.Syscfg
import FmacSdk.Project.WifiCfg
import FmacSdk.Project.SyscfgRanges
import FmacSdk.Project.Atcmd
import FmacSdk.Project.IfaceIndex
import FmacSdk.Project.SyscfgFlush
import FmacSdk.Project.PairSta
import FmacSdk.Project.PairList
import FmacSdk.Project.Bounds
import FmacSdk.Project.ChanList
import FmacSdk.Project.Repeat
import FmacSdk.Project.SyscfgBoot
import FmacSdk.Project.ModeSwitch
import FmacSdk.Project.AtCredentials
import FmacSdk.Posix.Rwlock
import FmacSdk.Posix.RwlockWakeups
import FmacSdk.Posix.PthreadMutex
import FmacSdk.Posix.RwlockInit
import FmacSdk.Posix.RwlockCalls
import FmacSdk.Posix.Pthread
import FmacSdk.Posix.PthreadPhase
import FmacSdk.Posix.PthreadLifetime
import FmacSdk.Posix.PthreadTls
import FmacSdk.Posix.PthreadOnce
import FmacSdk.Posix.PthreadBarrier
import FmacSdk.Posix.TimespecDelta
import FmacSdk.Posix.Mqueue
import FmacSdk.Posix.MqueueNames
import FmacSdk.Posix.MqueueLifetime
import FmacSdk.Posix.Semaphore
import FmacSdk.Posix.Environ
import FmacSdk.Posix.Stdio
import FmacSdk.Posix.Timer
import FmacSdk.Posix.TimerQuery
import FmacSdk.Docker.CdkprojToMakefile
import FmacSdk.Rhino.Kstat
import FmacSdk.Rhino.Headlen
import FmacSdk.Rhino.Ringbuf
import FmacSdk.Rhino.Fifo
import FmacSdk.Foundation.CircularList
import FmacSdk.Foundation.WaitList
import FmacSdk.Rhino.Bitmap
import FmacSdk.Rhino.Klist
import FmacSdk.Rhino.ReadyQueue
import FmacSdk.Rhino.TimeSlice
import FmacSdk.Foundation.Donation
import FmacSdk.Rhino.Sched
import FmacSdk.Rhino.SchedMoves
import FmacSdk.Rhino.SchedCalls
import FmacSdk.Rhino.Kernel
import FmacSdk.Rhino.MutexPri
import FmacSdk.Rhino.KernelKept
import FmacSdk.Rhino.ObjectCalls
import FmacSdk.Rhino.MutexPass
import FmacSdk.Rhino.MutexCalls
import FmacSdk.Rhino.TaskCalls
import FmacSdk.Rhino.Ticks
import FmacSdk.Rhino.KernelRuns
import FmacSdk.Rhino.KernelEnds
