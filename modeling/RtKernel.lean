import RtKernel.Ipc.Inheritance
import RtKernel.Ipc.MessageDelivery
import RtKernel.Ipc.MailboxQueue
import RtKernel.Ipc.WaitOrder
import RtKernel.Drivers.SerialReceive
import RtKernel.Drivers.SerialOpen
import RtKernel.Drivers.DmaReceive
import RtKernel.Drivers.Completion
import RtKernel.Drivers.SerialTransmit
import RtKernel.Drivers.WorkCancel
import RtKernel.Drivers.PipeWait
import RtKernel.Drivers.CanReceive
import RtKernel.Drivers.CanController
import RtKernel.Drivers.CanSendMode
import RtKernel.Drivers.CanSendResult
import RtKernel.Drivers.CanHdr
import RtKernel.Drivers.KernelCalls
import RtKernel.Posix.Rwlock
import RtKernel.Dfs.FdTable
import RtKernel.Dfs.RamfsBlocks
import RtKernel.Drivers.I2cBits
import RtKernel.Ymodem.Delivery
import RtKernel.Ulog.Drained
import RtKernel.Ulog.Filter
import RtKernel.Timer.SkipRuns
import RtKernel.Ipc.TimedWaits
import RtKernel.Kernel.RoundRobin
import RtKernel.Posix.NamedIpc
import RtKernel.Kernel.TimeSlice
import RtKernel.Ipc.EventPaths
import RtKernel.Ipc.RemainingTime
import RtKernel.Mem.PoolInit
import RtKernel.Mem.PoolOrder
import RtKernel.Print.Console
import RtKernel.Mem.HeapGrants
import RtKernel.Drivers.RingBlkQueue
import RtKernel.Drivers.DataQueueWait
import RtKernel.Drivers.WaitQueue
import RtKernel.Drivers.WorkRefused
import RtKernel.Drivers.SerialStream
import RtKernel.Drivers.SerialWinsize
import RtKernel.Drivers.PinName
import RtKernel.Drivers.CanFilter
import RtKernel.Drivers.CanFrame
import RtKernel.At.Commands
import RtKernel.Drivers.AlarmDays
import RtKernel.Mem.MallocAlign
import RtKernel.Libc.Timegm
import RtKernel.Board.Delay
import RtKernel.Drivers.SpiDma
import RtKernel.Dfs.NormalizePath
import RtKernel.Finsh.Auth
import RtKernel.Finsh.Split
import RtKernel.Finsh.Editor
import RtKernel.Ymodem.Crc
import RtKernel.Ymodem.Repeats
import RtKernel.Libc.TimespecTick
import RtKernel.Print.Bounded
import RtKernel.Drivers.Rtc
import RtKernel.Posix.Barrier
import RtKernel.Libc.PosixTimer
import RtKernel.Ulog.Requests
import RtKernel.Link.Line
