import Aesd.Syscall.Bounds
import Aesd.Syscall.Leak
import Aesd.Syscall.UserSpace
import Aesd.Ipc.Pipes
import Aesd.Ipc.Queue
import Aesd.Ipc.Shmem
import Aesd.Ipc.Socket
import Aesd.ListSort.Exit
import Aesd.FirstKernelModule
import Aesd.Firmware.Timestamp
import Aesd.Firmware.LoggerStruct
import Aesd.Firmware.Tasks
import Aesd.Firmware.PortE
import Aesd.Lib.Latch
import Aesd.Firmware.Pacing
import Aesd.Firmware.Toggles
import Aesd.Firmware.Delivery
import Aesd.Firmware.Stamps
import Aesd.Lib.ExchangeSort
import Aesd.Pthread.Child1
import Aesd.Pthread.Sort
import Aesd.Pthread.Report
import Aesd.Lib.SharedHandle
import Aesd.Pthread.Threads
import Aesd.Pthread.LogHandle
import Aesd.Pthread.LogStreams
import Aesd.Ipc.Overrun
import Aesd.Firmware.I2c
import Aesd.Pthread.Members
import Aesd.ListSort.Supplied
import Aesd.Pthread.Stat
import Aesd.Ipc.Completion
import Aesd.Ipc.Outcome
import Aesd.Firmware.Console
import Aesd.Syscall.Privileges
import Aesd.Syscall.Sessions
import Aesd.Syscall.Limits
import Aesd.Syscall.Priorities
import Aesd.Syscall.MmLayout
import Aesd.Syscall.MmAuxv
import Aesd.Firmware.UartGets
import Aesd.Syscall.SortingMain
import Aesd.Syscall.Subreaper
