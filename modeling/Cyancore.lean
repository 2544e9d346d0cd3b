import Cyancore.Basic
import Cyancore.Helios.Sched
import Cyancore.Helios.Tasks
import Cyancore.Libc.HeapChain
import Cyancore.Libc.HeapSafety
import Cyancore.Libc.MallocLite
import Cyancore.Math.ByteMemory
import Cyancore.Math.Outcome
import Cyancore.Math.Ring
import Cyancore.Math.Tiling
import Cyancore.Math.Transition
import Cyancore.Helios.Lists
import Cyancore.Helios.WaitList
import Cyancore.Helios.ReadyList
import Cyancore.Helios.Boot
import Cyancore.Helios.Handles
import Cyancore.Helios.Mutex
import Cyancore.Helios.Sem
import Cyancore.Helios.Despatch
import Cyancore.Math.Thread
import Cyancore.Helios.Sweep
import Cyancore.Helios.Rotation
import Cyancore.Helios.Sleep
import Cyancore.Helios.Bracket
import Cyancore.Math.Interleaving
import Cyancore.Locks.Bakerylock
import Cyancore.Locks.BakeryExclusion
import Cyancore.Locks.BakeryTickets
import Cyancore.Locks.BakeryOrder
import Cyancore.Math.InfiniteRun
import Cyancore.Arch.Avr
import Cyancore.Locks.Spinlock
import Cyancore.Locks.SpinlockExclusion
import Cyancore.Driver.Driver
import Cyancore.Math.Buckets
import Cyancore.Driver.Order
import Cyancore.Driver.Lifecycle
import Cyancore.Driver.Race
import Cyancore.Driver.Sysclk
import Cyancore.Math.SinglyLinked
import Cyancore.Driver.ClkRegistry
import Cyancore.Driver.ClkNotify
import Cyancore.Driver.Prci
import Cyancore.Driver.SysclkPrci
import Cyancore.Driver.ClockTree
import Cyancore.Driver.PllSearch
import Cyancore.Driver.CoreClock
import Cyancore.Arch.Critical
import Cyancore.Arch.Trap
import Cyancore.Locks.SpinlockRiscv
import Cyancore.Arch.VisorCall
import Cyancore.Arch.TrapDispatch
import Cyancore.Driver.Gpio
import Cyancore.Driver.Plic
import Cyancore.Driver.GpioFe310
import Cyancore.Driver.GpioMegaAvr
import Cyancore.Driver.ConsoleSerial
import Cyancore.Driver.Attach
import Cyancore.Driver.SchedclkMegaAvr
import Cyancore.Driver.TimerMegaAvr
import Cyancore.Driver.AdcMegaAvr
import Cyancore.Libc.Strton
import Cyancore.Libc.Printf
import Cyancore.Libc.RoundTrip
import Cyancore.Libc.Scanf
import Cyancore.Driver.ClockReport
import Cyancore.Posix.Semaphore
import Cyancore.Posix.Mqueue
import Cyancore.Posix.MqTransfer
import Cyancore.Posix.MqOpen
import Cyancore.Posix.MqLock
import Cyancore.Libc.HeapAnswer
import Cyancore.Libc.HeapUndo
import Cyancore.Libc.HeapUsage
import Cyancore.Libc.Realloc
import Cyancore.Libc.RequestSize
import Cyancore.Helios.Tick
import Cyancore.Helios.Priority
import Cyancore.Libc.Overrun
import Cyancore.Helios.RoundRobin
import Cyancore.Helios.Watchdog
import Cyancore.Helios.Idle
import Cyancore.Helios.LowMemory
import Cyancore.Helios.MutexBooks
import Cyancore.Helios.PauseResume
import Cyancore.Math.RunningBest
import Cyancore.Driver.PllOptimal
import Cyancore.Driver.PllRegisters
import Cyancore.Arch.Resume
import Cyancore.Driver.PlicBits
import Cyancore.Driver.GpioAtomic
import Cyancore.Driver.Clint
import Cyancore.Driver.SchedclkClint
import Cyancore.Math.MixedRadix
import Cyancore.Math.Polling
import Cyancore.Libc.Time
import Cyancore.Posix.Ticks
import Cyancore.Posix.DeltaTicks
import Cyancore.Posix.TimespecSum
import Cyancore.Posix.MqAccess
import Cyancore.Libc.Directives
import Cyancore.Libc.FormatRun
import Cyancore.Libc.PrintFloat
import Cyancore.Libc.Precision
import Cyancore.Libc.LineEdit
import Cyancore.Libc.WordEdit
import Cyancore.Libc.Atof
import Cyancore.Libc.MemCopy
import Cyancore.Math.Terminated
import Cyancore.Libc.Strings
import Cyancore.Libc.Strlcpy
import Cyancore.Libc.Rand
import Cyancore.Math.Cofactors
import Cyancore.Nmath.MultiplicativeInverse
import Cyancore.Nmath.Arithmetic
import Cyancore.Nmath.Primality
import Cyancore.Math.Convolution
import Cyancore.Nmath.Conv
import Cyancore.Helios.ListEdits
import Cyancore.Libc.DigitBuffer
import Cyancore.Locks.BakeryProgress
import Cyancore.Locks.SpinlockAtomic
import Cyancore.Arch.BootBarrier
import Cyancore.Libc.HeapClient
import Cyancore.Driver.MemLog
import Cyancore.Driver.PinsFe310
import Cyancore.Driver.PinsMegaAvr
import Cyancore.Driver.ConsoleMegaAvr
import Cyancore.Driver.ConsoleReadMegaAvr
import Cyancore.Driver.ClockReadback
import Cyancore.Driver.SerialClock
import Cyancore.Libc.Search
