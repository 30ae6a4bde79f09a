import MeuOS.Io.Completion
import MeuOS.Ke.DpcRuns
import MeuOS.Ke.Semaphores
import MeuOS.Ke.PeriodicWait
import MeuOS.Ke.InterruptRuns
import MeuOS.Ntfs.Enumeration
import MeuOS.Ex.CallbackRuns
import MeuOS.Ps.LookupRuns
import MeuOS.Ps.CidRuns
import MeuOS.Ke.ThreadWaits
import MeuOS.Ex.MutexRuns
import MeuOS.Ex.ResourceRuns
import MeuOS.Lpc.PipeNames
import MeuOS.Io.DeviceStack
import MeuOS.Syscall.Promises
import MeuOS.Ntfs.ImageBuilder
import MeuOS.Ke.KInterruptRuns
import MeuOS.Syscall.Compat32
import MeuOS.Io.LifetimeRuns
import MeuOS.Ke.IrqlRuns
import MeuOS.Ke.Ring3Children
import MeuOS.Mm.FirstFit
import MeuOS.Mm.VirtMemRuns
import MeuOS.Mm.Mdl
import MeuOS.Mm.FailedMaps
import MeuOS.Ex.PoolRuns
import MeuOS.Ke.TimerDue
import MeuOS.Cm.QueryBuffers
import MeuOS.Ldr.Footprint
import MeuOS.Ldr.ExportImageFits
import MeuOS.Io.SymlinkRuns
import MeuOS.Input.MouseRuns
import MeuOS.Input.VirtioRuns
import MeuOS.Io.BufferedServices
import MeuOS.Display.GpuCopy
import MeuOS.Win32.PaintedRuns
import MeuOS.Combase.GuidText
import MeuOS.Ntdll.CountedStrings
import MeuOS.Ucrt.NumberTrips
import MeuOS.Ntdll.ProcessHeap
import MeuOS.Ntdll.Dispatch
import MeuOS.Ws2.DottedQuad
import MeuOS.Ke.Madt
import MeuOS.Ex.LookasideRuns
import MeuOS.Combase.StreamFiles
import MeuOS.Display.VirtQueueRuns
import MeuOS.Ntfs.Directory
