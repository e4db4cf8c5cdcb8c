import OsLabs.Threads.CondContract
import OsLabs.Devices.Alarm
import OsLabs.Threads.AllList
import OsLabs.Lsh.ExecFailure
import OsLabs.Lsh.Foreground
import OsLabs.Lsh.ParseContract
import OsLabs.Filesys.Removal
import OsLabs.Filesys.Remount
import OsLabs.Devices.PartitionTree
import OsLabs.Devices.Ide
import OsLabs.Devices.Serial
import OsLabs.Threads.PallocRuns
import OsLabs.Filesys.Ustar
import OsLabs.Threads.CommandLine
import OsLabs.Threads.Realloc
import OsLabs.Filesys.AddEntry
import OsLabs.LibC.Arithmetic
import OsLabs.Devices.Calibration
import OsLabs.Devices.IntqFifo
import OsLabs.Devices.Rtc
import OsLabs.LibC.Decimal
import OsLabs.Userprog.LoadCleanup
import OsLabs.Userprog.PageDirRuns
import OsLabs.Userprog.PagingInit
import OsLabs.LibC.String
import OsLabs.LibC.Search
import OsLabs.Lsh.Stripwhite
import OsLabs.Devices.Vga
import OsLabs.LibKernel.ListUnique
import OsLabs.LibC.Sinks
import OsLabs.LibKernel.HashIterator
