import Pintos.Kernel.Memmove
import Pintos.Kernel.BitArrays
import Pintos.Palloc.NextFit
import Pintos.Malloc.Sizes
import Pintos.Malloc.Reallocs
import Pintos.Synch.Monitor
import Pintos.Threads.Wakeups
import Pintos.Threads.Turns
import Pintos.Threads.NewThreads
import Pintos.Userprog.Exec
import Pintos.Userprog.PageFreeing
import Pintos.Filesys.Races
import Pintos.Filesys.Counts
import Pintos.Filesys.MapDrift
import Pintos.Filesys.DirectoryRuns
import Pintos.Filesys.EndMarkers
import Pintos.Userprog.Executables
import Pintos.Syscall.Writing
import Pintos.Threads.CommandLine
import Pintos.Devices.PartitionBlocks
import Pintos.Lib.UstarChecks
import Pintos.Lib.Arithmetic
import Pintos.Lib.Atoi
import Pintos.Lib.Random
import Pintos.Lib.BinarySearch
import Pintos.Lib.Strtok
import Pintos.Lib.Duplicates
import Pintos.Lib.HashIteration
import Pintos.Host.Archives
import Pintos.Devices.Rtc
import Pintos.Devices.Input
import Pintos.Devices.Vga
import Pintos.Devices.Ide
