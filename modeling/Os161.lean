import Os161.Kheap.Run
import Os161.Threads.Capacity
import Os161.Threads.Safety
import Os161.Vfs.Safety
import Os161.Vnodes.Emufs
import Os161.Vnodes.Sfs
import Os161.Dev.Console
import Os161.Dev.Shared
import Os161.Asst1.CatsemSafety
import Os161.Asst1.CatlockSafety
import Os161.Mips.TrapSafety
import Os161.Userprog.Pid
import Os161.Sfs.Discard
import Os161.Kern.Uiomove
import Os161.Threads.Fork
import Os161.Kern.Copyinout
import Os161.Vm.Ascopy
import Os161.Vm.Image
import Os161.Sfs.Sync
import Os161.Dev.Lamebus
import Os161.Dev.Lscreen
import Os161.Vfs.Bootfs
import Os161.Userprog.Filelock
import Os161.Dev.Pseudorand
import Os161.Libc.Printnum
import Os161.Vfs.Getdevice
