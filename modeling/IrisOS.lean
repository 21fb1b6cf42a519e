import IrisOS.Cap.Destroy
import IrisOS.Sched.Bandwidth
import IrisOS.Sched.Minting
import IrisOS.Untyped.Carving
import IrisOS.Pager.Bytes
import IrisOS.Asid.Unique
import IrisOS.Pmm.Conservation
import IrisOS.Tcb.Ceiling
import IrisOS.Blk.Confined
import IrisOS.Elf.Bounds
import IrisOS.Timer.Channel
import IrisOS.Malloc.Correct
import IrisOS.Fs.Crash
import IrisOS.Svcmgr.NameMap
import IrisOS.Cap.Refusals
import IrisOS.Cap.Remove
import IrisOS.Untyped.Revocable
import IrisOS.Sched.Late
import IrisOS.Svcmgr.Supervision
import IrisOS.Libc.Offsets
import IrisOS.Program.Refused
import IrisOS.Libc.Sort
import IrisOS.Libc.Stream
import IrisOS.Net.Virtio
import IrisOS.Pager.Leaves
