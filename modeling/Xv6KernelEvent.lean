import Xv6KernelEvent.Buffer.Contents
import Xv6KernelEvent.Buffer.Order
import Xv6KernelEvent.Device.PipeStream
import Xv6KernelEvent.Event.Residue
import Xv6KernelEvent.Event.WaitSyscall
import Xv6KernelEvent.FileSystem.InodeTable
import Xv6KernelEvent.Memory.KernelExec
import Xv6KernelEvent.Memory.Ownership
import Xv6KernelEvent.Process.EventAccounting
import Xv6KernelEvent.Process.Killing
import Xv6KernelEvent.Process.LockOrder
import Xv6KernelEvent.Process.OneCpu
import Xv6KernelEvent.Process.PidOverflow
import Xv6KernelEvent.Process.Reaping
import Xv6KernelEvent.Storage.ShortWrites
import Xv6KernelEvent.User.GrepStream
import Xv6KernelEvent.User.Printint
import Xv6KernelEvent.Watcher.TimeOrder
