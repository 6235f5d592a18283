/-!
# Kernel parameters

The sizes of the tables of `kernel/param.h` and of the ring of `kernel/pipe.c`.
-/

namespace Xv6KernelEvent

def NPROC : Nat := 64

def NOFILE : Nat := 16

def NINODE : Nat := 50

def NDEV : Nat := 10

def PIPESIZE : Nat := 512

end Xv6KernelEvent
