import Mathlib

/-!
# The user address-space layout

The constants of `elf_loader.h` and `syscall.c` that divide the user part of an
address space: the image, heap and stack window below 4 MB, the shared page
above the stack, and the window for `mmap` above the kernel identity map.
-/

namespace MiniOS

namespace UserLayout

def userLoadBase : Nat := 0x300000

def userStackTop : Nat := 0x3F0000

def userStackPages : Nat := 8

def userStackBottom : Nat := userStackTop - userStackPages * 0x1000

def userExtBase : Nat := 0x2000000

def userExtTop : Nat := 0x2400000

def userShmBase : Nat := 0x3F0000

def userShmTop : Nat := userShmBase + 0x1000

end UserLayout

namespace ElfLoader

def maxArgs : Nat := 16

end ElfLoader

end MiniOS
