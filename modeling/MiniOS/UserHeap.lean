import MiniOS.ByteMemory
import MiniOS.LinkedRing
import MiniOS.SpanTiling

/-!
# The allocator of user programs

The functions of `user/umalloc.h` over the memory of a program.  A block starts with a header
of eight bytes: the address of the next free block, and the size of the block in units of
headers.  The free blocks and `umalloc_base` form a circular list; `umalloc_freep` is the
place in it where the next search starts, and 0 before the first allocation.

Addresses and sizes are numbers below `2 ^ 32` and their arithmetic wraps around.  The loops
of the source have no bound: they take the number of turns they may make, and a result of
`none` says that they have not ended within it.
-/

namespace MiniOS.UserHeap

open ByteMemory LinkedRing

/-- The memory of the program, `umalloc_freep`, and the memory that `sys_sbrk` has handed
out so far, the latest first. -/
structure Heap where
  mem : Region
  freep : Nat
  obtained : List Span

/-- The answers of the kernel: with the memory handed out so far and the number of bytes
wanted, the start of the new memory, or `none` for -1. -/
abbrev Sbrk := List Span → Nat → Option Nat

def nalloc : Nat := 1024

def headerSize : Nat := 8

variable (h : Heap)

namespace Heap

def next (p : Nat) : Nat := load32 h.mem p

def size (p : Nat) : Nat := load32 h.mem (p + 4)

def setNext (p value : Nat) : Heap := { h with mem := store32 h.mem p value }

def setSize (p value : Nat) : Heap := { h with mem := store32 h.mem (p + 4) value }

def setByte (address : Nat) (value : UInt8) : Heap :=
  { h with mem := Function.update h.mem address value }

end Heap

/-- The pointer `units` headers further on. -/
def forward (p units : Nat) : Nat := (p + headerSize * units) % 2 ^ 32

/-- The header of the block with the payload at `ap`. -/
def headerOf (ap : Nat) : Nat := (2 ^ 32 - headerSize + ap) % 2 ^ 32

/-- The conditions that end the loop of `free`: the block lies between two neighbours of the
list, or at its end, where the addresses start again. -/
def freeStop (bp p : Nat) : Bool :=
  (p < bp && bp < h.next p) || (h.next p ≤ p && (p < bp || bp < h.next p))

/-- The first half of what follows the loop: the block gets its successor, or takes over the
one that starts at its end. -/
def joinUpper (bp p : Nat) : Heap :=
  if forward bp (h.size bp) = h.next p then
    let h := h.setSize bp (h.size bp + h.size (h.next p))
    h.setNext bp (h.next (h.next p))
  else h.setNext bp (h.next p)

/-- The second half: the predecessor leads to the block, or takes it over. -/
def joinLower (bp p : Nat) : Heap :=
  if forward p (h.size p) = bp then
    let h := h.setSize p (h.size p + h.size bp)
    h.setNext p (h.next bp)
  else h.setNext p bp

def free (turns : Nat) (h : Heap) (ap : Nat) : Option Heap :=
  if ap = 0 then some h
  else
    let bp := headerOf ap
    match search h.next (freeStop h bp) turns h.freep with
    | none => none
    | some p => some { joinLower (joinUpper h bp p) bp p with freep := p }

/-- The units that `umalloc_morecore` asks for. -/
def coreUnits (nu : Nat) : Nat := if nu < nalloc then nalloc else nu

/-- `umalloc_morecore`: the heap and the pointer returned. -/
def morecore (sbrk : Sbrk) (turns : Nat) (h : Heap) (nu : Nat) : Option (Heap × Nat) :=
  let nu := coreUnits nu
  if 0x7FFFFFFF / headerSize < nu then some (h, 0)
  else
    match sbrk h.obtained (nu * headerSize) with
    | none => some (h, 0)
    | some cp =>
      let h := { h with obtained := ⟨cp, nu * headerSize⟩ :: h.obtained }
      (free turns (h.setSize cp nu) (forward cp 1)).map fun h => (h, h.freep)

/-- What `malloc` does with a block `p` that is large enough, and the payload returned. -/
def take (nunits prevp p : Nat) : Heap × Nat :=
  if h.size p = nunits then
    ({ h.setNext prevp (h.next p) with freep := prevp }, forward p 1)
  else
    let h := h.setSize p ((2 ^ 32 - nunits + h.size p) % 2 ^ 32)
    let p := forward p (h.size p)
    ({ h.setSize p nunits with freep := prevp }, forward p 1)

def mallocLoop (sbrk : Sbrk) (nunits : Nat) : (turns : Nat) → Heap → (prevp p : Nat) →
    Option (Heap × Nat)
  | 0, _, _, _ => none
  | turns + 1, h, prevp, p =>
    if nunits ≤ h.size p then some (take h nunits prevp p)
    else if p = h.freep then
      match morecore sbrk turns h nunits with
      | none => none
      | some (h, p) => if p = 0 then some (h, 0) else mallocLoop sbrk nunits turns h p (h.next p)
    else mallocLoop sbrk nunits turns h p (h.next p)

/-- The units of a block with `nbytes` bytes of payload, its header included. -/
def unitsFor (nbytes : Nat) : Nat := (nbytes + headerSize - 1) % 2 ^ 32 / headerSize + 1

/-- The list with nothing but `umalloc_base`, made by the first allocation. -/
def prepared (base : Nat) (h : Heap) : Heap :=
  if h.freep = 0 then ({ h.setNext base base with freep := base }).setSize base 0 else h

/-- `malloc`; `base` is the address of `umalloc_base`. -/
def malloc (base : Nat) (sbrk : Sbrk) (turns : Nat) (h : Heap) (nbytes : Nat) :
    Option (Heap × Nat) :=
  if nbytes = 0 then some (h, 0)
  else
    let h := prepared base h
    mallocLoop sbrk (unitsFor nbytes) turns h h.freep (h.next h.freep)

/-- The loop of `calloc`: `count` bytes from `p` on are cleared. -/
def clear (h : Heap) (p : Nat) : (count : Nat) → Heap
  | 0 => h
  | count + 1 => (clear h p count).setByte ((p + count) % 2 ^ 32) 0

/-- The loop of `realloc`: `count` bytes are copied from `ap` to `np`. -/
def copy (h : Heap) (np ap : Nat) : (count : Nat) → Heap
  | 0 => h
  | count + 1 =>
    let h := copy h np ap count
    h.setByte ((np + count) % 2 ^ 32) (h.mem ((ap + count) % 2 ^ 32))

def calloc (base : Nat) (sbrk : Sbrk) (turns : Nat) (h : Heap) (count size : Nat) :
    Option (Heap × Nat) :=
  let total := count * size % 2 ^ 32
  if count ≠ 0 ∧ total / count ≠ size then some (h, 0)
  else
    (malloc base sbrk turns h total).map fun (h, p) =>
      if p = 0 then (h, 0) else (clear h p total, p)

def usable (ap : Nat) : Nat :=
  (2 ^ 32 - 1 + h.size (headerOf ap)) % 2 ^ 32 * headerSize % 2 ^ 32

def realloc (base : Nat) (sbrk : Sbrk) (turns : Nat) (h : Heap) (ap nbytes : Nat) :
    Option (Heap × Nat) :=
  if ap = 0 then malloc base sbrk turns h nbytes
  else if nbytes = 0 then (free turns h ap).map fun h => (h, 0)
  else
    let old := usable h ap
    if nbytes ≤ old then some (h, ap)
    else
      match malloc base sbrk turns h nbytes with
      | none => none
      | some (h, np) =>
        if np = 0 then some (h, 0)
        else (free turns (copy h np ap old) ap).map fun h => (h, np)

end MiniOS.UserHeap
