import MiniOS.PhysicalMemory

/-!
# The kernel heap

`heap.c` keeps its blocks in one list ordered by address.  An allocation takes
the first free block that is large enough, splits off what it does not need,
and asks the physical memory manager for more pages when no block fits.  Pages
are never given back: `granted` records which ones the heap keeps.
-/

namespace MiniOS.KernelHeap

open PhysicalMemory

/-- `sizeof(heap_block_t)` on i386. -/
def heapBlockHeader : Nat := 12

def heapAlignment : Nat := 4

def sizeMax : Nat := 2 ^ 32 - 1

/-- A `heap_block_t` at address `addr`, followed by `size` payload bytes. -/
structure HeapBlock where
  addr : Nat
  size : Nat
  isFree : Bool
deriving DecidableEq, Repr

/-- The block list from `heap_head` on.  `granted` is not a variable of the
source; it lists the physical blocks that `heap_grow` obtained. -/
structure Heap where
  blocks : List HeapBlock
  pages : Nat
  granted : List Nat

def blocksAreAdjacent (first second : HeapBlock) : Bool :=
  first.addr + heapBlockHeader + first.size == second.addr

/-- The loop of `merge_free_blocks`, standing at `current`. -/
def mergeFrom (current : HeapBlock) : List HeapBlock → List HeapBlock
  | [] => [current]
  | next :: rest =>
    if current.isFree && next.isFree && blocksAreAdjacent current next then
      mergeFrom { current with size := current.size + (heapBlockHeader + next.size) } rest
    else current :: mergeFrom next rest

def mergeFreeBlocks : List HeapBlock → List HeapBlock
  | [] => []
  | head :: rest => mergeFrom head rest

def insertBlock (block : HeapBlock) : List HeapBlock → List HeapBlock
  | [] => [block]
  | head :: rest =>
    if block.addr < head.addr then block :: head :: rest
    else head :: insertBlock block rest

variable (pmm : Pmm) (heap : Heap)

def heapGrow (minPayload : Nat) : Bool × Pmm × Heap :=
  if sizeMax - heapBlockHeader - (pmmBlockSize - 1) < minPayload then (false, pmm, heap)
  else
    let totalSize := heapBlockHeader + minPayload
    let pageCount := (totalSize + pmmBlockSize - 1) / pmmBlockSize
    match pmmAllocBlocks pmm pageCount with
    | (none, pmm) => (false, pmm, heap)
    | (some addr, pmm) =>
      let block : HeapBlock :=
        { addr := addr, size := pageCount * pmmBlockSize - heapBlockHeader, isFree := true }
      (true, pmm,
        { blocks := mergeFreeBlocks (insertBlock block heap.blocks)
          pages := heap.pages + pageCount
          granted := heap.granted ++ List.range' (addr / pmmBlockSize) pageCount })

def heapInit : Pmm × Heap :=
  if heap.blocks = [] then (heapGrow pmm heap 1).2 else (pmm, heap)

/-- The first-fit search, the split and the marking: the payload address and
the new block list, or `none` when no free block is large enough. -/
def takeFirstFit (size : Nat) : List HeapBlock → Option (Nat × List HeapBlock)
  | [] => none
  | block :: rest =>
    if block.isFree && decide (size ≤ block.size) then
      if size + heapBlockHeader + 4 < block.size then
        some (block.addr + heapBlockHeader,
          { block with size := size, isFree := false } ::
          { addr := block.addr + heapBlockHeader + size
            size := block.size - size - heapBlockHeader
            isFree := true } :: rest)
      else
        some (block.addr + heapBlockHeader, { block with isFree := false } :: rest)
    else
      match takeFirstFit size rest with
      | none => none
      | some (payload, rest) => some (payload, block :: rest)

/-- `kmalloc`, with `none` for the null pointer. -/
def kmalloc (size : Nat) : Option Nat × Pmm × Heap :=
  if size = 0 ∨ sizeMax - (heapAlignment - 1) < size then (none, pmm, heap)
  else
    let size := (size + heapAlignment - 1) / heapAlignment * heapAlignment
    let (pmm, heap) := heapInit pmm heap
    match takeFirstFit size heap.blocks with
    | some (payload, blocks) => (some payload, pmm, { heap with blocks := blocks })
    | none =>
      match heapGrow pmm heap size with
      | (false, pmm, heap) => (none, pmm, heap)
      | (true, pmm, heap) =>
        match takeFirstFit size heap.blocks with
        | some (payload, blocks) => (some payload, pmm, { heap with blocks := blocks })
        | none => (none, pmm, heap)

/-- `kfree` of a non-null pointer. -/
def kfree (ptr : Nat) : Heap :=
  { heap with
    blocks := mergeFreeBlocks (heap.blocks.map fun block =>
      if block.addr + heapBlockHeader = ptr then { block with isFree := true } else block) }

/-- The heap took the blocks `taken` from the manager and changed nothing
else there. -/
structure Takes (pmm : Pmm) (heap : Heap) (taken : List Nat)
    (pmm' : Pmm) (heap' : Heap) : Prop where
  granted : heap'.granted = heap.granted ++ taken
  sameMax : pmm'.maxBlocks = pmm.maxBlocks
  fresh : ∀ block ∈ taken, 1 ≤ block ∧ block < pmm.maxBlocks ∧ pmm.memoryMap block = false
  map : ∀ block, pmm'.memoryMap block =
    if block ∈ taken then true else pmm.memoryMap block
  accounts : Accounted pmm → Accounted pmm'

theorem Takes.none (heap heap' : Heap)
    (sameGrants : heap'.granted = heap.granted) : Takes pmm heap [] pmm heap' where
  granted := by simp [sameGrants]
  sameMax := rfl
  fresh := by simp
  map := by simp
  accounts := id

theorem Takes.trans {pmm pmm' pmm'' : Pmm} {heap heap' heap'' : Heap}
    {first second : List Nat} (before : Takes pmm heap first pmm' heap')
    (after : Takes pmm' heap' second pmm'' heap'') :
    Takes pmm heap (first ++ second) pmm'' heap'' where
  granted := by rw [after.granted, before.granted, List.append_assoc]
  sameMax := after.sameMax.trans before.sameMax
  fresh := by
    intro block member
    rcases List.mem_append.mp member with early | late
    · exact before.fresh block early
    · obtain ⟨positive, bounded, free⟩ := after.fresh block late
      rw [before.sameMax] at bounded
      rw [before.map] at free
      refine ⟨positive, bounded, ?_⟩
      by_cases member : block ∈ first
      · simp [member] at free
      · simpa [member] using free
  map := by
    intro block
    rw [after.map, before.map]
    by_cases early : block ∈ first <;> by_cases late : block ∈ second <;>
      simp [early, late]
  accounts := fun accounted => after.accounts (before.accounts accounted)

@[simp]
theorem kfree_granted (ptr : Nat) : (kfree heap ptr).granted = heap.granted :=
  rfl

end MiniOS.KernelHeap
