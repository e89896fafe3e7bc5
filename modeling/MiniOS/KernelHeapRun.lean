import MiniOS.KernelHeapBlocks
import MiniOS.RunInvariant

/-!
# The representation of the kernel heap over whole runs

A run is any sequence of `kmalloc` and `kfree` calls.  What the physical memory
manager answers is part of the run: each call of `kmalloc` comes with the answers
to the two requests it can make, and the only thing assumed of an answer is that
the pages it names are not the heap's already.  `kmalloc_answers` says that the
manager of `pmm.c` answers like that.
-/

namespace MiniOS.KernelHeap

open Machine PhysicalMemory HeapBlock

/-- The number of pages that `heap_grow` asks for. -/
def growPages (minPayload : Nat) : Nat :=
  (heapBlockHeader + minPayload + pmmBlockSize - 1) / pmmBlockSize

/-- `heap_grow`, given what `pmm_alloc_blocks` answers. -/
def growWith (answer : Option Nat) (heap : Heap) (minPayload : Nat) : Bool × Heap :=
  if sizeMax - heapBlockHeader - (pmmBlockSize - 1) < minPayload then (false, heap)
  else
    match answer with
    | none => (false, heap)
    | some addr =>
      let block : HeapBlock :=
        { addr := addr
          size := growPages minPayload * pmmBlockSize - heapBlockHeader
          isFree := true }
      (true,
        { blocks := mergeFreeBlocks (insertBlock block heap.blocks)
          pages := heap.pages + growPages minPayload
          granted := heap.granted ++ List.range' (addr / pmmBlockSize) (growPages minPayload) })

/-- `heap_init`, given what `pmm_alloc_blocks` answers. -/
def initWith (answer : Option Nat) (heap : Heap) : Heap :=
  if heap.blocks = [] then (growWith answer heap 1).2 else heap

def alignSize (size : Nat) : Nat :=
  (size + heapAlignment - 1) / heapAlignment * heapAlignment

/-- `kmalloc`, given the answers to the requests of `heap_init` and of the growth
after a failed search. -/
def kmallocWith (initial grown : Option Nat) (heap : Heap) (size : Nat) : Option Nat × Heap :=
  if size = 0 ∨ sizeMax - (heapAlignment - 1) < size then (none, heap)
  else
    let size := alignSize size
    let heap := initWith initial heap
    match takeFirstFit size heap.blocks with
    | some (payload, blocks) => (some payload, { heap with blocks := blocks })
    | none =>
      match growWith grown heap size with
      | (false, heap) => (none, heap)
      | (true, heap) =>
        match takeFirstFit size heap.blocks with
        | some (payload, blocks) => (some payload, { heap with blocks := blocks })
        | none => (none, heap)

/-- An answer for `minPayload` bytes is null or a run of pages that the heap does
not have. -/
def FreshAnswer (heap : Heap) (minPayload : Nat) (answer : Option Nat) : Prop :=
  ∀ addr ∈ answer, addr ≠ 0 ∧ addr % pmmBlockSize = 0 ∧
    addr + growPages minPayload * pmmBlockSize ≤ 2 ^ 32 ∧
    ∀ page, addr / pmmBlockSize ≤ page → page < addr / pmmBlockSize + growPages minPayload →
      page ∉ heap.granted

variable {heap : Heap}

section Answers

/-- The manager knows the pages of the heap as used and manages 32 bit addresses. -/
structure Holds (pmm : Pmm) (heap : Heap) : Prop where
  used : ∀ page ∈ heap.granted, pmm.memoryMap page = true
  bounded : pmm.maxBlocks * pmmBlockSize ≤ 2 ^ 32

variable {pmm : Pmm}

theorem Takes.holds {pmm' : Pmm} {heap' : Heap} {taken : List Nat}
    (takes : Takes pmm heap taken pmm' heap') (holds : Holds pmm heap) : Holds pmm' heap' where
  used page member := by
    rw [takes.granted, List.mem_append] at member
    rw [takes.map]
    rcases member with old | new
    · simp [holds.used page old]
    · rw [if_pos new]
  bounded := takes.sameMax ▸ holds.bounded

variable (pmm heap)

theorem heapGrow_answer (minPayload : Nat) :
    ∃ answer pmm' taken, (Holds pmm heap → FreshAnswer heap minPayload answer) ∧
      heapGrow pmm heap minPayload =
        ((growWith answer heap minPayload).1, pmm', (growWith answer heap minPayload).2) ∧
      Takes pmm heap taken pmm' (growWith answer heap minPayload).2 := by
  unfold heapGrow growWith
  by_cases tooLarge : sizeMax - heapBlockHeader - (pmmBlockSize - 1) < minPayload
  · simp only [if_pos tooLarge]
    exact ⟨none, pmm, [], by simp [FreshAnswer], rfl, .none pmm heap heap rfl⟩
  simp only [if_neg tooLarge]
  rw [← growPages]
  rcases pmmAllocBlocks_cases pmm (growPages minPayload) with
    refused | ⟨first, pmm', granted, grant⟩
  · rw [refused]
    exact ⟨none, pmm, [], by simp [FreshAnswer], rfl, .none pmm heap heap rfl⟩
  · rw [granted]
    have firstOf : first * pmmBlockSize / pmmBlockSize = first :=
      Nat.mul_div_cancel first (by decide)
    have positive := grant.positive
    have bounded := grant.bounded
    refine ⟨some (first * pmmBlockSize), pmm', List.range' first (growPages minPayload), ?_, rfl,
      by simp only [firstOf], grant.sameMax, fun block member => ?_, fun block => ?_,
      grant.accounts⟩
    · rintro holds addr ⟨⟩
      refine ⟨Nat.mul_ne_zero (by omega) (by decide), Nat.mul_mod_left _ _, ?_, ?_⟩
      · rw [← Nat.add_mul]
        exact (Nat.mul_le_mul_right _ bounded).trans holds.bounded
      · intro page lower upper member
        rw [firstOf] at lower upper
        have free := grant.free page lower upper
        rw [holds.used page member] at free
        exact absurd free (by decide)
    · rw [List.mem_range'_1] at member
      exact ⟨by omega, by omega, grant.free block member.1 member.2⟩
    · rw [grant.map]
      simp only [List.mem_range'_1]

theorem heapInit_answer :
    ∃ answer pmm' taken, (Holds pmm heap → heap.blocks = [] → FreshAnswer heap 1 answer) ∧
      heapInit pmm heap = (pmm', initWith answer heap) ∧
      Takes pmm heap taken pmm' (initWith answer heap) := by
  unfold heapInit initWith
  by_cases empty : heap.blocks = []
  · obtain ⟨answer, pmm', taken, fresh, result, takes⟩ := heapGrow_answer heap pmm 1
    refine ⟨answer, pmm', taken, fun holds _ => fresh holds, ?_, ?_⟩
    · rw [if_pos empty, if_pos empty, result]
    · rwa [if_pos empty]
  · exact ⟨none, pmm, [], fun _ none => absurd none empty, by rw [if_neg empty, if_neg empty],
      .none _ _ _ (by rw [if_neg empty])⟩

/-- The manager of `pmm.c` answers `kmalloc` with pages that are not the heap's, and the heap
takes them for good. -/
theorem kmalloc_answers (size : Nat) :
    ∃ initial grown pmm' taken, (Holds pmm heap →
        (heap.blocks = [] → FreshAnswer heap 1 initial) ∧
          FreshAnswer (initWith initial heap) (alignSize size) grown) ∧
      kmalloc pmm heap size =
        ((kmallocWith initial grown heap size).1, pmm', (kmallocWith initial grown heap size).2) ∧
      Takes pmm heap taken pmm' (kmallocWith initial grown heap size).2 := by
  unfold kmalloc kmallocWith
  by_cases refused : size = 0 ∨ sizeMax - (heapAlignment - 1) < size
  · simp only [if_pos refused]
    exact ⟨none, none, pmm, [], by simp [FreshAnswer], rfl, .none _ _ _ rfl⟩
  simp only [if_neg refused]
  rw [← alignSize]
  obtain ⟨initial, pmm₁, early, fresh, result, takes₁⟩ := heapInit_answer heap pmm
  rw [result]
  cases fits : takeFirstFit (alignSize size) (initWith initial heap).blocks with
  | some found =>
    refine ⟨initial, none, pmm₁, early, fun holds => ⟨fresh holds, by simp [FreshAnswer]⟩,
      by simp [fits], ?_⟩
    simp only [fits]
    exact { takes₁ with granted := takes₁.granted }
  | none =>
    obtain ⟨grown, pmm₂, late, freshGrown, growResult, takes₂⟩ :=
      heapGrow_answer (initWith initial heap) pmm₁ (alignSize size)
    have both := takes₁.trans takes₂
    refine ⟨initial, grown, pmm₂, early ++ late,
      fun holds => ⟨fresh holds, freshGrown (takes₁.holds holds)⟩, ?_⟩
    simp only [fits, growResult]
    generalize growWith grown (initWith initial heap) (alignSize size) = grownHeap at both ⊢
    obtain ⟨success, heap₂⟩ := grownHeap
    cases success with
    | false => exact ⟨rfl, both⟩
    | true =>
      simp only
      cases takeFirstFit (alignSize size) heap₂.blocks with
      | none => exact ⟨rfl, both⟩
      | some found => exact ⟨rfl, { both with granted := both.granted }⟩

theorem kmalloc_takes (size : Nat) :
    ∃ taken, Takes pmm heap taken (kmalloc pmm heap size).2.1 (kmalloc pmm heap size).2.2 := by
  obtain ⟨initial, grown, pmm', taken, -, result, takes⟩ := kmalloc_answers heap pmm size
  exact ⟨taken, result ▸ takes⟩

end Answers

variable {first second : HeapBlock} {answer : Option Nat} {blocks : List HeapBlock}

section Representation

/-- How the block list represents the pages of the heap. -/
structure Represents (heap : Heap) : Prop where
  arranged : Arranged heap.blocks
  settled : heap.blocks.IsChain Unmergeable
  covers : ∀ byte, Covers heap.blocks byte ↔ byte / pmmBlockSize ∈ heap.granted
  total : totalBytes heap.blocks = heap.pages * pmmBlockSize
  distinct : heap.granted.Nodup
  pageCount : heap.granted.length = heap.pages

theorem Represents.empty : Represents ⟨[], 0, []⟩ where
  arranged := ⟨List.Pairwise.nil, by simp⟩
  settled := List.isChain_nil
  covers := by simp [Covers]
  total := rfl
  distinct := List.nodup_nil
  pageCount := rfl

/-- Two adjacent blocks are neighbours in the list, so one of them is used. -/
theorem Represents.not_both_free (represents : Represents heap) (firstMember : first ∈ heap.blocks)
    (secondMember : second ∈ heap.blocks)
    (adjacent : blocksAreAdjacent first second = true) :
    ¬ (first.isFree = true ∧ second.isFree = true) := by
  obtain ⟨before, after, split⟩ := List.append_of_mem firstMember
  have settled := represents.settled
  have ordered := represents.arranged.ordered
  rw [split] at secondMember settled ordered
  obtain ⟨-, ordered, across⟩ := List.pairwise_append.mp ordered
  obtain ⟨behind, ordered⟩ := List.pairwise_cons.mp ordered
  have firstBelow := first.addr_lt_stop
  have touches := adjacent_iff.mp adjacent
  simp only [List.mem_append, List.mem_cons] at secondMember
  rcases secondMember with early | rfl | late
  · have apart := across second early first (by simp)
    have secondBelow := second.addr_lt_stop
    unfold Before at apart
    omega
  · omega
  cases after with
  | nil => exact absurd late List.not_mem_nil
  | cons next rest =>
    have unmergeable := (List.isChain_cons_cons.mp (List.isChain_append.mp settled).2.1).1
    rcases List.mem_cons.mp late with rfl | later
    · rintro ⟨firstFree, secondFree⟩
      simp [Unmergeable, firstFree, secondFree, adjacent] at unmergeable
    · -- a block between the two would start where `second` does
      have toNext := behind next (by simp)
      have toSecond := (List.pairwise_cons.mp ordered).1 second later
      have nextBelow := next.addr_lt_stop
      unfold Before at toNext toSecond
      omega

private theorem range'_page {addr pages byte : Nat} (aligned : addr % pmmBlockSize = 0) :
    byte / pmmBlockSize ∈ List.range' (addr / pmmBlockSize) pages ↔
      addr ≤ byte ∧ byte < addr + pages * pmmBlockSize := by
  rw [List.mem_range'_1]
  unfold pmmBlockSize at *
  omega

theorem growWith_represents (represents : Represents heap) {minPayload : Nat}
    (fresh : FreshAnswer heap minPayload answer) :
    Represents (growWith answer heap minPayload).2 := by
  unfold growWith
  split
  · exact represents
  cases answer with
  | none => exact represents
  | some addr =>
    obtain ⟨-, aligned, -, notGranted⟩ := fresh addr rfl
    simp only
    have pagesPositive : heapBlockHeader ≤ growPages minPayload * pmmBlockSize := by
      unfold growPages heapBlockHeader pmmBlockSize
      omega
    generalize growPages minPayload = pages at *
    let block : HeapBlock :=
      { addr := addr, size := pages * pmmBlockSize - heapBlockHeader, isFree := true }
    have stopEq : block.stop = addr + pages * pmmBlockSize := by
      simp only [block, stop]
      omega
    have blockBelow : block.addr < block.stop := block.addr_lt_stop
    have apart : ∀ other ∈ heap.blocks, Before block other ∨ Before other block := by
      intro other member
      by_contra overlaps
      simp only [Before, not_or, not_le, stopEq] at overlaps
      have otherBelow := other.addr_lt_stop
      -- the later of the two first bytes lies in both blocks
      obtain ⟨byte, inBoth⟩ : ∃ byte, (addr ≤ byte ∧ byte < addr + pages * pmmBlockSize) ∧
          other.addr ≤ byte ∧ byte < other.stop := by
        rcases Nat.le_total addr other.addr with lower | upper
        · exact ⟨other.addr, ⟨lower, overlaps.1⟩, le_rfl, otherBelow⟩
        · exact ⟨addr, ⟨le_rfl, by rw [← stopEq]; exact blockBelow⟩, upper, overlaps.2⟩
      have inOther := (represents.covers byte).mp ⟨other, member, inBoth.2⟩
      have inBlock := (range'_page aligned).mpr inBoth.1
      rw [List.mem_range'_1] at inBlock
      exact notGranted _ inBlock.1 inBlock.2 inOther
    have perm := insertBlock_perm block heap.blocks
    have arranged : Arranged (insertBlock block heap.blocks) := by
      refine ⟨insertBlock_ordered represents.arranged.ordered apart, fun other member => ?_⟩
      rcases List.mem_cons.mp (perm.mem_iff.mp member) with rfl | old
      · simp only [block, heapAlignment, heapBlockHeader, pmmBlockSize]
        omega
      · exact represents.arranged.aligned other old
    have merged := mergeFreeBlocks_rearranges arranged
    exact {
      arranged := merged.arranged
      settled := mergeFreeBlocks_settled _
      covers := by
        intro byte
        have inserted : Covers (insertBlock block heap.blocks) byte ↔
            Covers (block :: heap.blocks) byte := by
          simp only [Covers, perm.mem_iff]
        rw [merged.covers, inserted, covers_cons, represents.covers, List.mem_append,
          range'_page aligned, stopEq, or_comm]
      total := by
        rw [merged.total, totalBytes, (perm.map _).sum_nat]
        have old := represents.total
        simp only [totalBytes, List.map_cons, List.sum_cons, block, Nat.add_mul] at old ⊢
        omega
      distinct := by
        refine List.nodup_append.mpr ⟨represents.distinct, List.nodup_range', ?_⟩
        intro page old other new same
        subst same
        rw [List.mem_range'_1] at new
        exact notGranted page new.1 new.2 old
      pageCount := by simp [represents.pageCount] }

/-- A change of the state of some blocks leaves the places of all blocks. -/
theorem Arranged.map_of_same (arranged : Arranged blocks)
    (change : HeapBlock → HeapBlock) (sameAddr : ∀ block, (change block).addr = block.addr)
    (sameSize : ∀ block, (change block).size = block.size) :
    Rearranges blocks (blocks.map change) := by
  have sameStop : ∀ block, (change block).stop = block.stop := by
    intro block
    simp only [stop, sameAddr, sameSize]
  exact {
    arranged := by
      refine ⟨List.pairwise_map.mpr (arranged.ordered.imp fun before => ?_), ?_⟩
      · rwa [Before, sameStop, sameAddr]
      · intro block member
        obtain ⟨old, oldMember, rfl⟩ := List.mem_map.mp member
        rw [sameSize]
        exact arranged.aligned old oldMember
    covers := by
      intro byte
      simp [Covers, sameStop, sameAddr]
    total := by simp [totalBytes, sameSize, Function.comp_def] }

theorem Represents.rearrange (represents : Represents heap)
    (change : Rearranges heap.blocks blocks) (settled : blocks.IsChain Unmergeable) :
    Represents { heap with blocks } where
  arranged := change.arranged
  settled := settled
  covers := fun byte => (change.covers byte).trans (represents.covers byte)
  total := change.total.trans represents.total
  distinct := represents.distinct
  pageCount := represents.pageCount

theorem kfree_represents (represents : Represents heap) (ptr : Nat) :
    Represents (kfree heap ptr) := by
  have freed := represents.arranged.map_of_same (fun block =>
      if block.addr + heapBlockHeader = ptr then { block with isFree := true } else block)
    (fun block => by split <;> rfl) (fun block => by split <;> rfl)
  exact represents.rearrange (freed.trans (mergeFreeBlocks_rearranges freed.arranged))
    (mergeFreeBlocks_settled _)

end Representation

variable {size : Nat} {initial grown : Option Nat}

section Allocation

/-- A used block that serves a request for `size` bytes at `ptr`. -/
def Serves (blocks : List HeapBlock) (ptr size : Nat) : Prop :=
  ∃ block ∈ blocks, block.isFree = false ∧ block.addr + heapBlockHeader = ptr ∧ size ≤ block.size

/-- No used block has its payload at `ptr`. -/
def Unused (blocks : List HeapBlock) (ptr : Nat) : Prop :=
  ∀ block ∈ blocks, block.isFree = false → block.addr + heapBlockHeader ≠ ptr

def KeepsUsed (blocks blocks' : List HeapBlock) : Prop :=
  ∀ block ∈ blocks, block.isFree = false → block ∈ blocks'

theorem growWith_keepsUsed (answer : Option Nat) (heap : Heap) (minPayload : Nat) :
    KeepsUsed heap.blocks (growWith answer heap minPayload).2.blocks := by
  intro block member used
  unfold growWith
  split
  · exact member
  cases answer with
  | none => exact member
  | some addr =>
    refine (mem_mergeFreeBlocks_of_used used).mpr ?_
    exact (insertBlock_perm _ _).mem_iff.mpr (List.mem_cons_of_mem _ member)

/-- What `kmalloc` leaves behind when its search succeeds. -/
theorem Represents.takeFirstFit (represents : Represents heap)
    {payload : Nat} (sizeAligned : size % heapAlignment = 0)
    (found : takeFirstFit size heap.blocks = some (payload, blocks)) :
    Represents { heap with blocks := blocks } ∧ KeepsUsed heap.blocks blocks ∧
      Serves blocks payload size ∧ Unused heap.blocks payload := by
  obtain ⟨before, block, after, taken, leftover, oldEq, newEq, payloadEq, carves⟩ :=
    takeFirstFit_carves found
  have arranged := represents.arranged
  have settled := represents.settled
  rw [oldEq] at arranged settled
  have blockMember : block ∈ heap.blocks := by simp [oldEq]
  have replaced := arranged.replace
    (carves.fills sizeAligned (represents.arranged.aligned block blockMember))
  rw [List.cons_append, ← newEq, ← oldEq] at replaced
  refine ⟨represents.rearrange replaced (newEq ▸ carves.settled settled), ?_, ?_, ?_⟩
  · intro other member used
    rw [oldEq, List.mem_append, List.mem_cons] at member
    rw [newEq]
    rcases member with early | rfl | late
    · simp [early]
    · rw [carves.wasFree] at used
      contradiction
    · simp [late]
  · exact ⟨taken, by simp [newEq], carves.used, payloadEq.symm, carves.largeEnough⟩
  · intro other member used same
    have sameAddr := carves.sameAddr
    rw [represents.arranged.eq_of_addr member blockMember (by omega), carves.wasFree] at used
    contradiction

theorem initWith_spec (represents : Represents heap)
    (fresh : heap.blocks = [] → FreshAnswer heap 1 answer) :
    Represents (initWith answer heap) ∧ KeepsUsed heap.blocks (initWith answer heap).blocks := by
  unfold initWith
  by_cases empty : heap.blocks = []
  · rw [if_pos empty]
    exact ⟨growWith_represents represents (fresh empty), growWith_keepsUsed answer heap 1⟩
  · rw [if_neg empty]
    exact ⟨represents, fun _ member _ => member⟩

theorem le_alignSize (size : Nat) : size ≤ alignSize size := by
  unfold alignSize heapAlignment
  omega

variable {blocks' : List HeapBlock}

theorem KeepsUsed.trans {blocks'' : List HeapBlock}
    (first : KeepsUsed blocks blocks') (second : KeepsUsed blocks' blocks'') :
    KeepsUsed blocks blocks'' :=
  fun block member used => second block (first block member used) used

variable {ptr : Nat}

theorem KeepsUsed.unused (keeps : KeepsUsed blocks blocks') (unused : Unused blocks' ptr) :
    Unused blocks ptr :=
  fun block member used => unused block (keeps block member used) used

theorem Serves.mono {small large : Nat}
    (serves : Serves blocks ptr large) (le : small ≤ large) : Serves blocks ptr small := by
  obtain ⟨block, member, used, sameAddr, enough⟩ := serves
  exact ⟨block, member, used, sameAddr, le.trans enough⟩

/-- `kmalloc` keeps the representation and every block in use, and the pointer it
returns is that of a block which was not in use. -/
theorem kmallocWith_spec (represents : Represents heap)
    (freshInitial : heap.blocks = [] → FreshAnswer heap 1 initial)
    (freshGrown : FreshAnswer (initWith initial heap) (alignSize size) grown)
    {result : Option Nat} {heap' : Heap}
    (returns : kmallocWith initial grown heap size = (result, heap')) :
    Represents heap' ∧ KeepsUsed heap.blocks heap'.blocks ∧
      ∀ ptr ∈ result, Serves heap'.blocks ptr size ∧ Unused heap.blocks ptr := by
  obtain ⟨initRepresents, initKeeps⟩ := initWith_spec represents freshInitial
  have aligned : alignSize size % heapAlignment = 0 := Nat.mul_mod_left _ _
  have taking : ∀ (middle : Heap) (payload : Nat) (blocks : List HeapBlock),
      Represents middle → KeepsUsed heap.blocks middle.blocks →
      takeFirstFit (alignSize size) middle.blocks = some (payload, blocks) →
      (result, heap') = (some payload, { middle with blocks := blocks }) →
      Represents heap' ∧ KeepsUsed heap.blocks heap'.blocks ∧
        ∀ ptr ∈ result, Serves heap'.blocks ptr size ∧ Unused heap.blocks ptr := by
    rintro middle payload blocks middleRepresents keeps found ⟨⟩
    obtain ⟨newRepresents, newKeeps, serves, unused⟩ :=
      middleRepresents.takeFirstFit aligned found
    refine ⟨newRepresents, keeps.trans newKeeps, ?_⟩
    rintro ptr ⟨⟩
    exact ⟨serves.mono (le_alignSize size), keeps.unused unused⟩
  unfold kmallocWith at returns
  split at returns
  · obtain ⟨rfl, rfl⟩ := Prod.mk.inj returns
    exact ⟨represents, fun _ member _ => member, by simp⟩
  simp only at returns
  split at returns
  case h_1 payload blocks found =>
    exact taking _ payload blocks initRepresents initKeeps found returns.symm
  case h_2 =>
    have grownRepresents := growWith_represents initRepresents freshGrown
    have grownKeeps := initKeeps.trans (growWith_keepsUsed grown (initWith initial heap)
      (alignSize size))
    generalize growWith grown (initWith initial heap) (alignSize size) = grownHeap
      at returns grownRepresents grownKeeps
    obtain ⟨success, middle⟩ := grownHeap
    cases success with
    | false =>
      obtain ⟨rfl, rfl⟩ := Prod.mk.inj returns
      exact ⟨grownRepresents, grownKeeps, by simp⟩
    | true =>
      simp only at returns
      split at returns
      case h_1 payload blocks found =>
        exact taking _ payload blocks grownRepresents grownKeeps found returns.symm
      case h_2 =>
        obtain ⟨rfl, rfl⟩ := Prod.mk.inj returns
        exact ⟨grownRepresents, grownKeeps, by simp⟩

end Allocation

section Runs

/-- A pointer that `kmalloc` returned for a request of `size` bytes and that has
not been freed. -/
structure Allocation where
  ptr : Nat
  size : Nat
deriving DecidableEq

structure HeapState where
  heap : Heap
  live : List Allocation

inductive HeapOp where
  | kmalloc (size : Nat) (initial grown : Option Nat)
  | kfree (ptr : Nat)

def heapStep (state : HeapState) : HeapOp → HeapState
  | .kmalloc size initial grown =>
    match kmallocWith initial grown state.heap size with
    | (none, heap) => { state with heap := heap }
    | (some ptr, heap) => { heap := heap, live := ⟨ptr, size⟩ :: state.live }
  | .kfree ptr =>
    if ptr = 0 then state
    else
      { heap := kfree state.heap ptr
        live := state.live.filter fun allocation => allocation.ptr ≠ ptr }

/-- The manager hands out fresh pages, and only live pointers or null are freed. -/
def HeapAllowed (state : HeapState) : HeapOp → Prop
  | .kmalloc size initial grown =>
    (state.heap.blocks = [] → FreshAnswer state.heap 1 initial) ∧
      FreshAnswer (initWith initial state.heap) (alignSize size) grown
  | .kfree ptr => ptr = 0 ∨ ∃ allocation ∈ state.live, allocation.ptr = ptr

def heapStart : HeapState := ⟨⟨[], 0, []⟩, []⟩

def payloadOf (blocks : List HeapBlock) (allocation : Allocation) : Set Nat :=
  { byte | ∃ block ∈ blocks, block.addr + heapBlockHeader = allocation.ptr ∧ byte ∈ block.payload }

/-- The representation of the heap, and what the live allocations own of it. -/
structure HeapSound (state : HeapState) : Prop where
  increasing : state.heap.blocks.Pairwise fun first second => first.addr < second.addr
  apart : state.heap.blocks.Pairwise fun first second => first.stop ≤ second.addr
  tiles : ∀ byte, Covers state.heap.blocks byte ↔ byte / pmmBlockSize ∈ state.heap.granted
  total : totalBytes state.heap.blocks = state.heap.pages * pmmBlockSize
  pageCount : state.heap.granted.Nodup ∧ state.heap.granted.length = state.heap.pages
  aligned : ∀ block ∈ state.heap.blocks, block.size % heapAlignment = 0
  noFreeNeighbours : ∀ first ∈ state.heap.blocks, ∀ second ∈ state.heap.blocks,
    blocksAreAdjacent first second = true → ¬ (first.isFree = true ∧ second.isFree = true)
  payloadsDisjoint : state.live.Pairwise fun first second =>
    Disjoint (payloadOf state.heap.blocks first) (payloadOf state.heap.blocks second)
  noHeader : ∀ allocation ∈ state.live, ∀ block ∈ state.heap.blocks,
    Disjoint (payloadOf state.heap.blocks allocation) block.header
  largeEnough : ∀ allocation ∈ state.live,
    Set.Ico allocation.ptr (allocation.ptr + allocation.size) ⊆
      payloadOf state.heap.blocks allocation

structure HeapInv (state : HeapState) : Prop where
  represents : Represents state.heap
  served : ∀ allocation ∈ state.live, Serves state.heap.blocks allocation.ptr allocation.size
  distinct : state.live.Pairwise fun first second => first.ptr ≠ second.ptr

theorem HeapInv.start : HeapInv heapStart where
  represents := Represents.empty
  served := by simp [heapStart]
  distinct := List.Pairwise.nil

variable {state : HeapState}

theorem heapStep_kmalloc_inv (inv : HeapInv state)
    (allowed : HeapAllowed state (.kmalloc size initial grown)) :
    HeapInv (heapStep state (.kmalloc size initial grown)) := by
  obtain ⟨freshInitial, freshGrown⟩ := allowed
  rcases returns : kmallocWith initial grown state.heap size with ⟨result, heap⟩
  obtain ⟨represents, keeps, granted⟩ :=
    kmallocWith_spec inv.represents freshInitial freshGrown returns
  have stillServed : ∀ allocation ∈ state.live,
      Serves heap.blocks allocation.ptr allocation.size := by
    intro allocation member
    obtain ⟨block, blockMember, used, facts⟩ := inv.served allocation member
    exact ⟨block, keeps block blockMember used, used, facts⟩
  simp only [heapStep, returns]
  cases result with
  | none => exact ⟨represents, stillServed, inv.distinct⟩
  | some ptr =>
    obtain ⟨serves, unused⟩ := granted ptr rfl
    refine ⟨represents, ?_, List.pairwise_cons.mpr ⟨?_, inv.distinct⟩⟩
    · intro allocation member
      rcases List.mem_cons.mp member with rfl | old
      · exact serves
      · exact stillServed allocation old
    · intro allocation member same
      obtain ⟨block, blockMember, used, sameAddr, -⟩ := inv.served allocation member
      exact unused block blockMember used (sameAddr.trans same.symm)

theorem heapStep_kfree_inv (inv : HeapInv state) (ptr : Nat) :
    HeapInv (heapStep state (.kfree ptr)) := by
  simp only [heapStep]
  split
  · exact inv
  · refine ⟨kfree_represents inv.represents ptr, ?_, inv.distinct.filter _⟩
    intro allocation member
    simp only [List.mem_filter, decide_eq_true_eq] at member
    obtain ⟨block, blockMember, used, sameAddr, enough⟩ := inv.served allocation member.1
    refine ⟨block, ?_, used, sameAddr, enough⟩
    refine (mem_mergeFreeBlocks_of_used used).mpr (List.mem_map.mpr ⟨block, blockMember, ?_⟩)
    rw [if_neg (by rw [sameAddr]; exact member.2)]

theorem heapStep_inv (state : HeapState) (op : HeapOp) (inv : HeapInv state)
    (allowed : HeapAllowed state op) : HeapInv (heapStep state op) := by
  cases op with
  | kmalloc size initial grown => exact heapStep_kmalloc_inv inv allowed
  | kfree ptr => exact heapStep_kfree_inv inv ptr

theorem Arranged.payload_header_disjoint (arranged : Arranged blocks) (firstMember : first ∈ blocks)
    (secondMember : second ∈ blocks) :
    Disjoint first.payload second.header := by
  refine Set.disjoint_left.mpr fun byte inPayload inHeader => ?_
  simp only [payload, header, Set.mem_Ico] at inPayload inHeader
  by_cases same : first = second
  · subst same
    omega
  · rcases arranged.apart firstMember secondMember same with before | after
    · unfold Before at before
      omega
    · unfold Before stop at after
      omega

theorem Arranged.payload_disjoint (arranged : Arranged blocks) (firstMember : first ∈ blocks)
    (secondMember : second ∈ blocks)
    (different : first ≠ second) : Disjoint first.payload second.payload := by
  refine Set.disjoint_left.mpr fun byte inFirst inSecond => ?_
  simp only [payload, Set.mem_Ico] at inFirst inSecond
  rcases arranged.apart firstMember secondMember different with before | after
  · unfold Before at before
    omega
  · unfold Before at after
    omega

theorem HeapInv.sound (inv : HeapInv state) : HeapSound state where
  increasing := by
    refine inv.represents.arranged.ordered.imp fun {first second} before => ?_
    exact lt_of_lt_of_le first.addr_lt_stop before
  apart := inv.represents.arranged.ordered
  tiles := inv.represents.covers
  total := inv.represents.total
  pageCount := ⟨inv.represents.distinct, inv.represents.pageCount⟩
  aligned := inv.represents.arranged.aligned
  noFreeNeighbours := fun _ firstMember _ secondMember adjacent =>
    inv.represents.not_both_free firstMember secondMember adjacent
  payloadsDisjoint := by
    refine inv.distinct.imp fun {first second} different => ?_
    refine Set.disjoint_left.mpr ?_
    rintro byte ⟨firstBlock, firstMember, firstPtr, inFirst⟩
      ⟨secondBlock, secondMember, secondPtr, inSecond⟩
    have blocksDiffer : firstBlock ≠ secondBlock := by
      rintro rfl
      exact different (firstPtr.symm.trans secondPtr)
    exact Set.disjoint_left.mp
      (inv.represents.arranged.payload_disjoint firstMember secondMember blocksDiffer)
      inFirst inSecond
  noHeader := by
    intro allocation _ block blockMember
    refine Set.disjoint_left.mpr ?_
    rintro byte ⟨owner, ownerMember, -, inPayload⟩ inHeader
    exact Set.disjoint_left.mp
      (inv.represents.arranged.payload_header_disjoint ownerMember blockMember)
      inPayload inHeader
  largeEnough := by
    intro allocation member byte inside
    obtain ⟨block, blockMember, -, sameAddr, enough⟩ := inv.served allocation member
    refine ⟨block, blockMember, sameAddr, ?_⟩
    simp only [payload, stop, Set.mem_Ico] at inside ⊢
    omega

theorem run_heapSound {ops : List HeapOp}
    (admissible : Admissible heapStep HeapAllowed heapStart ops) :
    HeapSound (run heapStep heapStart ops) :=
  (run_invariant_of_admissible HeapInv heapStep_inv HeapInv.start admissible).sound

/-- Two requests, the second of which needs a block that spans old and new pages,
and the release of the first. -/
theorem run_heapSound_growth : let ops : List HeapOp := [.kmalloc 10 (some 0x100000) none,
      .kmalloc 5000 none (some 0x101000), .kfree 0x10000C, .kfree 0]
    Admissible heapStep HeapAllowed heapStart ops ∧
      HeapSound (run heapStep heapStart ops) ∧
      (run heapStep heapStart ops).heap.pages = 3 := by
  have admissible : Admissible heapStep HeapAllowed heapStart [.kmalloc 10 (some 0x100000) none,
      .kmalloc 5000 none (some 0x101000), .kfree 0x10000C, .kfree 0] := by
    refine ⟨⟨?_, by simp [FreshAnswer]⟩, ⟨?_, ?_⟩, Or.inr ⟨⟨0x10000C, 10⟩, by decide, rfl⟩,
      Or.inl rfl, trivial⟩
    · rintro - addr ⟨⟩
      exact ⟨by decide, by decide, by decide, by simp [heapStart]⟩
    · intro empty
      exact absurd empty (by decide)
    · rintro addr ⟨⟩
      refine ⟨by decide, by decide, by decide, fun page lower _ => ?_⟩
      have granted : (initWith none (heapStep heapStart
          (.kmalloc 10 (some 0x100000) none)).heap).granted = [0x100] := by decide
      rw [granted, List.mem_singleton]
      unfold pmmBlockSize at lower
      omega
  exact ⟨admissible, run_heapSound admissible, by decide⟩

end Runs

end MiniOS.KernelHeap
