import Mathlib

/-!
# The physical memory manager

The manager in `pmm.c` keeps one bit for each 4 KB block of the first 32 MB
and a count of the blocks in use.  Block 0 is never handed out, so a block
address is never mistaken for the null pointer.
-/

namespace MiniOS.PhysicalMemory

open Function

def pmmBlockSize : Nat := 4096

def pmmMaxMemory : Nat := 32 * 1024 * 1024

def pmmMaxBlocks : Nat := pmmMaxMemory / pmmBlockSize

/-- The static variables of `pmm.c`.  A set bit of `memoryMap` marks a block
that is in use or reserved. -/
structure Pmm where
  memoryMap : Nat → Bool
  maxBlocks : Nat
  usedBlocks : Nat

/-- `used_blocks` is a `uint32_t`. -/
def addUsed (used count : Nat) : Nat := (used + count) % 2 ^ 32

def subUsed (used count : Nat) : Nat := (2 ^ 32 - count + used) % 2 ^ 32

/-- The loop of `mmap_first_free_run`, with the number of frames still to be
scanned as its structural argument. -/
def mmapScan (memoryMap : Nat → Bool) (count : Nat) :
    (remaining frame runStart runLength : Nat) → Option Nat
  | 0, _, _, _ => none
  | remaining + 1, frame, runStart, runLength =>
    if memoryMap frame = false then
      let runStart := if runLength = 0 then frame else runStart
      if runLength + 1 = count then some runStart
      else mmapScan memoryMap count remaining (frame + 1) runStart (runLength + 1)
    else mmapScan memoryMap count remaining (frame + 1) runStart 0

def mmapFirstFreeRun (pmm : Pmm) (count : Nat) : Option Nat :=
  if count = 0 ∨ pmm.maxBlocks < count then none
  else mmapScan pmm.memoryMap count (pmm.maxBlocks - 1) 1 0 0

/-- Set the bits of `count` consecutive blocks. -/
def mmapSetRun (memoryMap : Nat → Bool) (first : Nat) : Nat → Nat → Bool
  | 0 => memoryMap
  | count + 1 => update (mmapSetRun memoryMap first count) (first + count) true

/-- `pmm_alloc_blocks`: the address of the first block of the run, or `none`
for the null pointer. -/
def pmmAllocBlocks (pmm : Pmm) (count : Nat) : Option Nat × Pmm :=
  if count = 0 ∨ subUsed pmm.maxBlocks pmm.usedBlocks < count then (none, pmm)
  else
    match mmapFirstFreeRun pmm count with
    | none => (none, pmm)
    | some firstFrame =>
      (some (firstFrame * pmmBlockSize),
        { pmm with
          memoryMap := mmapSetRun pmm.memoryMap firstFrame count
          usedBlocks := addUsed pmm.usedBlocks count })

def pmmAllocBlock (pmm : Pmm) : Option Nat × Pmm := pmmAllocBlocks pmm 1

/-- One turn of the loop of `pmm_free_blocks`. -/
def pmmClearBlock (pmm : Pmm) (frame : Nat) : Pmm :=
  if pmm.memoryMap frame then
    { pmm with
      memoryMap := update pmm.memoryMap frame false
      usedBlocks := subUsed pmm.usedBlocks 1 }
  else pmm

def pmmClearRun (pmm : Pmm) (first : Nat) : Nat → Pmm
  | 0 => pmm
  | count + 1 => pmmClearBlock (pmmClearRun pmm first count) (first + count)

def pmmFreeBlocks (pmm : Pmm) (addr count : Nat) : Pmm :=
  if addr = 0 ∨ count = 0 ∨ addr % pmmBlockSize ≠ 0 then pmm
  else
    let firstFrame := addr / pmmBlockSize
    if firstFrame = 0 ∨ pmm.maxBlocks ≤ firstFrame ∨ pmm.maxBlocks - firstFrame < count then pmm
    else pmmClearRun pmm firstFrame count

def pmmFreeBlock (pmm : Pmm) (addr : Nat) : Pmm := pmmFreeBlocks pmm addr 1

/-- Reserve one block, as `pmm_init_region` does for block 0. -/
def pmmMarkBlock (pmm : Pmm) (frame : Nat) : Pmm :=
  if pmm.memoryMap frame then pmm
  else
    { pmm with
      memoryMap := update pmm.memoryMap frame true
      usedBlocks := addUsed pmm.usedBlocks 1 }

def pmmInit (memSizeKb : Nat) : Pmm where
  memoryMap := fun _ => true
  maxBlocks := min (memSizeKb / 4) pmmMaxBlocks
  usedBlocks := min (memSizeKb / 4) pmmMaxBlocks

def pmmInitRegion (pmm : Pmm) (base size : Nat) : Pmm :=
  let start := if base % pmmBlockSize ≠ 0 then base / pmmBlockSize + 1
    else base / pmmBlockSize
  let stop := min ((base + size) / pmmBlockSize) pmm.maxBlocks
  pmmMarkBlock (pmmClearRun pmm start (stop - start)) 0

def Allocated (pmm : Pmm) (block : Nat) : Prop := pmm.memoryMap block = true

instance (pmm : Pmm) (block : Nat) : Decidable (Allocated pmm block) :=
  inferInstanceAs (Decidable (_ = _))

variable {count : Nat} {value : Bool}

/-- A run of blocks is set to `value`, one block after the other. -/
theorem updates_apply (maps : Nat → Nat → Bool) {first : Nat}
    (step : ∀ done, maps (done + 1) = update (maps done) (first + done) value) (count block : Nat) :
    maps count block = if first ≤ block ∧ block < first + count then value else maps 0 block := by
  induction count with
  | zero => rw [if_neg (by omega)]
  | succ count ih =>
    rw [step]
    by_cases last : block = first + count
    · subst block
      simp
    · rw [update_of_ne last, ih]
      have sameRange : (first ≤ block ∧ block < first + count) ↔
          (first ≤ block ∧ block < first + (count + 1)) := by omega
      simp only [sameRange]

theorem mmapSetRun_apply (memoryMap : Nat → Bool) (first count block : Nat) :
    mmapSetRun memoryMap first count block =
      if first ≤ block ∧ block < first + count then true else memoryMap block := by
  exact updates_apply (mmapSetRun memoryMap first) (fun _ => rfl) count block

variable {memoryMap : Nat → Bool} {maxBlocks block first : Nat}

/-- Everything the scan can return is a run of free blocks.  The frames of
the current run, `runStart` up to `frame`, are free throughout the scan. -/
theorem mmapScan_free : ∀ {remaining frame runStart runLength start : Nat},
      1 ≤ frame → (0 < runLength → 1 ≤ runStart ∧ runStart + runLength = frame) →
      (∀ block, runStart ≤ block → block < runStart + runLength → memoryMap block = false) →
      mmapScan memoryMap count remaining frame runStart runLength = some start →
      1 ≤ start ∧ start + count ≤ frame + remaining ∧
        ∀ block, start ≤ block → block < start + count → memoryMap block = false := by
  intro remaining
  induction remaining with
  | zero =>
    intro frame runStart runLength start _ _ _ found
    simp [mmapScan] at found
  | succ remaining ih =>
    intro frame runStart runLength start positive runEnds runFree found
    rw [mmapScan] at found
    by_cases free : memoryMap frame = false
    · rw [if_pos free] at found
      have newStart : 1 ≤ (if runLength = 0 then frame else runStart) ∧
          (if runLength = 0 then frame else runStart) + (runLength + 1) = frame + 1 := by
        by_cases empty : runLength = 0
        · simp [empty, positive]
        · have := runEnds (by omega)
          simp only [if_neg empty]
          omega
      have newFree : ∀ block,
          (if runLength = 0 then frame else runStart) ≤ block →
          block < (if runLength = 0 then frame else runStart) + (runLength + 1) →
          memoryMap block = false := by
        intro block lower upper
        by_cases current : block = frame
        · rw [current]
          exact free
        · by_cases empty : runLength = 0
          · simp only [if_pos empty] at lower upper
            omega
          · simp only [if_neg empty] at lower upper
            have := runEnds (by omega)
            exact runFree block lower (by omega)
      by_cases complete : runLength + 1 = count
      · simp only [if_pos complete, Option.some.injEq] at found
        subst start
        refine ⟨newStart.1, by omega, ?_⟩
        intro block lower upper
        exact newFree block lower (by omega)
      · simp only [if_neg complete] at found
        have spec := ih (by omega) (fun _ => newStart) newFree found
        exact ⟨spec.1, by omega, spec.2.2⟩
    · rw [if_neg free] at found
      have spec := ih (by omega) (by omega) (by omega) found
      exact ⟨spec.1, by omega, spec.2.2⟩

/-- The bits below `max_blocks` that are set. -/
def usedSet (memoryMap : Nat → Bool) (maxBlocks : Nat) : Finset Nat :=
  (Finset.range maxBlocks).filter fun block => memoryMap block = true

theorem mem_usedSet :
    block ∈ usedSet memoryMap maxBlocks ↔ block < maxBlocks ∧ memoryMap block = true := by
  simp [usedSet]

theorem usedSet_card_le (memoryMap : Nat → Bool) (maxBlocks : Nat) :
    (usedSet memoryMap maxBlocks).card ≤ maxBlocks := by
  have filtered := Finset.card_filter_le (Finset.range maxBlocks) fun block =>
    memoryMap block = true
  rwa [Finset.card_range] at filtered

theorem usedSet_card_mark (bounded : block < maxBlocks) (free : memoryMap block = false) :
    (usedSet (update memoryMap block true) maxBlocks).card =
      (usedSet memoryMap maxBlocks).card + 1 := by
  have inserted : usedSet (update memoryMap block true) maxBlocks =
      insert block (usedSet memoryMap maxBlocks) := by
    ext other
    rw [Finset.mem_insert, mem_usedSet, mem_usedSet]
    by_cases same : other = block
    · simp [same, bounded]
    · simp [same]
  rw [inserted, Finset.card_insert_of_notMem]
  simp [mem_usedSet, free]

theorem usedSet_card_clear (bounded : block < maxBlocks) (set : memoryMap block = true) :
    (usedSet (update memoryMap block false) maxBlocks).card + 1 =
      (usedSet memoryMap maxBlocks).card := by
  have cleared : update memoryMap block false block = false := by simp
  rw [← usedSet_card_mark bounded cleared, update_idem, ← set, update_eq_self]

theorem pmmClearRun_maxBlocks (pmm : Pmm) (first count : Nat) :
    (pmmClearRun pmm first count).maxBlocks = pmm.maxBlocks := by
  induction count with
  | zero => rfl
  | succ count ih =>
    rw [pmmClearRun, pmmClearBlock]
    split <;> exact ih

/-- `used_blocks` counts the set bits below `max_blocks`, and the bits above it
are all set. -/
structure Counted (pmm : Pmm) : Prop where
  maxBlocks_le : pmm.maxBlocks ≤ pmmMaxBlocks
  used : pmm.usedBlocks = (usedSet pmm.memoryMap pmm.maxBlocks).card
  beyond : ∀ block, pmm.maxBlocks ≤ block → Allocated pmm block

namespace Counted

variable {pmm : Pmm} {block : Nat} (counted : Counted pmm)

include counted

theorem used_le : pmm.usedBlocks ≤ pmm.maxBlocks := by
  rw [counted.used]
  exact usedSet_card_le _ _

theorem lt_of_free (free : pmm.memoryMap block = false) : block < pmm.maxBlocks := by
  by_contra outside
  have set : pmm.memoryMap block = true := counted.beyond block (by omega)
  simp [free] at set

theorem update {used : Nat} (bounded : block < pmm.maxBlocks)
    (card : used = (usedSet (update pmm.memoryMap block value) pmm.maxBlocks).card) :
    Counted { pmm with memoryMap := Function.update pmm.memoryMap block value, usedBlocks := used } where
  maxBlocks_le := counted.maxBlocks_le
  used := card
  beyond := by
    intro other outside
    have different : other ≠ block := (bounded.trans_le outside).ne'
    simpa [Allocated, different] using counted.beyond other outside

theorem clearBlock (bounded : block < pmm.maxBlocks) :
    Counted (pmmClearBlock pmm block) := by
  unfold pmmClearBlock
  by_cases set : pmm.memoryMap block = true
  · rw [if_pos set]
    have card := usedSet_card_clear bounded set
    have limit := counted.used_le
    have small := counted.maxBlocks_le
    have used := counted.used
    have bound : pmmMaxBlocks = 8192 := rfl
    refine counted.update bounded ?_
    simp only [subUsed]
    omega
  · rw [if_neg set]
    exact counted

theorem clearRun (first : Nat) : ∀ {count : Nat}, first + count ≤ pmm.maxBlocks ∨ count = 0 →
    Counted (pmmClearRun pmm first count)
  | 0, _ => counted
  | count + 1, bounded => by
    have before := clearRun first (by omega : first + count ≤ pmm.maxBlocks ∨ count = 0)
    refine before.clearBlock ?_
    rw [pmmClearRun_maxBlocks]
    omega

theorem markBlock (block : Nat) : Counted (pmmMarkBlock pmm block) := by
  unfold pmmMarkBlock
  cases bit : pmm.memoryMap block with
  | true => exact counted
  | false =>
    rw [if_neg Bool.false_ne_true]
    have bounded := counted.lt_of_free bit
    have card := usedSet_card_mark bounded bit
    have limit := usedSet_card_le (Function.update pmm.memoryMap block true) pmm.maxBlocks
    have small := counted.maxBlocks_le
    have used := counted.used
    have bound : pmmMaxBlocks = 8192 := rfl
    refine counted.update bounded ?_
    simp only [addUsed]
    omega

end Counted

/-- The accounting of a manager between two operations: the bits are counted and
block 0 is never handed out. -/
structure Accounted (pmm : Pmm) : Prop extends Counted pmm where
  nullBlock : Allocated pmm 0

theorem pmmClearRun_apply (pmm : Pmm) (first count block : Nat) :
    (pmmClearRun pmm first count).memoryMap block =
      if first ≤ block ∧ block < first + count then false else pmm.memoryMap block := by
  refine updates_apply (fun done => (pmmClearRun pmm first done).memoryMap) (fun done => ?_) count block
  rw [pmmClearRun, pmmClearBlock]
  cases bit : (pmmClearRun pmm first done).memoryMap (first + done) with
  | true => rfl
  | false => rw [if_neg Bool.false_ne_true, ← bit, update_eq_self]

theorem pmmFreeBlocks_maxBlocks (pmm : Pmm) (addr count : Nat) :
    (pmmFreeBlocks pmm addr count).maxBlocks = pmm.maxBlocks := by
  unfold pmmFreeBlocks
  split
  · rfl
  · dsimp only
    split
    · rfl
    · exact pmmClearRun_maxBlocks pmm _ _

/-- Setting a run of free bits moves the count by its length. -/
theorem usedSet_card_setRun : ∀ {count : Nat}, first + count ≤ maxBlocks →
      (∀ block, first ≤ block → block < first + count → memoryMap block = false) →
      (usedSet (mmapSetRun memoryMap first count) maxBlocks).card =
        (usedSet memoryMap maxBlocks).card + count
  | 0, _, _ => rfl
  | count + 1, bounded, free => by
    have before : (usedSet (mmapSetRun memoryMap first count) maxBlocks).card =
        (usedSet memoryMap maxBlocks).card + count :=
      usedSet_card_setRun (by omega) fun block lower upper => free block lower (by omega)
    have next : mmapSetRun memoryMap first count (first + count) = false := by
      rw [mmapSetRun_apply, if_neg (by omega)]
      exact free _ (by omega) (by omega)
    rw [mmapSetRun, usedSet_card_mark (by omega) next, before]
    omega

namespace Accounted

variable {pmm : Pmm}

theorem setRun (accounted : Accounted pmm) (bounded : first + count ≤ pmm.maxBlocks)
    (free : ∀ block, first ≤ block → block < first + count → pmm.memoryMap block = false) :
    Accounted { pmm with
      memoryMap := mmapSetRun pmm.memoryMap first count
      usedBlocks := addUsed pmm.usedBlocks count } := by
  have card := usedSet_card_setRun bounded free
  have limit := usedSet_card_le (mmapSetRun pmm.memoryMap first count) pmm.maxBlocks
  have small := accounted.maxBlocks_le
  have used := accounted.used
  have bound : pmmMaxBlocks = 8192 := rfl
  have keeps : ∀ block, Allocated pmm block →
      mmapSetRun pmm.memoryMap first count block = true := by
    intro block allocated
    have set : pmm.memoryMap block = true := allocated
    rw [mmapSetRun_apply, set, ite_self]
  exact {
    maxBlocks_le := accounted.maxBlocks_le
    used := by
      simp only [addUsed]
      omega
    beyond := fun block outside => keeps block (accounted.beyond block outside)
    nullBlock := keeps 0 accounted.nullBlock }

theorem freeBlocks (accounted : Accounted pmm) (addr count : Nat) :
    Accounted (pmmFreeBlocks pmm addr count) := by
  unfold pmmFreeBlocks
  split
  · exact accounted
  · dsimp only
    generalize addr / pmmBlockSize = first
    split
    · exact accounted
    · rename_i accepted
      push Not at accepted
      have run := accounted.toCounted.clearRun first
        (Or.inl (by omega : first + count ≤ pmm.maxBlocks))
      refine { toCounted := run, nullBlock := ?_ }
      rw [Allocated, pmmClearRun_apply, if_neg (by omega)]
      exact accounted.nullBlock

theorem init (memSizeKb : Nat) : Accounted (pmmInit memSizeKb) where
  maxBlocks_le := Nat.min_le_right _ _
  used := by simp [pmmInit, usedSet]
  beyond := fun _ _ => rfl
  nullBlock := rfl

theorem initRegion (accounted : Accounted pmm) (base size : Nat) :
    Accounted (pmmInitRegion pmm base size) := by
  unfold pmmInitRegion
  generalize (if base % pmmBlockSize ≠ 0 then base / pmmBlockSize + 1
    else base / pmmBlockSize) = start
  have run := accounted.toCounted.clearRun start
    (by omega : start + (min ((base + size) / pmmBlockSize) pmm.maxBlocks - start) ≤
        pmm.maxBlocks ∨ min ((base + size) / pmmBlockSize) pmm.maxBlocks - start = 0)
  refine { toCounted := run.markBlock 0, nullBlock := ?_ }
  simp only [Allocated, pmmMarkBlock]
  split
  · assumption
  · simp

end Accounted

/-- What a successful allocation hands out: `count` blocks from `first` on
that were free, and nothing else changes in the map. -/
structure Grants (pmm : Pmm) (count first : Nat) (pmm' : Pmm) : Prop where
  positive : 1 ≤ first
  bounded : first + count ≤ pmm.maxBlocks
  free : ∀ block, first ≤ block → block < first + count → pmm.memoryMap block = false
  sameMax : pmm'.maxBlocks = pmm.maxBlocks
  map : ∀ block, pmm'.memoryMap block =
    if first ≤ block ∧ block < first + count then true else pmm.memoryMap block
  accounts : Accounted pmm → Accounted pmm'

theorem pmmAllocBlocks_cases (pmm : Pmm) (count : Nat) : pmmAllocBlocks pmm count = (none, pmm) ∨
      ∃ first pmm', pmmAllocBlocks pmm count = (some (first * pmmBlockSize), pmm') ∧
        Grants pmm count first pmm' := by
  unfold pmmAllocBlocks
  by_cases refused : count = 0 ∨ subUsed pmm.maxBlocks pmm.usedBlocks < count
  · left
    rw [if_pos refused]
  rw [if_neg refused]
  cases found : mmapFirstFreeRun pmm count with
  | none => exact Or.inl rfl
  | some first =>
    right
    refine ⟨first, _, rfl, ?_⟩
    unfold mmapFirstFreeRun at found
    by_cases impossible : count = 0 ∨ pmm.maxBlocks < count
    · simp [impossible] at found
    rw [if_neg impossible] at found
    have spec := mmapScan_free (Nat.le_refl 1) (by omega) (by omega) found
    exact {
      positive := spec.1
      bounded := by omega
      free := spec.2.2
      sameMax := rfl
      map := fun block => mmapSetRun_apply pmm.memoryMap first count block
      accounts := fun accounted => accounted.setRun (by omega) spec.2.2 }

variable {pmm : Pmm}

theorem Grants.map_one {pmm' : Pmm} (grant : Grants pmm 1 first pmm') :
    pmm'.memoryMap = update pmm.memoryMap first true := by
  funext block
  rw [grant.map]
  by_cases same : block = first
  · subst block
    simp
  · rw [update_of_ne same, if_neg (by omega)]

/-- Freeing an allocated block of the managed range clears exactly its bit. -/
theorem pmmFreeBlock_allocated (positive : 1 ≤ block)
    (bounded : block < pmm.maxBlocks) (allocated : Allocated pmm block) :
    (pmmFreeBlock pmm (block * pmmBlockSize)).memoryMap = update pmm.memoryMap block false ∧
      (pmmFreeBlock pmm (block * pmmBlockSize)).maxBlocks = pmm.maxBlocks := by
  have sizePositive : 0 < pmmBlockSize := by decide
  have blockOf : block * pmmBlockSize / pmmBlockSize = block :=
    Nat.mul_div_cancel block sizePositive
  have accepted : ¬ (block * pmmBlockSize = 0 ∨ (1 : Nat) = 0 ∨
      block * pmmBlockSize % pmmBlockSize ≠ 0) := by
    simp [pmmBlockSize]
    omega
  have inRange : ¬ (block = 0 ∨ pmm.maxBlocks ≤ block ∨ pmm.maxBlocks - block < 1) := by omega
  have bit : pmm.memoryMap block = true := allocated
  unfold pmmFreeBlock pmmFreeBlocks
  simp only [if_neg accepted, blockOf, if_neg inRange]
  simp [pmmClearRun, pmmClearBlock, bit]

end MiniOS.PhysicalMemory
