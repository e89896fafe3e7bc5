import MiniOS.PhysicalMemory

/-!
# Statements of the physical memory manager

`pmm_alloc_blocks` and `pmm_free_blocks` taken apart into the statements between
which a timer tick can arrive.  Besides the variables of `pmm.c` the state
counts how often each block has been granted without having been freed since.
-/

namespace MiniOS.Preemption

open Function PhysicalMemory

/-- The manager, with the number of outstanding grants of each block and the
blocks that were granted to the kernel heap. -/
structure Frames where
  pmm : Pmm
  grants : Nat → Nat
  heapFrames : Nat → Bool

variable (f : Frames)

namespace Frames

/-- A run of blocks is granted once more, to the heap or to another caller. -/
def grant (first count : Nat) (toHeap : Bool) : Frames where
  pmm := f.pmm
  grants := fun block =>
    if first ≤ block ∧ block < first + count then f.grants block + 1 else f.grants block
  heapFrames := fun block =>
    if first ≤ block ∧ block < first + count then toHeap || f.heapFrames block
    else f.heapFrames block

def giveUp (first count : Nat) : Frames where
  pmm := f.pmm
  grants := fun block => if first ≤ block ∧ block < first + count then 0 else f.grants block
  heapFrames := f.heapFrames

/-- No block is granted twice, and granted blocks are marked as used. -/
structure Ok (f : Frames) : Prop where
  once : ∀ block, f.grants block ≤ 1
  marked : ∀ block, f.grants block ≠ 0 → f.pmm.memoryMap block = true
  heap : ∀ block, f.heapFrames block = true → f.grants block = 1

theorem Ok.of_map {f : Frames} (ok : f.Ok) {pmm : Pmm}
    (kept : ∀ block, f.grants block ≠ 0 → pmm.memoryMap block = true) :
    ({ f with pmm } : Frames).Ok :=
  ⟨ok.once, kept, ok.heap⟩

/-- The blocks of a run are marked as used but not granted to anybody. -/
def Claimed (first count : Nat) : Prop :=
  ∀ block, first ≤ block → block < first + count → f.grants block = 0 ∧ f.pmm.memoryMap block = true

theorem Ok.grant {f : Frames} (ok : f.Ok) {first count : Nat} (claimed : f.Claimed first count)
    (toHeap : Bool) : (f.grant first count toHeap).Ok := by
  refine ⟨fun block => ?_, fun block granted => ?_, fun block heap => ?_⟩
  · have before := ok.once block
    simp only [Frames.grant]
    split
    · case isTrue inRun =>
      rw [(claimed block inRun.1 inRun.2).1]
    · exact before
  · simp only [Frames.grant] at granted ⊢
    split at granted
    · case isTrue inRun => exact (claimed block inRun.1 inRun.2).2
    · exact ok.marked block granted
  · simp only [Frames.grant] at heap ⊢
    split
    · case isTrue inRun =>
      rw [(claimed block inRun.1 inRun.2).1]
    · case isFalse outside =>
      rw [if_neg outside] at heap
      exact ok.heap block heap

theorem Ok.giveUp {f : Frames} (ok : f.Ok) {first count : Nat}
    (notHeap : ∀ block, first ≤ block → block < first + count → f.heapFrames block = false) :
    (f.giveUp first count).Ok := by
  refine ⟨fun block => ?_, fun block granted => ?_, fun block heap => ?_⟩
  · simp only [Frames.giveUp]
    split
    · exact Nat.zero_le 1
    · exact ok.once block
  · simp only [Frames.giveUp] at granted ⊢
    split at granted
    · exact absurd rfl granted
    · exact ok.marked block granted
  · simp only [Frames.giveUp] at heap ⊢
    rw [if_neg fun inRun => by simp [notHeap block inRun.1 inRun.2] at heap]
    exact ok.heap block heap

end Frames

/-- The statements of `pmm_alloc_blocks` and of `mmap_first_free_run`, with their
local variables.  The scan begins at block 1, so the null pointer is never the
address of a run. -/
inductive AllocPc
  | check (count : Nat)
  | search (count : Nat)
  | scan (count frame runStart runLength : Nat)
  | set (count first i : Nat)
  | addUsed (count first : Nat)
  | done (count : Nat) (first : Option Nat)
deriving DecidableEq, Repr

def allocStep (pmm : Pmm) : AllocPc → AllocPc × Pmm
  | .check count =>
    if count = 0 ∨ subUsed pmm.maxBlocks pmm.usedBlocks < count then (.done count none, pmm)
    else (.search count, pmm)
  | .search count =>
    if count = 0 ∨ pmm.maxBlocks < count then (.done count none, pmm)
    else (.scan count 1 0 0, pmm)
  | .scan count frame runStart runLength =>
    if pmm.maxBlocks ≤ frame then (.done count none, pmm)
    else if pmm.memoryMap frame = false then
      let runStart := if runLength = 0 then frame else runStart
      if runLength + 1 = count then (.set count runStart 0, pmm)
      else (.scan count (frame + 1) runStart (runLength + 1), pmm)
    else (.scan count (frame + 1) runStart 0, pmm)
  | .set count first i =>
    if i < count then
      (.set count first (i + 1),
        { pmm with memoryMap := update pmm.memoryMap (first + i) true })
    else (.addUsed count first, pmm)
  | .addUsed count first =>
    (.done count (some first), { pmm with usedBlocks := addUsed pmm.usedBlocks count })
  | .done count first => (.done count first, pmm)

/-- What holds at each statement while nobody else uses the manager. -/
def AllocPc.Holds : AllocPc → Prop
  | .check _ | .search _ | .done _ none => True
  | .scan _ frame runStart runLength => runLength = 0 ∨ runStart + runLength = frame ∧
      ∀ block, runStart ≤ block → block < frame → f.pmm.memoryMap block = false
  | .set count first i => 1 ≤ count ∧ i ≤ count ∧ f.Claimed first i ∧
      ∀ block, first ≤ block → block < first + count → f.grants block = 0
  | .addUsed count first | .done count (some first) => 1 ≤ count ∧ f.Claimed first count

theorem allocStep_holds {f : Frames} (ok : f.Ok) {pc : AllocPc} (holds : pc.Holds f) :
    ({ f with pmm := (allocStep f.pmm pc).2 } : Frames).Ok ∧
      (allocStep f.pmm pc).1.Holds { f with pmm := (allocStep f.pmm pc).2 } := by
  cases pc with
  | check count =>
    rw [allocStep]
    split <;> exact ⟨ok, trivial⟩
  | search count =>
    rw [allocStep]
    split
    · exact ⟨ok, trivial⟩
    · exact ⟨ok, Or.inl rfl⟩
  | scan count frame runStart runLength =>
    rw [allocStep]
    split
    · exact ⟨ok, trivial⟩
    split
    · case isTrue free =>
      -- the run now ends behind this block
      have longer : (if runLength = 0 then frame else runStart) + (runLength + 1) = frame + 1 ∧
          ∀ block, (if runLength = 0 then frame else runStart) ≤ block → block < frame + 1 →
            f.pmm.memoryMap block = false := by
        split
        · case isTrue start =>
          refine ⟨by omega, fun block low high => ?_⟩
          obtain rfl : block = frame := by omega
          exact free
        · case isFalse inside =>
          obtain ⟨ends, freeRun⟩ := holds.resolve_left inside
          refine ⟨by omega, fun block low high => ?_⟩
          by_cases last : block = frame
          · exact last ▸ free
          · exact freeRun block low (by omega)
      dsimp only
      split
      · case isTrue full =>
        refine ⟨ok, by omega, Nat.zero_le _, fun block low high => by omega,
          fun block low high => ?_⟩
        by_contra granted
        have marked := ok.marked block granted
        rw [longer.2 block low (by omega)] at marked
        exact absurd marked (by decide)
      · exact ⟨ok, Or.inr longer⟩
    · exact ⟨ok, Or.inl rfl⟩
  | set count first i =>
    obtain ⟨positive, bound, claimed, ungranted⟩ := holds
    rw [allocStep]
    split
    · refine ⟨ok.of_map fun block granted => ?_, positive, by omega, fun block low high => ?_,
        ungranted⟩
      · dsimp only
        rw [update_apply]
        split
        · rfl
        · exact ok.marked block granted
      · refine ⟨ungranted block low (by omega), ?_⟩
        dsimp only
        rw [update_apply]
        split
        · rfl
        · exact (claimed block low (by omega)).2
    · obtain rfl : i = count := by omega
      exact ⟨ok, positive, claimed⟩
  | addUsed count first => exact ⟨ok.of_map ok.marked, holds⟩
  | done count first =>
    cases first with
    | none => exact ⟨ok, trivial⟩
    | some first => exact ⟨ok, holds⟩

/-- The statements of `pmm_free_blocks`. -/
inductive FreePc
  | check (addr count : Nat)
  | test (first count i : Nat)
  | unset (first count i : Nat)
  | subUsed (first count i : Nat)
  | done
deriving DecidableEq, Repr

def freeStep : FreePc → FreePc × Frames
  | .check addr count =>
    if addr = 0 ∨ count = 0 ∨ addr % pmmBlockSize ≠ 0 then (.done, f)
    else
      let first := addr / pmmBlockSize
      if first = 0 ∨ f.pmm.maxBlocks ≤ first ∨ f.pmm.maxBlocks - first < count then (.done, f)
      else (.test first count 0, f.giveUp first count)
  | .test first count i =>
    if i < count then
      if f.pmm.memoryMap (first + i) then (.unset first count i, f)
      else (.test first count (i + 1), f)
    else (.done, f)
  | .unset first count i =>
    (.subUsed first count i,
      { f with
        pmm := { f.pmm with memoryMap := update f.pmm.memoryMap (first + i) false } })
  | .subUsed first count i =>
    (.test first count (i + 1),
      { f with pmm := { f.pmm with usedBlocks := subUsed f.pmm.usedBlocks 1 } })
  | .done => (.done, f)

/-- The blocks of the call are not those of the heap, and given up once the checks
have passed. -/
def FreePc.Holds : FreePc → Prop
  | .check addr count => ∀ block, addr / pmmBlockSize ≤ block →
      block < addr / pmmBlockSize + count → f.heapFrames block = false
  | .test first count _ =>
    ∀ block, first ≤ block → block < first + count → f.grants block = 0
  | .unset first count i | .subUsed first count i => i < count ∧
      ∀ block, first ≤ block → block < first + count → f.grants block = 0
  | .done => True

theorem freeStep_holds {f : Frames} (ok : f.Ok) {pc : FreePc} (holds : pc.Holds f) :
    (freeStep f pc).2.Ok ∧ (freeStep f pc).1.Holds (freeStep f pc).2 := by
  cases pc with
  | check addr count =>
    rw [freeStep]
    split
    · exact ⟨ok, trivial⟩
    dsimp only
    split
    · exact ⟨ok, trivial⟩
    · refine ⟨ok.giveUp holds, fun block low high => ?_⟩
      exact if_pos ⟨low, high⟩
  | test first count i =>
    rw [freeStep]
    split
    · case isTrue more =>
      split
      · exact ⟨ok, more, holds⟩
      · exact ⟨ok, holds⟩
    · exact ⟨ok, trivial⟩
  | unset first count i =>
    obtain ⟨more, ungranted⟩ := holds
    refine ⟨ok.of_map fun block granted => ?_, more, ungranted⟩
    have other : block ≠ first + i := fun same =>
      granted (ungranted block (by omega) (by omega))
    exact (update_of_ne other _ _).trans (ok.marked block granted)
  | subUsed first count i => exact ⟨ok.of_map ok.marked, holds.2⟩
  | done => exact ⟨ok, trivial⟩

theorem freeStep_heapFrames (pc : FreePc) : (freeStep f pc).2.heapFrames = f.heapFrames := by
  cases pc <;> simp only [freeStep]
  · split
    · rfl
    · split <;> rfl
  · split
    · split <;> rfl
    · rfl

end MiniOS.Preemption
