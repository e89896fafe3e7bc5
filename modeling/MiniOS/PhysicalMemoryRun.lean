import MiniOS.PhysicalMemory
import MiniOS.RunInvariant

/-!
# Runs of the physical memory manager

The manager after any sequence of its operations, with arguments of any 32-bit
value.  `pmmVisits` lists the frame numbers that the loops of an operation go
through, as their 32-bit loop variables hold them, so that a sum that wrapped
would show up there as a small number.
-/

namespace MiniOS.PhysicalMemory

open Function Machine

def pmmMarkRun (pmm : Pmm) (first : Nat) : Nat → Pmm
  | 0 => pmm
  | count + 1 => pmmMarkBlock (pmmMarkRun pmm first count) (first + count)

/-- The first block that `pmm_init_region` releases and the end of its loop. -/
def initBounds (pmm : Pmm) (base size : Nat) : Nat × Nat :=
  (if base % pmmBlockSize ≠ 0 then base / pmmBlockSize + 1 else base / pmmBlockSize,
    min ((base + size) / pmmBlockSize) pmm.maxBlocks)

/-- The first block that `pmm_deinit_region` reserves and the end of its loop.  As
in `pmm_init_region` the end of the region is computed with 64 bits. -/
def deinitBounds (pmm : Pmm) (base size : Nat) : Nat × Nat :=
  (base / pmmBlockSize, min ((base + size + pmmBlockSize - 1) / pmmBlockSize) pmm.maxBlocks)

def pmmDeinitRegion (pmm : Pmm) (base size : Nat) : Pmm :=
  let (start, stop) := deinitBounds pmm base size
  pmmMarkRun pmm start (stop - start)

/-- The operations of `pmm.c` after `pmm_init`. -/
inductive PmmOp
  | initRegion (base size : UInt32)
  | deinitRegion (base size : UInt32)
  | allocBlocks (count : UInt32)
  | freeBlocks (addr count : UInt32)
deriving DecidableEq, Repr

def pmmStep (pmm : Pmm) : PmmOp → Pmm
  | .initRegion base size => pmmInitRegion pmm base.toNat size.toNat
  | .deinitRegion base size => pmmDeinitRegion pmm base.toNat size.toNat
  | .allocBlocks count => (pmmAllocBlocks pmm count.toNat).2
  | .freeBlocks addr count => pmmFreeBlocks pmm addr.toNat count.toNat

/-- The values of a 32-bit loop variable that starts at `first`. -/
def loopFrames (first count : Nat) : List Nat :=
  (List.range count).map fun index => (first + index) % 2 ^ 32

def pmmVisits (pmm : Pmm) : PmmOp → List Nat
  | .initRegion base size =>
    let (start, stop) := initBounds pmm base.toNat size.toNat
    loopFrames start (stop - start)
  | .deinitRegion base size =>
    let (start, stop) := deinitBounds pmm base.toNat size.toNat
    loopFrames start (stop - start)
  | .allocBlocks count =>
    match (pmmAllocBlocks pmm count.toNat).1 with
    | none => []
    | some addr => loopFrames (addr / pmmBlockSize) count.toNat
  | .freeBlocks addr count =>
    let first := addr.toNat / pmmBlockSize
    if addr.toNat = 0 ∨ count.toNat = 0 ∨ addr.toNat % pmmBlockSize ≠ 0 ∨ first = 0 ∨
        pmm.maxBlocks ≤ first ∨ pmm.maxBlocks - first < count.toNat then []
    else loopFrames first count.toNat

theorem pmmInitRegion_eq (pmm : Pmm) (base size : Nat) :
    pmmInitRegion pmm base size = pmmMarkBlock (pmmClearRun pmm (initBounds pmm base size).1
      ((initBounds pmm base size).2 - (initBounds pmm base size).1)) 0 := rfl

theorem pmmInitRegion_apply (pmm : Pmm) (base size block : Nat) :
    (pmmInitRegion pmm base size).memoryMap block =
      if block = 0 then true
      else if (initBounds pmm base size).1 ≤ block ∧ block < (initBounds pmm base size).2 then false
      else pmm.memoryMap block := by
  have sameRange : ((initBounds pmm base size).1 ≤ block ∧ block < (initBounds pmm base size).2) ↔
      ((initBounds pmm base size).1 ≤ block ∧ block < (initBounds pmm base size).1 +
        ((initBounds pmm base size).2 - (initBounds pmm base size).1)) := by omega
  simp only [sameRange, pmmInitRegion_eq, ← pmmClearRun_apply]
  rw [pmmMarkBlock]
  by_cases zero : block = 0
  · subst block
    split
    case isTrue set => simpa using set
    · simp
  · rw [if_neg zero]
    split
    · rfl
    · simp [zero]

theorem pmmInitRegion_maxBlocks (pmm : Pmm) (base size : Nat) :
    (pmmInitRegion pmm base size).maxBlocks = pmm.maxBlocks := by
  rw [pmmInitRegion_eq, pmmMarkBlock]
  split <;> exact pmmClearRun_maxBlocks _ _ _

variable {first count : Nat}

/-- A loop that ends below `limit` goes through the frames from `first` on. -/
theorem mem_loopFrames {limit frame : Nat} (below : first + count ≤ limit ∨ count = 0)
    (small : limit ≤ pmmMaxBlocks) :
    frame ∈ loopFrames first count ↔ first ≤ frame ∧ frame < first + count := by
  have bound : pmmMaxBlocks = 8192 := rfl
  simp only [loopFrames, List.mem_map, List.mem_range]
  constructor
  · rintro ⟨index, inside, rfl⟩
    omega
  · rintro ⟨lower, upper⟩
    exact ⟨frame - first, by omega, by omega⟩

theorem pmmMarkRun_apply (pmm : Pmm) (first count block : Nat) :
    (pmmMarkRun pmm first count).memoryMap block =
      if first ≤ block ∧ block < first + count then true else pmm.memoryMap block := by
  refine updates_apply (fun done => (pmmMarkRun pmm first done).memoryMap) (fun done => ?_) count block
  rw [pmmMarkRun, pmmMarkBlock]
  cases bit : (pmmMarkRun pmm first done).memoryMap (first + done) with
  | true => rw [if_pos rfl, ← bit, update_eq_self]
  | false => rw [if_neg Bool.false_ne_true]

theorem pmmMarkRun_maxBlocks (pmm : Pmm) (first count : Nat) :
    (pmmMarkRun pmm first count).maxBlocks = pmm.maxBlocks := by
  induction count with
  | zero => rfl
  | succ count ih =>
    rw [pmmMarkRun, pmmMarkBlock]
    split <;> exact ih

variable {pmm : Pmm}

theorem Counted.markRun (counted : Counted pmm) (first count : Nat) :
    Counted (pmmMarkRun pmm first count) := by
  induction count with
  | zero => exact counted
  | succ count ih => exact ih.markBlock _

theorem Accounted.deinitRegion (accounted : Accounted pmm) (base size : Nat) :
    Accounted (pmmDeinitRegion pmm base size) := by
  refine { toCounted := accounted.toCounted.markRun _ _, nullBlock := ?_ }
  have set : pmm.memoryMap 0 = true := accounted.nullBlock
  rw [Allocated, pmmDeinitRegion, pmmMarkRun_apply, set, ite_self]

theorem Accounted.allocBlocks (accounted : Accounted pmm) (count : Nat) :
    Accounted (pmmAllocBlocks pmm count).2 := by
  rcases pmmAllocBlocks_cases pmm count with refused | ⟨first, pmm', granted, grants⟩
  · rw [refused]
    exact accounted
  · rw [granted]
    exact grants.accounts accounted

theorem pmmStep_accounted (pmm : Pmm) (op : PmmOp) (accounted : Accounted pmm) :
    Accounted (pmmStep pmm op) := by
  cases op with
  | initRegion base size => exact accounted.initRegion _ _
  | deinitRegion base size => exact accounted.deinitRegion _ _
  | allocBlocks count => exact accounted.allocBlocks _
  | freeBlocks addr count => exact accounted.freeBlocks _ _

/-- What one operation may touch: its loops stay below `max_blocks`, and no bit
outside them changes. -/
structure Confined (pmm : Pmm) (op : PmmOp) : Prop where
  visits : ∀ frame ∈ pmmVisits pmm op, frame < pmm.maxBlocks
  changes : ∀ block, (pmmStep pmm op).memoryMap block ≠ pmm.memoryMap block →
    block ∈ pmmVisits pmm op
  sameMax : (pmmStep pmm op).maxBlocks = pmm.maxBlocks

variable (accounted : Accounted pmm)

include accounted

/-- An operation with one loop, which ends below `max_blocks`. -/
theorem Accounted.confined_loop {op : PmmOp} (visitsEq : pmmVisits pmm op = loopFrames first count)
    (below : first + count ≤ pmm.maxBlocks ∨ count = 0)
    (unchanged : ∀ block, ¬ (first ≤ block ∧ block < first + count) →
      (pmmStep pmm op).memoryMap block = pmm.memoryMap block)
    (sameMax : (pmmStep pmm op).maxBlocks = pmm.maxBlocks) : Confined pmm op := by
  have member : ∀ frame, frame ∈ pmmVisits pmm op ↔ first ≤ frame ∧ frame < first + count := by
    intro frame
    rw [visitsEq]
    exact mem_loopFrames below accounted.maxBlocks_le
  refine ⟨fun frame visited => ?_, fun block changed => ?_, sameMax⟩
  · rw [member] at visited
    omega
  · rw [member]
    by_contra outside
    exact changed (unchanged block outside)

theorem Accounted.confined_initRegion (base size : UInt32) :
    Confined pmm (.initRegion base size) := by
  have stop_le : (initBounds pmm base.toNat size.toNat).2 ≤ pmm.maxBlocks := Nat.min_le_right _ _
  have visitsEq : pmmVisits pmm (.initRegion base size) =
      loopFrames (initBounds pmm base.toNat size.toNat).1
        ((initBounds pmm base.toNat size.toNat).2 - (initBounds pmm base.toNat size.toNat).1) := rfl
  refine accounted.confined_loop visitsEq (by omega) (fun block outside => ?_)
    (pmmInitRegion_maxBlocks pmm _ _)
  rw [pmmStep, pmmInitRegion_apply]
  by_cases zero : block = 0
  · rw [if_pos zero, zero]
    exact accounted.nullBlock.symm
  · rw [if_neg zero, if_neg (by omega)]

theorem Accounted.confined_deinitRegion (base size : UInt32) :
    Confined pmm (.deinitRegion base size) := by
  refine accounted.confined_loop rfl (by omega) (fun block outside => ?_)
    (pmmMarkRun_maxBlocks pmm _ _)
  exact (pmmMarkRun_apply pmm _ _ block).trans (if_neg outside)

theorem Accounted.confined_allocBlocks (count : UInt32) : Confined pmm (.allocBlocks count) := by
  rcases pmmAllocBlocks_cases pmm count.toNat with refused | ⟨first, pmm', granted, grants⟩
  · refine ⟨?_, ?_, ?_⟩ <;> simp [pmmVisits, pmmStep, refused]
  · have frameOf : first * pmmBlockSize / pmmBlockSize = first :=
      Nat.mul_div_cancel first (by decide)
    refine accounted.confined_loop (by simp only [pmmVisits, granted, frameOf])
      (Or.inl grants.bounded) (fun block outside => ?_) ?_
    · rw [pmmStep, granted, grants.map, if_neg outside]
    · rw [pmmStep, granted, grants.sameMax]

theorem Accounted.confined_freeBlocks (addr count : UInt32) :
    Confined pmm (.freeBlocks addr count) := by
  have sameMax : (pmmStep pmm (.freeBlocks addr count)).maxBlocks = pmm.maxBlocks :=
    pmmFreeBlocks_maxBlocks _ _ _
  by_cases refused : addr.toNat = 0 ∨ count.toNat = 0 ∨ addr.toNat % pmmBlockSize ≠ 0 ∨
      addr.toNat / pmmBlockSize = 0 ∨ pmm.maxBlocks ≤ addr.toNat / pmmBlockSize ∨
      pmm.maxBlocks - addr.toNat / pmmBlockSize < count.toNat
  · have unchanged : pmmStep pmm (.freeBlocks addr count) = pmm := by
      simp only [pmmStep, pmmFreeBlocks]
      split
      · rfl
      · rw [if_pos (by tauto)]
    have visitsEq : pmmVisits pmm (.freeBlocks addr count) = [] := if_pos refused
    exact ⟨by simp [visitsEq], by simp [unchanged], sameMax⟩
  · have stepEq : pmmStep pmm (.freeBlocks addr count) =
        pmmClearRun pmm (addr.toNat / pmmBlockSize) count.toNat := by
      simp only [pmmStep, pmmFreeBlocks]
      rw [if_neg (by tauto), if_neg (by tauto)]
    refine accounted.confined_loop (if_neg refused) (by omega) (fun block outside => ?_) sameMax
    rw [stepEq, pmmClearRun_apply, if_neg outside]

theorem Accounted.confined (op : PmmOp) : Confined pmm op := by
  cases op with
  | initRegion base size => exact accounted.confined_initRegion base size
  | deinitRegion base size => exact accounted.confined_deinitRegion base size
  | allocBlocks count => exact accounted.confined_allocBlocks count
  | freeBlocks addr count => exact accounted.confined_freeBlocks addr count

omit accounted

/-- The accounting of the manager in every state of a run from `pmm_init`, and
the reach of whatever operation comes next. -/
theorem run_pmm_accounted (memSizeKb : UInt32) (ops : List PmmOp) :
    let pmm := run pmmStep (pmmInit memSizeKb.toNat) ops
    pmm.usedBlocks = (usedSet pmm.memoryMap pmm.maxBlocks).card ∧
      pmm.usedBlocks ≤ pmm.maxBlocks ∧ pmm.maxBlocks ≤ 8192 ∧
      Allocated pmm 0 ∧ (∀ block, pmm.maxBlocks ≤ block → Allocated pmm block) ∧
      ∀ op, Confined pmm op := by
  intro pmm
  have accounted : Accounted pmm :=
    run_invariant Accounted pmmStep_accounted (Accounted.init _) ops
  exact ⟨accounted.used, accounted.used_le, accounted.maxBlocks_le, accounted.nullBlock,
    accounted.beyond, accounted.confined⟩

def FreeRun (pmm : Pmm) (count first : Nat) : Prop :=
  1 ≤ first ∧ first + count ≤ pmm.maxBlocks ∧
    ∀ block, first ≤ block → block < first + count → pmm.memoryMap block = false

/-- The scan does not pass a run of free blocks.  While it is not in sight, the
current run starts at most where the free one does. -/
theorem mmapScan_le {memoryMap : Nat → Bool}
    (free : ∀ block, first ≤ block → block < first + count → memoryMap block = false) :
    ∀ {remaining frame runStart runLength : Nat}, runLength < count →
      (0 < runLength → runStart + runLength = frame) → frame ≤ first + runLength →
      first + count ≤ frame + remaining →
      ∃ start, mmapScan memoryMap count remaining frame runStart runLength = some start ∧
        start ≤ first := by
  intro remaining
  induction remaining with
  | zero => omega
  | succ remaining ih =>
    intro frame runStart runLength short runEnds before room
    rw [mmapScan]
    split
    · have newStart : (if runLength = 0 then frame else runStart) + (runLength + 1) = frame + 1 := by
        split <;> omega
      dsimp only
      split
      · exact ⟨_, rfl, by omega⟩
      · exact ih (by omega) (fun _ => newStart) (by omega) (by omega)
    · rename_i used
      have behind : frame < first := by
        by_contra inside
        exact used (free frame (by omega) (by omega))
      exact ih (by omega) (by omega) (by omega) (by omega)

theorem Accounted.exists_grant (accounted : Accounted pmm) (positive : 1 ≤ count)
    (run : FreeRun pmm count first) :
    ∃ start, (pmmAllocBlocks pmm count).1 = some (start * pmmBlockSize) ∧ start ≤ first := by
  obtain ⟨isFirst, bounded, free⟩ := run
  have card := usedSet_card_setRun bounded free
  have limit := usedSet_card_le (mmapSetRun pmm.memoryMap first count) pmm.maxBlocks
  have used := accounted.used
  have small := accounted.maxBlocks_le
  have bound : pmmMaxBlocks = 8192 := rfl
  obtain ⟨start, found, least⟩ := mmapScan_le free (show 0 < count by omega)
    (fun empty => absurd empty (Nat.lt_irrefl 0)) isFirst
    (show first + count ≤ 1 + (pmm.maxBlocks - 1) by omega)
  refine ⟨start, ?_, least⟩
  rw [pmmAllocBlocks, if_neg (by unfold subUsed; omega), mmapFirstFreeRun, if_neg (by omega), found]

/-- Giving back the run of an allocation undoes it. -/
theorem Grants.freeBlocks {pmm' : Pmm} (grants : Grants pmm count first pmm')
    (accounted : Accounted pmm) (positive : 1 ≤ count) :
    pmmFreeBlocks pmm' (first * pmmBlockSize) count = pmm := by
  have isFirst := grants.positive
  have bounded := grants.bounded
  have map : (pmmFreeBlocks pmm' (first * pmmBlockSize) count).memoryMap = pmm.memoryMap := by
    rw [pmmFreeBlocks, if_neg (by unfold pmmBlockSize; omega)]
    dsimp only
    rw [Nat.mul_div_cancel first (by decide), grants.sameMax, if_neg (by omega)]
    funext block
    rw [pmmClearRun_apply, grants.map]
    split
    case isTrue inside => exact (grants.free block inside.1 inside.2).symm
    case isFalse => rfl
  have sameMax := (pmmFreeBlocks_maxBlocks pmm' (first * pmmBlockSize) count).trans grants.sameMax
  have used := ((grants.accounts accounted).freeBlocks (first * pmmBlockSize) count).used
  rw [map, sameMax, ← accounted.used] at used
  exact congr (congr (congrArg Pmm.mk map) sameMax) used

/-- In every state of a run, an allocation finds the lowest run of free blocks if there
is one. -/
theorem run_pmmAllocBlocks_firstFit (memSizeKb : UInt32) (ops : List PmmOp) (count : UInt32) :
    let pmm := run pmmStep (pmmInit memSizeKb.toNat) ops
    ((pmmAllocBlocks pmm count.toNat).1 ≠ none ↔
      1 ≤ count.toNat ∧ ∃ first, FreeRun pmm count.toNat first) ∧
    ((pmmAllocBlocks pmm count.toNat).1 = none → (pmmAllocBlocks pmm count.toNat).2 = pmm) ∧
    ∀ addr pmm', pmmAllocBlocks pmm count.toNat = (some addr, pmm') →
      ∃ first, addr = first * pmmBlockSize ∧ addr ≠ 0 ∧ FreeRun pmm count.toNat first ∧
        (∀ other, FreeRun pmm count.toNat other → first ≤ other) ∧
        (∀ block, pmm'.memoryMap block =
          if first ≤ block ∧ block < first + count.toNat then true else pmm.memoryMap block) ∧
        pmm'.maxBlocks = pmm.maxBlocks ∧ pmm'.usedBlocks = pmm.usedBlocks + count.toNat ∧
        pmmFreeBlocks pmm' addr count.toNat = pmm := by
  intro pmm
  have accounted : Accounted pmm :=
    run_invariant Accounted pmmStep_accounted (Accounted.init _) ops
  generalize pmm = pmm at accounted
  generalize count.toNat = count
  rcases pmmAllocBlocks_cases pmm count with refused | ⟨first, pmm', granted, grants⟩
  · rw [refused]
    refine ⟨iff_of_false (fun found => found rfl) ?_, fun _ => rfl, nofun⟩
    rintro ⟨positive, first, run⟩
    obtain ⟨start, found, -⟩ := accounted.exists_grant positive run
    rw [refused] at found
    cases found
  · have run : FreeRun pmm count first := ⟨grants.positive, grants.bounded, grants.free⟩
    have positive : 1 ≤ count := by
      by_contra zero
      rw [pmmAllocBlocks, if_pos (by omega)] at granted
      cases granted
    rw [granted]
    refine ⟨iff_of_true nofun ⟨positive, first, run⟩, nofun, ?_⟩
    rintro _ _ ⟨⟩
    refine ⟨first, rfl, ?_, run, fun other free => ?_, grants.map, grants.sameMax, ?_,
      grants.freeBlocks accounted positive⟩
    · exact Nat.mul_ne_zero (Nat.ne_of_gt grants.positive) (by decide)
    · obtain ⟨start, found, least⟩ := accounted.exists_grant positive free
      rw [granted, Option.some.injEq] at found
      exact Nat.eq_of_mul_eq_mul_right (by decide) found ▸ least
    · have sameMap : pmm'.memoryMap = mmapSetRun pmm.memoryMap first count := by
        funext block
        rw [grants.map, mmapSetRun_apply]
      rw [(grants.accounts accounted).used, sameMap, grants.sameMax, accounted.used,
        usedSet_card_setRun grants.bounded grants.free]

end MiniOS.PhysicalMemory
