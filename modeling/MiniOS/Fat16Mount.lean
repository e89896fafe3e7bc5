import MiniOS.Fat16Run

/-!
# Mounting a FAT16 image

`fat16_install` copies an image into blocks of the memory manager and mounts it
when its boot sector passes the checks.
-/

namespace MiniOS.Fat16

open PhysicalMemory TracedAccess Traced

/-- The number of blocks that hold `size` bytes. -/
def blocksFor (size : Nat) : Nat :=
  size / pmmBlockSize + if size % pmmBlockSize ≠ 0 then 1 else 0

/-- The state of the driver while a volume is mounted. -/
structure Mounted where
  address : Nat
  layout : Layout
  driver : Driver

def fat16ReleaseImage (pmm : Pmm) : Option Mounted → Pmm
  | none => pmm
  | some mounted => pmmFreeBlocks pmm mounted.address (blocksFor mounted.layout.imgSize)

/-- The fields that `fat16_install` reads from the boot sector. -/
def readParameters (img : Bytes) (size : Nat) :
    Traced {p : Parameters // p.imgSize = size ∧ p.sectorsPerCluster < 256} := do
  let bytesPerSector ← rd16 size img 11
  let sectorsPerCluster ← peek img 13
  let reservedSectors ← rd16 size img 14
  let numFats ← peek img 16
  let rootEntries ← rd16 size img 17
  let sectorsPerFat ← rd16 size img 22
  pure
    ⟨{ imgSize := size
       bytesPerSector
       sectorsPerCluster := sectorsPerCluster.toNat
       reservedSectors
       numFats := numFats.toNat
       rootEntries
       sectorsPerFat }, rfl, sectorsPerCluster.toNat_lt⟩

/-- The fields that `fat16_install` accepts. -/
def FieldsValid (p : Parameters) : Prop :=
  p.bytesPerSector = 512 ∧ p.sectorsPerCluster ≠ 0 ∧ p.numFats ≠ 0 ∧ p.rootEntries ≠ 0 ∧
    p.sectorsPerFat ≠ 0

instance (p : Parameters) : Decidable (FieldsValid p) :=
  inferInstanceAs (Decidable (_ ∧ _))

/-- The checks of `fat16_install` on the fields and on the signature. -/
def acceptLayout (img : Bytes) {size : Nat} (bounded : size ≤ pmmMaxMemory)
    (p : {p : Parameters // p.imgSize = size ∧ p.sectorsPerCluster < 256}) :
    Traced (Option Layout) :=
  if fields : FieldsValid p.val then do
    let low ← peek img 510
    if low ≠ 0x55 then pure none
    else do
      let high ← peek img 511
      if high ≠ 0xAA then pure none
      else if fits : p.val.dataLba ≤ p.val.imgSize / p.val.bytesPerSector then
        pure (some
          { toParameters := p.val
            mountable :=
              { imgSize_le := p.property.1.trans_le bounded
                bytesPerSector_eq := fields.1
                sectorsPerCluster_pos := Nat.pos_of_ne_zero fields.2.1
                sectorsPerCluster_lt := p.property.2
                numFats_pos := Nat.pos_of_ne_zero fields.2.2.1
                rootEntries_pos := Nat.pos_of_ne_zero fields.2.2.2.1
                sectorsPerFat_pos := Nat.pos_of_ne_zero fields.2.2.2.2
                dataLba_le := fits } })
      else pure none
  else pure none

/-- The memory manager grants at most the blocks it has. -/
theorem pmmAllocBlocks_le {pmm pmm' : Pmm} {count address : Nat}
    (granted : pmmAllocBlocks pmm count = (some address, pmm')) : count ≤ pmm.maxBlocks := by
  rw [pmmAllocBlocks] at granted
  split at granted
  · simp at granted
  · rw [mmapFirstFreeRun] at granted
    by_cases impossible : count = 0 ∨ pmm.maxBlocks < count
    · rw [if_pos impossible] at granted
      simp at granted
    · omega

theorem granted_size_le {pmm pmm' : Pmm} {size address : Nat}
    (bounded : pmm.maxBlocks ≤ pmmMaxBlocks)
    (granted : pmmAllocBlocks pmm (blocksFor size) = (some address, pmm')) :
    size ≤ pmmMaxMemory := by
  have blocks := pmmAllocBlocks_le granted
  have covered : size ≤ blocksFor size * pmmBlockSize := by
    rw [blocksFor, pmmBlockSize]
    split <;> omega
  calc
    size ≤ blocksFor size * pmmBlockSize := covered
    _ ≤ pmmMaxBlocks * pmmBlockSize := Nat.mul_le_mul_right _ (blocks.trans bounded)
    _ = pmmMaxMemory := by decide

theorem fat16ReleaseImage_maxBlocks (pmm : Pmm) (old : Option Mounted) :
    (fat16ReleaseImage pmm old).maxBlocks = pmm.maxBlocks := by
  cases old with
  | none => rfl
  | some mounted => exact pmmFreeBlocks_maxBlocks ..

/-- `fat16_install` with the memory manager `pmm`.  The blocks it obtains hold
`memory` before the image is copied into them. -/
def fat16Install (pmm : Pmm) (bounded : pmm.maxBlocks ≤ pmmMaxBlocks) (old : Option Mounted)
    (image : Option Bytes) (size : Nat) (memory : Bytes) : Traced (Option Mounted × Pmm) :=
  let released := fat16ReleaseImage pmm old
  match image with
  | none => pure (none, released)
  | some image =>
    if size < 512 then pure (none, released)
    else
      match granted : pmmAllocBlocks released (blocksFor size) with
      | (none, pmm') => pure (none, pmm')
      | (some address, pmm') => do
        let img := overwrite memory 0 size image
        let bounded :=
          granted_size_le ((fat16ReleaseImage_maxBlocks pmm old).trans_le bounded) granted
        let parameters ← readParameters img size
        match ← acceptLayout img bounded parameters with
        | none => pure (none, pmmFreeBlocks pmm' address (blocksFor size))
        | some layout => pure (some { address, layout, driver := mountedDriver img }, pmm')

end MiniOS.Fat16
