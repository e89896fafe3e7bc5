import MiniOS.DiskFsTable
import MiniOS.RunInvariant

/-!
# The file system survives a restart

Every operation writes the whole table and the superblock before it returns.  So at
any time a mount that only has the disk accepts it and finds the tree, the generation
and the files that are in memory.
-/

namespace MiniOS.DiskFs

open ByteMemory LittleEndian Machine
open Fat16 (CString)

def applyWrites (sectors : Nat → Region) (writes : List (Nat × Region)) : Nat → Region :=
  writes.foldl (fun sectors write => Function.update sectors write.1 write.2) sectors

structure Wrote (ata after : Ata) (writes : List (Nat × Region)) : Prop where
  available : after.available = ata.available
  sectorCount : after.sectorCount = ata.sectorCount
  sectors : after.sectors = applyWrites ata.sectors writes
  written : after.written = ata.written ++ writes

variable {ata middle after : Ata} {first second writes : List (Nat × Region)} {v : Volume}

theorem Wrote.refl (ata : Ata) : Wrote ata ata [] := ⟨rfl, rfl, rfl, (List.append_nil _).symm⟩

theorem Wrote.trans (begins : Wrote ata middle first) (continues : Wrote middle after second) :
    Wrote ata after (first ++ second) where
  available := continues.available.trans begins.available
  sectorCount := continues.sectorCount.trans begins.sectorCount
  sectors := by rw [continues.sectors, begins.sectors, applyWrites, applyWrites, applyWrites,
    List.foldl_append]
  written := by rw [continues.written, begins.written, List.append_assoc]

theorem wrote_writeSector (ata : Ata) (lba : Nat) (sector : Region) :
    Wrote ata (ata.writeSector lba sector) [(lba, sector)] := ⟨rfl, rfl, rfl, rfl⟩

variable {lba offset : Nat} {op : Op} {name : CString} {entries : Region} {sectorCount : UInt32}
  {w : Volume}

theorem applyWrites_elsewhere {sectors : Nat → Region}
    (elsewhere : ∀ write ∈ writes, write.1 ≠ lba) : applyWrites sectors writes lba = sectors lba := by
  induction writes generalizing sectors with
  | nil => rfl
  | cons write writes ih =>
    rw [List.forall_mem_cons] at elsewhere
    rw [applyWrites, List.foldl_cons]
    exact (ih elsewhere.2).trans (Function.update_of_ne (Ne.symm elsewhere.1) _ _)

def DataOnly (writes : List (Nat × Region)) : Prop := ∀ write ∈ writes, dataLba ≤ write.1

theorem wrote_writeSectors (room : Nat) (isData : dataLba ≤ lba) (buffer : List UInt8)
    (ata : Ata) : ∃ writes, Wrote ata (writeSectors room lba buffer ata) writes ∧ DataOnly writes := by
  induction room generalizing lba buffer ata with
  | zero => exact ⟨[], Wrote.refl ata, fun _ member => nomatch member⟩
  | succ room ih =>
    rw [writeSectors]
    split
    · exact ⟨[], Wrote.refl ata, fun _ member => nomatch member⟩
    · obtain ⟨writes, wrote, dataOnly⟩ := ih (Nat.le_succ_of_le isData) (buffer.drop sectorSize)
        (ata.writeSector lba (store (fun _ => 0) 0 (buffer.take sectorSize)))
      refine ⟨_, (wrote_writeSector ata lba _).trans wrote, ?_⟩
      exact List.forall_mem_cons.mpr ⟨isData, dataOnly⟩

theorem wrote_writeSlotSectors (isData : dataLba ≤ lba) (oldLength offset : Nat)
    (buffer : List UInt8) (turns : List Nat) (ata : Ata) :
    ∃ writes, Wrote ata (turns.foldl (writeSlotSector lba oldLength offset buffer) ata) writes ∧
      DataOnly writes := by
  induction turns generalizing ata with
  | nil => exact ⟨[], Wrote.refl ata, fun _ member => nomatch member⟩
  | cons current turns ih =>
    obtain ⟨writes, wrote, dataOnly⟩ := ih (writeSlotSector lba oldLength offset buffer ata current)
    refine ⟨_, (wrote_writeSector ata (lba + current) _).trans wrote, ?_⟩
    exact List.forall_mem_cons.mpr ⟨Nat.le_add_right_of_le isData, dataOnly⟩

theorem dataLba_le_slotLba (index : Nat) : dataLba ≤ slotLba index := Nat.le_add_right _ _

/-- The changes that operations make to the table. -/
inductive Change (entries : Region) : Region → Prop
  | clear (slot : Nat) (inTable : slot < maxFiles) (used : (entryAt entries slot).used ≠ 0)
      (childless : (entryAt entries slot).type = entryDirectory →
        diskfsEntryHasChildren entries slot = false) :
      Change entries (store entries (entrySize * slot) (List.replicate entrySize 0))
  | setLength (slot length : Nat) (inTable : slot < maxFiles)
      (isFile : (entryAt entries slot).type = entryFile) (fits : length ≤ maxSize) :
      Change entries (store32 entries (entrySize * slot + 36) length)

def requested (v : Volume) : Op → Option (UInt8 × CString × UInt8)
  | .createFile name => some (rootParent, name, entryFile)
  | .create node name => (diskfsVfsParent v node).map fun parent => (parent, name, entryFile)
  | .mkdir node name => (diskfsVfsParent v node).map fun parent => (parent, name, entryDirectory)
  | _ => none

inductive Outcome (v : Volume) (op : Op) : Volume → Prop
  | unchanged (openRefs : Nat → Nat)
      (notCreated : ∀ parent name type, requested v op = some (parent, name, type) →
        creatable v parent name = true → freeSlot v.entries = none) :
      Outcome v op { v with openRefs := openRefs }
  | created (parent type : UInt8) (name : CString) (slot : Nat)
      (asked : requested v op = some (parent, name, type))
      (isType : type = entryFile ∨ type = entryDirectory)
      (passes : creatable v parent name = true) (free : freeSlot v.entries = some slot) :
      Outcome v op (diskfsStoreMetadata
        { v with entries := store v.entries (entrySize * slot) (createdEntry parent name type) })
  | changed (ata : Ata) (entries : Region) (writes : List (Nat × Region))
      (notAsked : requested v op = none) (wrote : Wrote v.ata ata writes)
      (dataOnly : DataOnly writes) (change : Change v.entries entries) :
      Outcome v op (diskfsStoreMetadata { v with ata := ata, entries := entries })

theorem Outcome.refl (notAsked : requested v op = none) : Outcome v op v := by
  apply Outcome.unchanged v.openRefs
  intro parent name type asked
  rw [notAsked] at asked
  cases asked

variable {parent type : UInt8}

theorem createEntry_outcome (asked : requested v op = some (parent, name, type))
    (isType : type = entryFile ∨ type = entryDirectory) :
    Outcome v op (diskfsCreateEntry v parent name type).1 := by
  rw [diskfsCreateEntry]
  split
  case isTrue passes =>
    split
    case h_1 slot free => exact .created parent type name slot asked isType passes free
    case h_2 full => exact .unchanged v.openRefs fun _ _ _ _ _ => full
  case isFalse refused =>
    apply Outcome.unchanged v.openRefs
    intro parent name type again passes
    rw [asked, Option.some.injEq] at again
    cases again
    exact absurd passes refused

variable (notAsked : requested v op = none)

include notAsked

theorem removeEntry_outcome (index : Nat) (type : UInt8) :
    Outcome v op (diskfsRemoveEntry v index type).1 := by
  rw [diskfsRemoveEntry]
  split
  case isTrue passes =>
    simp only [removable, Bool.and_eq_true, decide_eq_true_eq, Bool.not_eq_true',
      Bool.and_eq_false_iff, decide_eq_false_iff_not] at passes
    obtain ⟨⟨⟨⟨⟨_, inTable⟩, used⟩, isType⟩, _⟩, childless⟩ := passes
    refine .changed v.ata _ [] notAsked (Wrote.refl _) (fun _ member => nomatch member) ?_
    apply Change.clear index inTable used
    intro isDirectory
    exact childless.resolve_left fun different => different (isType.symm.trans isDirectory)
  case isFalse => exact .refl notAsked

omit notAsked in
theorem diskfsFindFile_eq_some {index : Nat} (found : diskfsFindFile entries name = some index) :
    index < maxFiles ∧ (entryAt entries index).type = entryFile := by
  rw [diskfsFindFile, Option.filter_eq_some_iff] at found
  exact ⟨diskfsFindChild_lt found.1, of_decide_eq_true found.2⟩

theorem writeFile_outcome (name : CString) (buffer : List UInt8) :
    Outcome v op (diskfsWriteFile v name buffer).1 := by
  rw [diskfsWriteFile]
  split
  case h_1 => exact .refl notAsked
  case h_2 index found =>
    split
    case isTrue => exact .refl notAsked
    case isFalse passes =>
      simp only [Bool.or_eq_true, Bool.not_eq_true', decide_eq_true_eq, not_or, Nat.not_lt] at passes
      obtain ⟨inTable, isFile⟩ := diskfsFindFile_eq_some found
      obtain ⟨writes, wrote, dataOnly⟩ :=
        wrote_writeSectors fileSectors (dataLba_le_slotLba index) buffer v.ata
      exact .changed _ _ writes notAsked wrote dataOnly
        (.setLength index buffer.length inTable isFile passes.2)

theorem writeSlot_outcome (mounted : v.mounted = true) (valid : EntriesValid v.entries)
    (index offset : Nat) (buffer : List UInt8) :
    Outcome v op (diskfsWriteSlot v index offset buffer).1 := by
  rw [diskfsWriteSlot]
  split
  case isTrue passes =>
    split
    case isTrue => exact .refl notAsked
    case isFalse =>
      simp only [writable, Bool.and_eq_true, decide_eq_true_eq] at passes
      obtain ⟨⟨⟨⟨inTable, used⟩, isFile⟩, offsetFits⟩, sizeFits⟩ := passes
      have oldFits := (valid index inTable used).fileLength isFile
      dsimp only
      obtain ⟨writes, wrote, dataOnly⟩ := wrote_writeSlotSectors (dataLba_le_slotLba index)
        (entryAt v.entries index).length offset buffer
        (List.range' (min (entryAt v.entries index).length offset / sectorSize)
          ((offset + buffer.length - 1) / sectorSize + 1 -
            min (entryAt v.entries index).length offset / sectorSize)) v.ata
      refine .changed _ _ writes notAsked wrote dataOnly (.setLength index _ inTable isFile ?_)
      omega
  case isFalse => exact .refl notAsked

omit notAsked in
theorem vfsCreateEntry_outcome {node : Node}
    (asked : requested v op = (diskfsVfsParent v node).map fun parent => (parent, name, type))
    (isType : type = entryFile ∨ type = entryDirectory) :
    Outcome v op (vfsCreateEntry v node name type).1 := by
  rw [vfsCreateEntry]
  split
  case h_1 parent isParent =>
    rw [isParent] at asked
    exact createEntry_outcome asked isType
  case h_2 noParent =>
    rw [noParent] at asked
    exact .refl asked

theorem vfsRemoveEntry_outcome (node : Node) (name : CString) (type : UInt8) :
    Outcome v op (vfsRemoveEntry v node name type).1 := by
  rw [vfsRemoveEntry]
  split
  · split
    · exact removeEntry_outcome notAsked _ type
    · exact .refl notAsked
  · exact .refl notAsked

omit notAsked

/-- Every operation on a mounted volume does one of the things above. -/
theorem diskfsStep_outcome (mounted : v.mounted = true) (valid : EntriesValid v.entries) (op : Op) :
    Outcome v op (diskfsStep v op) := by
  cases op with
  | createFile name => exact createEntry_outcome rfl (.inl rfl)
  | writeFile name buffer => exact writeFile_outcome rfl name buffer
  | unlinkFile name =>
    rw [diskfsStep]
    split
    · exact removeEntry_outcome rfl _ entryFile
    · exact .refl rfl
  | create node name =>
    rw [diskfsStep, if_pos mounted]
    exact vfsCreateEntry_outcome rfl (.inl rfl)
  | mkdir node name =>
    rw [diskfsStep, if_pos mounted]
    exact vfsCreateEntry_outcome rfl (.inr rfl)
  | unlink node name =>
    rw [diskfsStep, if_pos mounted]
    exact vfsRemoveEntry_outcome rfl node name entryFile
  | rmdir node name =>
    rw [diskfsStep, if_pos mounted]
    exact vfsRemoveEntry_outcome rfl node name entryDirectory
  | write index offset buffer =>
    rw [diskfsStep]
    split
    · exact writeSlot_outcome rfl mounted valid index offset buffer
    · exact .refl rfl
  | openNode index | closeNode index =>
    rw [diskfsStep]
    split
    · exact .unchanged _ fun _ _ _ asked => nomatch asked
    · exact .refl rfl

/-- The volume in memory is the one on the disk, and a mount accepts it. -/
structure Mounted (v : Volume) : Prop where
  mounted : v.mounted = true
  available : v.ata.available = true
  valid : EntriesValid v.entries
  stored : ∀ offset < tableSize, tableOnDisk v.ata offset = v.entries offset
  superblock : v.ata.sectors superblockLba = v.superblock
  superblockValid : SuperblockValid v.ata.sectorCount v.superblock

variable {superblock : Region}

theorem geometry_store32 {field value : Nat}
    (geometry : Geometry sectorCount superblock)
    (isField : field = generationAt ∨ field = checksumAt) :
    Geometry sectorCount (store32 superblock field value) := by
  rw [geometry_iff] at geometry ⊢
  -- neither field is one of those that describe the geometry
  rcases isField with rfl | rfl <;>
    simpa (disch := decide) only [load32_store32_outside] using geometry

theorem diskfsChecksum_lt (superblock : Region) : diskfsChecksum superblock < 2 ^ 32 := by
  have field := load32_lt superblock
  have seed : checksumSeed < 2 ^ 32 := by decide
  simp only [diskfsChecksum]
  iterate 9 refine Nat.xor_lt_two_pow ?_ (field _)
  exact seed

theorem diskfsChecksum_store32 (superblock : Region) (value : Nat) :
    diskfsChecksum (store32 superblock checksumAt value) = diskfsChecksum superblock := by
  simp (disch := decide) only [diskfsChecksum, load32_store32_outside]

/-- A superblock that is written has the right checksum. -/
theorem superblockValid_written (geometry : Geometry sectorCount superblock) :
    SuperblockValid sectorCount (store32 superblock checksumAt (diskfsChecksum superblock)) where
  toGeometry := geometry_store32 geometry (.inr rfl)
  checksum := by
    rw [load32_store32, diskfsChecksum_store32, Nat.mod_eq_of_lt (diskfsChecksum_lt superblock)]

theorem behind_sector (behind : ¬ offset < sectorSize) (inTable : offset < tableSize) :
    offset / sectorSize = 1 ∧ offset % sectorSize = offset - sectorSize ∧
      sectorSize * 1 + (offset - sectorSize) = offset ∧
      offset - sectorSize < min sectorSize (tableSize - sectorSize * 1) := by
  simp only [sectorSize, tableSize, maxFiles, entrySize] at behind inTable ⊢
  omega

/-- The table is what its two sectors hold. -/
theorem tableOnDisk_eq (inTable : offset < tableSize) : tableOnDisk ata offset =
      if offset < sectorSize then ata.sectors directoryLba offset
      else ata.sectors (directoryLba + 1) (offset - sectorSize) := by
  rw [tableOnDisk, if_pos inTable]
  by_cases inFirst : offset < sectorSize
  · rw [if_pos inFirst, Nat.div_eq_of_lt inFirst, Nat.mod_eq_of_lt inFirst, Nat.add_zero]
  · obtain ⟨isSecond, rest, _⟩ := behind_sector inFirst inTable
    rw [if_neg inFirst, isSecond, rest]

theorem directorySector_zero (inFirst : offset < sectorSize) :
    directorySector entries 0 offset = entries offset := by
  have within : offset < min sectorSize (tableSize - sectorSize * 0) :=
    Nat.lt_of_lt_of_le inFirst (by decide)
  rw [directorySector, if_pos within, Nat.mul_zero, Nat.zero_add]

theorem directorySector_one (behind : ¬ offset < sectorSize) (inTable : offset < tableSize) :
    directorySector entries 1 (offset - sectorSize) = entries offset := by
  obtain ⟨_, _, place, within⟩ := behind_sector behind inTable
  rw [directorySector, if_pos within, place]

/-- What is written after a change: the table and then the superblock. -/
def metadataWrites (entries superblock : Region) : List (Nat × Region) :=
  [(directoryLba, directorySector entries 0), (directoryLba + 1, directorySector entries 1),
    (superblockLba, superblock)]

theorem wrote_metadata (v : Volume) :
    Wrote v.ata (diskfsWriteSuperblock (diskfsWriteDirectory v)).ata
      (metadataWrites v.entries (diskfsWriteSuperblock (diskfsWriteDirectory v)).superblock) :=
  ⟨rfl, rfl, rfl, by
    simp [diskfsWriteSuperblock, diskfsWriteDirectory, Ata.writeSector, metadataWrites]⟩

@[simp]
theorem diskfsStoreMetadata_entries (v : Volume) : (diskfsStoreMetadata v).entries = v.entries := rfl

theorem wrote_storeMetadata (v : Volume) : Wrote v.ata (diskfsStoreMetadata v).ata
      (metadataWrites v.entries (diskfsStoreMetadata v).superblock) := by
  exact wrote_metadata { v with
    superblock := store32 v.superblock generationAt (load32 v.superblock generationAt + 1) }

theorem tableOnDisk_written (first : ata.sectors directoryLba = directorySector entries 0)
    (second : ata.sectors (directoryLba + 1) = directorySector entries 1) :
    ∀ offset < tableSize, tableOnDisk ata offset = entries offset := by
  intro offset inTable
  rw [tableOnDisk_eq inTable, first, second]
  split
  case isTrue inFirst => exact directorySector_zero inFirst
  case isFalse behind => exact directorySector_one behind inTable

section Written

variable (isMounted : v.mounted = true) (available : v.ata.available = true)
  (valid : EntriesValid v.entries) (geometry : Geometry v.ata.sectorCount v.superblock)

include isMounted available valid geometry

/-- A volume whose table and superblock are written can be mounted. -/
theorem mounted_of_written : Mounted (diskfsWriteSuperblock (diskfsWriteDirectory v)) where
  mounted := isMounted
  available := available
  valid := valid
  stored :=
    tableOnDisk_written (congrFun (wrote_metadata v).sectors _) (congrFun (wrote_metadata v).sectors _)
  superblock := rfl
  superblockValid := superblockValid_written geometry

theorem mounted_storeMetadata : Mounted (diskfsStoreMetadata v) :=
  mounted_of_written isMounted available valid (geometry_store32 geometry (.inl rfl))

end Written

theorem geometry_formatted (enough : requiredSectors ≤ sectorCount.toNat) :
    Geometry sectorCount (formattedSuperblock sectorCount) := by
  have small := sectorCount.toNat_lt
  rw [geometry_iff, formattedSuperblock]
  simp (disch := decide) only [load32_store32_outside, load32_store32]
  rw [Nat.mod_eq_of_lt small]
  refine ⟨by decide, by decide, rfl, by decide, by decide, by decide, by decide, by decide, enough⟩

theorem entriesValid_empty : EntriesValid fun _ => 0 := by
  intro index _ used
  exact absurd rfl used

theorem mounted_format (formatted : (diskfsFormat v).2 = true) : Mounted (diskfsFormat v).1 := by
  rw [diskfsFormat] at formatted ⊢
  split at formatted
  · cases formatted
  · rename_i passes
    rw [if_neg passes]
    simp only [Bool.or_eq_true, Bool.not_eq_true', decide_eq_true_eq, not_or, Nat.not_lt,
      Bool.not_eq_false] at passes
    exact mounted_of_written rfl passes.1.1 entriesValid_empty (geometry_formatted passes.2)

/-- A mount succeeds exactly if the superblock and the table on the disk are valid. -/
theorem diskfsMount_eq (available : v.ata.available = true) (closed : diskfsHasOpenFiles v = false)
    (superblock : SuperblockValid v.ata.sectorCount (v.ata.sectors superblockLba)) :
    diskfsMount v =
      ({ v with
        superblock := v.ata.sectors superblockLba
        entries := tableOnDisk v.ata
        mounted := decide (EntriesValid (tableOnDisk v.ata)) },
        decide (EntriesValid (tableOnDisk v.ata))) := by
  rw [diskfsMount, if_neg (by simp [available, closed]), if_neg (not_not_intro superblock)]

theorem mounted_mount (succeeds : (diskfsMount v).2 = true) : Mounted (diskfsMount v).1 := by
  by_cases refused : (!v.ata.available || diskfsHasOpenFiles v) = true
  · rw [diskfsMount, if_pos refused] at succeeds
    cases succeeds
  · by_cases superblock : SuperblockValid v.ata.sectorCount (v.ata.sectors superblockLba)
    · simp only [Bool.or_eq_true, Bool.not_eq_true', not_or, Bool.not_eq_false,
        Bool.not_eq_true] at refused
      rw [diskfsMount_eq refused.1 refused.2 superblock] at succeeds ⊢
      exact ⟨succeeds, refused.1, of_decide_eq_true succeeds, fun _ _ => rfl, rfl, superblock⟩
    · rw [diskfsMount, if_neg refused, if_pos superblock] at succeeds
      cases succeeds

theorem Change.keepsValid {changed : Region} (change : Change entries changed)
    (valid : EntriesValid entries) : EntriesValid changed := by
  cases change with
  | clear slot inTable used childless => exact valid.clear childless
  | setLength slot length inTable isFile fits => exact valid.setLength inTable isFile fits

theorem creatable_iff : creatable v parent name = true ↔
      v.mounted = true ∧ NameAllowed name ∧ diskfsFindChild v.entries parent name = none ∧
        (parent = rootParent ∨ isDirectory v.entries parent.toNat = true) := by
  simp only [creatable, Bool.and_eq_true, Bool.or_eq_true, decide_eq_true_eq,
    Option.isNone_iff_eq_none, diskfsNameValid_terminated, and_assoc]

theorem Outcome.keepsMounted (outcome : Outcome v op w) (mounted : Mounted v) : Mounted w := by
  have geometry := mounted.superblockValid.toGeometry
  cases outcome with
  | unchanged openRefs =>
    exact { mounted with }
  | created parent type name slot asked isType passes free =>
    obtain ⟨isMounted, allowed, missing, hasParent⟩ := creatable_iff.mp passes
    exact mounted_storeMetadata isMounted mounted.available
      (mounted.valid.create free allowed missing hasParent isType) geometry
  | changed ata entries writes notAsked wrote dataOnly change =>
    refine mounted_storeMetadata mounted.mounted ?_ (change.keepsValid mounted.valid) ?_
    · exact wrote.available.trans mounted.available
    · dsimp only
      rw [wrote.sectorCount]
      exact geometry

theorem diskfsStep_keepsMounted (mounted : Mounted v) (op : Op) : Mounted (diskfsStep v op) :=
  (diskfsStep_outcome mounted.mounted mounted.valid op).keepsMounted mounted

/-- Two volumes with the same table and the same sectors hold the same files. -/
theorem diskfsReadSlot_congr (sameDisk : w.ata = v.ata)
    (same : ∀ index < maxFiles, entryAt w.entries index = entryAt v.entries index)
    (index offset size : Nat) :
    diskfsReadSlot w index offset size = diskfsReadSlot v index offset size := by
  by_cases inTable : index < maxFiles
  · rw [diskfsReadSlot, diskfsReadSlot, same index inTable, sameDisk]
  · rw [diskfsReadSlot, diskfsReadSlot, if_pos (.inl (Nat.le_of_not_lt inTable)),
      if_pos (.inl (Nat.le_of_not_lt inTable))]

theorem find?_congr_mem {α : Type} {list : List α} {first second : α → Bool}
    (same : ∀ element ∈ list, first element = second element) :
    list.find? first = list.find? second := by
  rw [← List.head?_filter, ← List.head?_filter, List.filter_congr same]

theorem diskfsFindChild_congr {other : Region}
    (same : ∀ index < maxFiles, entryAt other index = entryAt entries index) (parent : UInt8)
    (name : CString) : diskfsFindChild other parent name = diskfsFindChild entries parent name := by
  rw [diskfsFindChild, diskfsFindChild]
  split
  · refine find?_congr_mem fun index inRange => ?_
    rw [same index (List.mem_range.mp inRange)]
  · rfl

theorem diskfsReadFile_congr (sameDisk : w.ata = v.ata) (mounted : w.mounted = v.mounted)
    (same : ∀ index < maxFiles, entryAt w.entries index = entryAt v.entries index)
    (name : CString) (size : Nat) : diskfsReadFile w name size = diskfsReadFile v name size := by
  have sameFile : diskfsFindFile w.entries name = diskfsFindFile v.entries name := by
    rw [diskfsFindFile, diskfsFindFile, diskfsFindChild_congr same]
    cases found : diskfsFindChild v.entries rootParent name with
    | none => rfl
    | some index => rw [Option.filter, Option.filter, same index (diskfsFindChild_lt found)]
  rw [diskfsReadFile, diskfsReadFile, sameFile, mounted, sameDisk]
  split
  · rfl
  · rename_i index found
    rw [same index (diskfsFindFile_eq_some found).1]

/-- A mount that starts from the disk alone succeeds and finds what is in memory. -/
theorem Mounted.remount (mounted : Mounted v) {fresh : Volume} (sameDisk : fresh.ata = v.ata)
    (closed : diskfsHasOpenFiles fresh = false) :
    ∃ again, diskfsMount fresh = (again, true) ∧ again.ata = v.ata ∧ again.mounted = true ∧
      (∀ index < maxFiles, entryAt again.entries index = entryAt v.entries index) ∧
      diskfsGetGeneration again = diskfsGetGeneration v := by
  have superblock : SuperblockValid fresh.ata.sectorCount (fresh.ata.sectors superblockLba) := by
    rw [sameDisk, mounted.superblock]
    exact mounted.superblockValid
  have same : ∀ index < maxFiles, entryAt (tableOnDisk v.ata) index = entryAt v.entries index :=
    fun index inTable => entryAt_eq_of_table inTable mounted.stored
  have valid : EntriesValid (tableOnDisk v.ata) := mounted.valid.of_table mounted.stored
  have available : fresh.ata.available = true := by
    rw [sameDisk]
    exact mounted.available
  rw [diskfsMount_eq available closed superblock, sameDisk, decide_eq_true valid]
  refine ⟨_, rfl, rfl, rfl, same, ?_⟩
  simp only [diskfsGetGeneration, mounted.mounted, mounted.superblock]

/-- After a format or a mount and any operations, the table in memory is valid and is
the one on the disk.  A mount from the disk alone succeeds and yields the same tree and
generation, and the same bytes for every file. -/
theorem run_persistent {before start : Volume}
    (started : diskfsFormat before = (start, true) ∨ diskfsMount before = (start, true))
    (ops : List Op) :
    EntriesValid (run diskfsStep start ops).entries ∧
    (∀ offset < tableSize, tableOnDisk (run diskfsStep start ops).ata offset =
      (run diskfsStep start ops).entries offset) ∧
    ∀ fresh : Volume, fresh.ata = (run diskfsStep start ops).ata →
      diskfsHasOpenFiles fresh = false →
      ∃ again, diskfsMount fresh = (again, true) ∧
        (∀ index < maxFiles,
          entryAt again.entries index = entryAt (run diskfsStep start ops).entries index) ∧
        diskfsGetGeneration again = diskfsGetGeneration (run diskfsStep start ops) ∧
        (∀ index offset size, diskfsReadSlot again index offset size =
          diskfsReadSlot (run diskfsStep start ops) index offset size) ∧
        ∀ name size, diskfsReadFile again name size =
          diskfsReadFile (run diskfsStep start ops) name size := by
  have atStart : Mounted start := by
    rcases started with formatted | mounted
    · have holds := mounted_format (congrArg Prod.snd formatted)
      rwa [formatted] at holds
    · have holds := mounted_mount (congrArg Prod.snd mounted)
      rwa [mounted] at holds
  have atEnd : Mounted (run diskfsStep start ops) :=
    run_invariant Mounted (fun v op holds => diskfsStep_keepsMounted holds op) atStart ops
  refine ⟨atEnd.valid, atEnd.stored, fun fresh sameDisk closed => ?_⟩
  obtain ⟨again, mounts, disk, mounted, entries, generation⟩ := atEnd.remount sameDisk closed
  exact ⟨again, mounts, entries, generation, diskfsReadSlot_congr disk entries,
    diskfsReadFile_congr disk (mounted.trans atEnd.mounted.symm) entries⟩

def blankVolume : Volume where
  ata := { available := true, sectorCount := 80, sectors := fun _ _ => 0, written := [] }
  superblock := fun _ => 0
  entries := fun _ => 0
  openRefs := fun _ => 0
  mounted := false

def shortName : CString := ⟨[0x64], by decide⟩

theorem run_persistent_nested : diskfsFormat blankVolume = ((diskfsFormat blankVolume).1, true) ∧
    EntriesValid (run diskfsStep (diskfsFormat blankVolume).1
      [.mkdir .root shortName, .create (.slot 0) shortName, .write 1 600 [7]]).entries :=
  have formatted : diskfsFormat blankVolume = ((diskfsFormat blankVolume).1, true) := rfl
  ⟨formatted, (run_persistent (.inl formatted) _).1⟩

end MiniOS.DiskFs
