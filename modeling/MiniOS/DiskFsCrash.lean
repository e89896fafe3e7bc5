import MiniOS.DiskFsPersistence

/-!
# Operations that are cut off

Power is lost after some of the sector writes of an operation.  A mount then finds the
directory from before or from after the operation, with one exception.  The bytes of
entry 12 lie in both directory sectors: an entry that is created there can be joined
with what the second sector holds from before.
-/

namespace MiniOS.DiskFs

open ByteMemory LittleEndian Machine
open Fat16 (CString)

variable {v : Volume} {ata : Ata} {entries after : Region} {slot : Nat} {op : Op}

def interrupted (v : Volume) (op : Op) (count : Nat) : Ata :=
  { v.ata with
    sectors := applyWrites v.ata.sectors
      (((diskfsStep v op).ata.written.drop v.ata.written.length).take count) }

/-- Wherever the operation is cut off, a mount finds the directory from before or from
after it. -/
def Atomic (v : Volume) (op : Op) : Prop :=
  ∀ count (fresh : Volume), fresh.ata = interrupted v op count → diskfsHasOpenFiles fresh = false →
    ∃ again, diskfsMount fresh = (again, true) ∧
      (SameDirectory again.entries v.entries ∨
        SameDirectory again.entries (diskfsStep v op).entries)

def straddlingSlot : Nat := 12

def nameHead : Nat := 28

/-- What the second directory sector holds of the slot is also right for a new entry with
this name. -/
def TailFits (entries : Region) (name : CString) : Prop :=
  (entryAt entries straddlingSlot).length = 0 ∧
    (name.chars.length < nameHead ∨
      (CString.ofBuffer ((entryAt entries straddlingSlot).name.drop nameHead)).chars =
        name.chars.drop nameHead)

/-- The operation creates no entry in the straddling slot, or one that fits what is
there. -/
def Untorn (v : Volume) (op : Op) : Prop :=
  ∀ parent name type, requested v op = some (parent, name, type) →
    creatable v parent name = true → freeSlot v.entries = some straddlingSlot →
      TailFits v.entries name

def torn (entries after : Region) : Region := fun offset =>
  if offset < sectorSize then after offset else entries offset

/-- The bytes of the table decide what it shows. -/
theorem sameDirectory_of_table (same : ∀ offset < tableSize, entries offset = after offset) :
    SameDirectory entries after := by
  intro index inTable
  rw [entryAt_eq_of_table inTable same]

/-- What a cut can leave of the table and the superblock. -/
inductive Remains (ata : Ata) (entries superblock : Region) (after : Ata) : Prop
  | old (table : ∀ offset < tableSize, tableOnDisk after offset = tableOnDisk ata offset)
      (block : after.sectors superblockLba = ata.sectors superblockLba)
  | half (table : ∀ offset < tableSize,
        tableOnDisk after offset = torn (tableOnDisk ata) entries offset)
      (block : after.sectors superblockLba = ata.sectors superblockLba)
  | new (table : ∀ offset < tableSize, tableOnDisk after offset = entries offset)
      (block : after.sectors superblockLba = ata.sectors superblockLba ∨
        after.sectors superblockLba = superblock)

theorem DataOnly.metadata_eq {writes : List (Nat × Region)} (dataOnly : DataOnly writes)
    {sectors : Nat → Region} {lba : Nat} (isMetadata : lba < dataLba) :
    applyWrites sectors writes lba = sectors lba := by
  apply applyWrites_elsewhere
  intro write member
  exact Nat.ne_of_gt (Nat.lt_of_lt_of_le isMetadata (dataOnly write member))

theorem tableOnDisk_half {cut : Ata} (first : cut.sectors directoryLba = directorySector entries 0)
    (second : cut.sectors (directoryLba + 1) = ata.sectors (directoryLba + 1)) :
    ∀ offset < tableSize, tableOnDisk cut offset = torn (tableOnDisk ata) entries offset := by
  intro offset inTable
  rw [tableOnDisk_eq inTable, torn, tableOnDisk_eq inTable, first, second]
  split
  case isTrue inFirst => exact directorySector_zero inFirst
  case isFalse => rfl

theorem remains_interrupted {cut : Ata} {writes : List (Nat × Region)} {superblock : Region}
    {count : Nat} (dataOnly : DataOnly writes)
    (sectors : cut.sectors = applyWrites ata.sectors
      ((writes ++ metadataWrites entries superblock).take count)) :
    Remains ata entries superblock cut := by
  rcases Nat.lt_or_ge writes.length count with later | early
  · -- the data is complete, and some of the metadata
    have kept : ∀ lba < dataLba, applyWrites ata.sectors writes lba = ata.sectors lba :=
      fun lba isMetadata => dataOnly.metadata_eq isMetadata
    rw [List.take_append, List.take_of_length_le (Nat.le_of_lt later), applyWrites,
      List.foldl_append, ← applyWrites, ← applyWrites] at sectors
    generalize applyWrites ata.sectors writes = base at kept sectors
    obtain ⟨more, isMore⟩ := Nat.exists_eq_add_of_lt later
    rw [show count - writes.length = more + 1 by omega] at sectors
    rcases more with _ | _ | more
    · have second : cut.sectors (directoryLba + 1) = ata.sectors (directoryLba + 1) :=
        (congrFun sectors _).trans (kept (directoryLba + 1) (by decide))
      have block : cut.sectors superblockLba = ata.sectors superblockLba :=
        (congrFun sectors _).trans (kept superblockLba (by decide))
      exact .half (tableOnDisk_half (congrFun sectors _) second) block
    · have block : cut.sectors superblockLba = ata.sectors superblockLba :=
        (congrFun sectors _).trans (kept superblockLba (by decide))
      exact .new (tableOnDisk_written (congrFun sectors _) (congrFun sectors _)) (.inl block)
    · have complete : (metadataWrites entries superblock).take (more + 2 + 1) =
          metadataWrites entries superblock := List.take_of_length_le (Nat.le_add_left 3 more)
      rw [complete] at sectors
      exact .new (tableOnDisk_written (congrFun sectors _) (congrFun sectors _))
        (.inr (congrFun sectors _))
  · rw [List.take_append_of_le_length early] at sectors
    have kept : ∀ lba < dataLba, cut.sectors lba = ata.sectors lba := by
      intro lba isMetadata
      have fewer : DataOnly (writes.take count) :=
        fun write member => dataOnly write (List.mem_of_mem_take member)
      rw [sectors, fewer.metadata_eq isMetadata]
    refine .old (fun offset inTable => ?_) (kept superblockLba (by decide))
    rw [tableOnDisk_eq inTable, tableOnDisk_eq inTable, kept directoryLba (by decide),
      kept (directoryLba + 1) (by decide)]

theorem entryAt_torn_used (index : Nat) : (entryAt (torn entries after) index).used =
      if entrySize * index < sectorSize then (entryAt after index).used
      else (entryAt entries index).used :=
  rfl

/-- A torn table is valid if it shows the same as a valid one. -/
theorem EntriesValid.torn {shown : Region} (valid : EntriesValid entries)
    (validAfter : EntriesValid after) (validShown : EntriesValid shown)
    (same : SameDirectory (torn entries after) shown) : EntriesValid (torn entries after) := by
  apply validShown.congr
  · intro index inTable
    exact (same index inTable).symm
  · intro index inTable
    rw [entryAt_torn_used]
    split
    · exact fun used => (validAfter index inTable used).used
    · exact fun used => (valid index inTable used).used

theorem mount_of_table {fresh : Volume} (available : fresh.ata.available = true)
    (closed : diskfsHasOpenFiles fresh = false)
    (superblock : SuperblockValid fresh.ata.sectorCount (fresh.ata.sectors superblockLba))
    (table : ∀ offset < tableSize, tableOnDisk fresh.ata offset = entries offset)
    (valid : EntriesValid entries) :
    ∃ again, diskfsMount fresh = (again, true) ∧ SameDirectory again.entries entries := by
  rw [diskfsMount_eq available closed superblock, decide_eq_true (valid.of_table table)]
  exact ⟨_, rfl, sameDirectory_of_table table⟩

theorem entries_of_mount {fresh again : Volume} (mounts : diskfsMount fresh = (again, true)) :
    again.entries = tableOnDisk fresh.ata := by
  rw [diskfsMount] at mounts
  split at mounts
  · cases mounts
  · split at mounts
    · cases mounts
    · rw [Prod.mk.injEq] at mounts
      rw [← mounts.1]

theorem DiffersAt.torn_of_lt (differs : DiffersAt entries after slot) (below : slot < straddlingSlot) :
    SameDirectory (torn entries after) after := by
  apply sameDirectory_of_table
  intro offset _
  rw [torn]
  split
  · rfl
  · rename_i behind
    refine (differs offset (.inr ?_)).symm
    simp only [straddlingSlot, sectorSize, entrySize] at *
    omega

theorem DiffersAt.torn_of_gt (differs : DiffersAt entries after slot) (above : straddlingSlot < slot) :
    SameDirectory (torn entries after) entries := by
  apply sameDirectory_of_table
  intro offset _
  rw [torn]
  split
  · rename_i inFirst
    refine differs offset (.inl ?_)
    simp only [straddlingSlot, sectorSize, entrySize] at *
    omega
  · rfl

/-- Only the straddling slot has changed: the other entries are not torn. -/
theorem DiffersAt.entryAt_torn {index : Nat} (differs : DiffersAt entries after straddlingSlot)
    (elsewhere : index ≠ straddlingSlot) :
    entryAt (torn entries after) index = entryAt entries index := by
  apply entryAt_congr
  intro place below
  rw [torn]
  split
  · apply differs
    simp only [straddlingSlot, entrySize] at *
    omega
  · rfl

theorem DiffersAt.sameDirectory_torn (differs : DiffersAt entries after straddlingSlot)
    (same : (entryAt (torn entries after) straddlingSlot).shown =
      (entryAt after straddlingSlot).shown) : SameDirectory (torn entries after) after := by
  intro index inTable
  by_cases isSlot : index = straddlingSlot
  · rw [isSlot, same]
  · rw [differs.entryAt_torn isSlot, differs.entryAt_eq isSlot]

/-- Entries that are cleared or get another length are not torn. -/
theorem Change.torn (change : Change entries after) :
    SameDirectory (torn entries after) entries ∨ SameDirectory (torn entries after) after := by
  cases change with
  | clear slot inTable used childless =>
    have differs : DiffersAt entries (store entries (entrySize * slot)
      (List.replicate entrySize 0)) slot := differsAt_store entries slot List.length_replicate
    have cleared := entryAt_cleared entries slot
    rcases Nat.lt_trichotomy slot straddlingSlot with below | rfl | above
    · exact .inr (differs.torn_of_lt below)
    · -- the mark lies in the first sector, and nothing else is shown
      refine .inr (differs.sameDirectory_torn ?_)
      have unused : (entryAt (DiskFs.torn entries (store entries (entrySize * straddlingSlot)
          (List.replicate entrySize 0))) straddlingSlot).used = 0 := by
        rw [entryAt_torn_used, if_pos (by decide)]
        exact cleared
      rw [Entry.shown, if_pos unused, Entry.shown, if_pos cleared]
    · exact .inl (differs.torn_of_gt above)
  | setLength slot length inTable isFile fits =>
    have differs := differsAt_store32 entries slot length
    rcases Nat.lt_or_ge slot straddlingSlot with below | above
    · exact .inr (differs.torn_of_lt below)
    · -- the length lies in the second sector
      refine .inl (sameDirectory_of_table fun offset _ => ?_)
      rw [DiskFs.torn]
      split
      · apply store32_outside
        simp only [straddlingSlot, sectorSize, entrySize] at *
        omega
      · rfl

variable {parent type : UInt8} {name : CString}

/-- The bytes of a name that lies in both sectors. -/
theorem load_torn : load (torn entries after) (entrySize * straddlingSlot + 4) fileNameSize =
      (load after (entrySize * straddlingSlot + 4) fileNameSize).take nameHead ++
        (load entries (entrySize * straddlingSlot + 4) fileNameSize).drop nameHead := by
  apply List.ext_getElem
  · simp [fileNameSize, nameHead]
  · intro place inside _
    rw [load_length] at inside
    rw [List.getElem_append]
    split
    case isTrue inHead =>
      rw [List.length_take, load_length] at inHead
      simp only [load, List.getElem_map, List.getElem_range, List.getElem_take, torn]
      rw [if_pos]
      simp only [entrySize, straddlingSlot, sectorSize, nameHead] at *
      omega
    case isFalse inTail =>
      rw [List.length_take, load_length] at inTail
      simp only [load, List.getElem_map, List.getElem_range, List.getElem_drop, torn,
        List.length_take, List.length_map, List.length_range]
      rw [if_neg]
      · congr 1
        simp only [nameHead, fileNameSize] at *
        omega
      · simp only [entrySize, straddlingSlot, sectorSize, nameHead, fileNameSize] at *
        omega

/-- The new mark, type, parent and start of the name, and the old rest. -/
theorem entryAt_torn_created (allowed : NameAllowed name) :
    entryAt (torn entries (store entries (entrySize * straddlingSlot)
        (createdEntry parent name type))) straddlingSlot =
      { used := 1, type := type, parent := parent
        name := (nameField name).take nameHead ++
          (entryAt entries straddlingSlot).name.drop nameHead
        length := (entryAt entries straddlingSlot).length } := by
  have created := entryAt_createdEntry allowed entries straddlingSlot parent type
  generalize store entries (entrySize * straddlingSlot) (createdEntry parent name type) = after at *
  rw [entryAt, Entry.mk.injEq] at created
  obtain ⟨used, isType, isParent, isName, _⟩ := created
  have lengthKept : load32 (torn entries after) (entrySize * straddlingSlot + 36) =
      load32 entries (entrySize * straddlingSlot + 36) := by
    apply load32_congr
    intro place _
    rw [torn, if_neg]
    simp only [entrySize, straddlingSlot, sectorSize]
    omega
  rw [entryAt, load_torn, isName, lengthKept, Entry.mk.injEq]
  exact ⟨used, isType, isParent, rfl, rfl⟩

/-- The joined name is the new one exactly if the old rest continues it. -/
theorem string_joined (rest : List UInt8) :
    CString.ofBuffer ((nameField name).take nameHead ++ rest) = name ↔
      name.chars.length < nameHead ∨ (CString.ofBuffer rest).chars = name.chars.drop nameHead := by
  by_cases short : name.chars.length < nameHead
  · refine iff_of_true (CString.ext ?_) (.inl short)
    obtain ⟨room, isRoom⟩ := Nat.exists_eq_add_of_lt short
    have start : (nameField name).take nameHead = name.chars ++ 0 :: List.replicate room 0 := by
      rw [nameField, List.take_append, List.take_of_length_le (Nat.le_of_lt short),
        List.take_replicate, ← List.replicate_succ]
      congr 2
      rw [nameHead] at *
      rw [fileNameSize]
      omega
    rw [start, List.append_assoc, List.cons_append]
    exact takeWhile_append_zero name _
  · rw [or_iff_right short]
    rw [Nat.not_lt] at short
    have start : (nameField name).take nameHead = name.chars.take nameHead := by
      rw [nameField, List.take_append_of_le_length short]
    have nonzero : ∀ char ∈ name.chars.take nameHead, decide (char ≠ 0) = true := by
      intro char member
      exact decide_eq_true (ne_of_mem_of_not_mem (List.mem_of_mem_take member) name.noNul)
    have joined : (CString.ofBuffer ((nameField name).take nameHead ++ rest)).chars =
        name.chars.take nameHead ++ (CString.ofBuffer rest).chars := by
      rw [start]
      exact List.takeWhile_append_of_pos nonzero
    constructor
    · intro same
      rw [same] at joined
      nth_rewrite 1 [← List.take_append_drop nameHead name.chars] at joined
      exact (List.append_cancel_left joined).symm
    · intro same
      apply CString.ext
      rw [joined, same, List.take_append_drop]

/-- A new entry in the straddling slot is shown as it was asked for exactly if the old
rest fits. -/
theorem shown_torn_created (allowed : NameAllowed name) :
    (entryAt (torn entries (store entries (entrySize * straddlingSlot)
        (createdEntry parent name type))) straddlingSlot).shown =
      (entryAt (store entries (entrySize * straddlingSlot)
        (createdEntry parent name type)) straddlingSlot).shown ↔
      TailFits entries name := by
  rw [entryAt_torn_created allowed, entryAt_createdEntry allowed,
    Entry.shown_of_used (by decide : (1 : UInt8) ≠ 0),
    Entry.shown_of_used (by decide : (1 : UInt8) ≠ 0), Option.some.injEq, Shown.mk.injEq]
  simp only [Entry.string, ofBuffer_nameField allowed, string_joined, true_and]
  exact and_comm

/-- An operation changes nothing on the disk, or it writes data and then the metadata. -/
theorem Outcome.writes {w : Volume} (outcome : Outcome v op w) :
    w.ata = v.ata ∧ w.entries = v.entries ∨
      ∃ writes, DataOnly writes ∧
        Wrote v.ata w.ata (writes ++ metadataWrites w.entries w.superblock) := by
  cases outcome with
  | unchanged openRefs => exact .inl ⟨rfl, rfl⟩
  | created parent type name slot asked isType passes free =>
    refine .inr ⟨[], fun _ member => (nomatch member), ?_⟩
    rw [diskfsStoreMetadata_entries, List.nil_append]
    exact wrote_storeMetadata
      { v with entries := store v.entries (entrySize * slot) (createdEntry parent name type) }
  | changed ata entries writes notAsked wrote dataOnly change =>
    refine .inr ⟨writes, dataOnly, ?_⟩
    rw [diskfsStoreMetadata_entries]
    exact wrote.trans (wrote_storeMetadata { v with ata := ata, entries := entries })

theorem interrupted_sectors {writes : List (Nat × Region)}
    (wrote : Wrote v.ata (diskfsStep v op).ata writes) (count : Nat) :
    (interrupted v op count).sectors = applyWrites v.ata.sectors (writes.take count) := by
  rw [interrupted, wrote.written, List.drop_left]

variable (mounted : Mounted v)

include mounted

/-- What remains can be mounted and shows one of the two directories, if the torn table
does. -/
theorem Remains.mount {fresh : Volume} {superblock : Region}
    (remains : Remains v.ata after superblock fresh.ata) (validAfter : EntriesValid after)
    (sameTorn : SameDirectory (torn v.entries after) v.entries ∨
      SameDirectory (torn v.entries after) after)
    (available : fresh.ata.available = true) (closed : diskfsHasOpenFiles fresh = false)
    (count : fresh.ata.sectorCount = v.ata.sectorCount)
    (written : SuperblockValid v.ata.sectorCount superblock) :
    ∃ again, diskfsMount fresh = (again, true) ∧
      (SameDirectory again.entries v.entries ∨ SameDirectory again.entries after) := by
  have oldBlock : SuperblockValid fresh.ata.sectorCount (v.ata.sectors superblockLba) := by
    rw [count, mounted.superblock]
    exact mounted.superblockValid
  cases remains with
  | old table block =>
    rw [← block] at oldBlock
    obtain ⟨again, mounts, same⟩ := mount_of_table available closed oldBlock
      (fun offset inTable => (table offset inTable).trans (mounted.stored offset inTable))
      mounted.valid
    exact ⟨again, mounts, .inl same⟩
  | half table block =>
    rw [← block] at oldBlock
    have tornTable : ∀ offset < tableSize,
        tableOnDisk fresh.ata offset = torn v.entries after offset := by
      intro offset inTable
      rw [table offset inTable, torn, torn, mounted.stored offset inTable]
    have tornValid : EntriesValid (torn v.entries after) := by
      rcases sameTorn with sameBefore | sameAfter
      · exact mounted.valid.torn validAfter mounted.valid sameBefore
      · exact mounted.valid.torn validAfter validAfter sameAfter
    obtain ⟨again, mounts, same⟩ := mount_of_table available closed oldBlock tornTable tornValid
    refine ⟨again, mounts, sameTorn.imp ?_ ?_⟩
    · exact fun sameBefore index inTable => (same index inTable).trans (sameBefore index inTable)
    · exact fun sameAfter index inTable => (same index inTable).trans (sameAfter index inTable)
  | new table block =>
    have anyBlock : SuperblockValid fresh.ata.sectorCount (fresh.ata.sectors superblockLba) := by
      rcases block with isOld | isNew
      · rwa [isOld]
      · rwa [isNew, count]
    obtain ⟨again, mounts, same⟩ := mount_of_table available closed anyBlock table validAfter
    exact ⟨again, mounts, .inr same⟩

theorem atomic_of_torn (sameTorn : SameDirectory (torn v.entries (diskfsStep v op).entries) v.entries ∨
      SameDirectory (torn v.entries (diskfsStep v op).entries) (diskfsStep v op).entries) :
    Atomic v op := by
  intro count fresh sameDisk closed
  have mountedAfter := diskfsStep_keepsMounted mounted op
  have available : fresh.ata.available = true := by
    rw [sameDisk]
    exact mounted.available
  have sectorCount : fresh.ata.sectorCount = v.ata.sectorCount := by
    rw [sameDisk]
    rfl
  rcases (diskfsStep_outcome mounted.mounted mounted.valid op).writes with
    ⟨sameAta, _⟩ | ⟨writes, dataOnly, wrote⟩
  · -- nothing was written
    have noWrites : fresh.ata.sectors = v.ata.sectors := by
      rw [sameDisk, interrupted, sameAta, List.drop_length, List.take_nil]
      rfl
    have remains : Remains v.ata (diskfsStep v op).entries v.superblock fresh.ata := by
      refine .old (fun offset inTable => ?_) (by rw [noWrites])
      rw [tableOnDisk_eq inTable, tableOnDisk_eq inTable, noWrites]
    exact remains.mount mounted mountedAfter.valid sameTorn available closed sectorCount
      mounted.superblockValid
  · have sectors : fresh.ata.sectors = applyWrites v.ata.sectors ((writes ++
        metadataWrites (diskfsStep v op).entries (diskfsStep v op).superblock).take count) := by
      rw [sameDisk, interrupted_sectors wrote]
    refine (remains_interrupted dataOnly sectors).mount mounted mountedAfter.valid sameTorn
      available closed sectorCount ?_
    rw [← wrote.sectorCount]
    exact mountedAfter.superblockValid

theorem Untorn.atomic (untorn : Untorn v op) : Atomic v op := by
  apply atomic_of_torn mounted
  have outcome := diskfsStep_outcome mounted.mounted mounted.valid op
  generalize diskfsStep v op = w at outcome
  cases outcome with
  | unchanged openRefs =>
    refine .inl (sameDirectory_of_table fun offset _ => ?_)
    rw [torn, ite_self]
  | created parent type name slot asked isType passes free =>
    obtain ⟨_, allowed, _, _⟩ := creatable_iff.mp passes
    have differs := differsAt_store v.entries slot (createdEntry_length allowed parent type)
    rcases Nat.lt_trichotomy slot straddlingSlot with below | rfl | above
    · exact .inr (differs.torn_of_lt below)
    · have fits := untorn parent name type asked passes free
      exact .inr (differs.sameDirectory_torn ((shown_torn_created allowed).mpr fits))
    · exact .inl (differs.torn_of_gt above)
  | changed ata entries writes notAsked wrote dataOnly change => exact change.torn

/-- An entry that can be created is created in the first free slot. -/
theorem diskfsStep_created (asked : requested v op = some (parent, name, type))
    (passes : creatable v parent name = true) (free : freeSlot v.entries = some slot) :
    diskfsStep v op = diskfsStoreMetadata
      { v with entries := store v.entries (entrySize * slot) (createdEntry parent name type) } := by
  have outcome := diskfsStep_outcome mounted.mounted mounted.valid op
  generalize diskfsStep v op = w at outcome ⊢
  cases outcome with
  | unchanged openRefs notCreated =>
    rw [notCreated parent name type asked passes] at free
    cases free
  | created otherParent otherType otherName otherSlot again isType otherPasses found =>
    rw [asked, Option.some.injEq, Prod.mk.injEq, Prod.mk.injEq] at again
    obtain ⟨rfl, rfl, rfl⟩ := again
    rw [free, Option.some.injEq] at found
    rw [found]
  | changed ata entries writes notAsked =>
    rw [notAsked] at asked
    cases asked

/-- The table after the first of the writes of a creation. -/
theorem tableOnDisk_created (created : diskfsStep v op = diskfsStoreMetadata { v with entries := after }) :
    ∀ offset < tableSize, tableOnDisk (interrupted v op 1) offset = torn v.entries after offset := by
  have wrote : Wrote v.ata (diskfsStep v op).ata
      (metadataWrites after (diskfsStep v op).superblock) := by
    rw [created]
    exact wrote_storeMetadata { v with entries := after }
  have sectors := interrupted_sectors wrote 1
  have first : (interrupted v op 1).sectors directoryLba = directorySector after 0 := by
    rw [sectors]
    rfl
  have second : (interrupted v op 1).sectors (directoryLba + 1) =
      v.ata.sectors (directoryLba + 1) := by
    rw [sectors]
    rfl
  intro offset inTable
  rw [tableOnDisk_half first second offset inTable, torn, torn, mounted.stored offset inTable]

/-- The condition is necessary: cut off after its first write, a creation in the
straddling slot leaves the torn entry. -/
theorem Atomic.untorn (atomic : Atomic v op) : Untorn v op := by
  intro parent name type asked passes free
  have allowed := (creatable_iff.mp passes).2.1
  have unused := (freeSlot_eq_some free).2
  have created := diskfsStep_created mounted asked passes free
  have table := tableOnDisk_created mounted created
  obtain ⟨again, mounts, same⟩ := atomic 1
    { v with ata := interrupted v op 1, openRefs := fun _ => 0 } rfl rfl
  rw [entries_of_mount mounts] at same
  have loaded : entryAt (tableOnDisk (interrupted v op 1)) straddlingSlot = entryAt (torn v.entries
      (store v.entries (entrySize * straddlingSlot) (createdEntry parent name type)))
      straddlingSlot := entryAt_eq_of_table (by decide) table
  rcases same with before | afterwards
  · -- the slot was not in use
    have shown := before straddlingSlot (by decide)
    dsimp only at shown
    rw [loaded, entryAt_torn_created allowed, Entry.shown_of_used (by decide : (1 : UInt8) ≠ 0),
      Entry.shown, if_pos unused] at shown
    cases shown
  · have shown := afterwards straddlingSlot (by decide)
    dsimp only at shown
    rw [loaded, created, diskfsStoreMetadata_entries] at shown
    exact (shown_torn_created allowed).mp shown

/-- Wherever an operation on a mounted volume is cut off, a mount finds the directory from
before or after it, exactly for the operations that do not create an entry in the
straddling slot over a rest that does not fit. -/
theorem atomic_iff_untorn (op : Op) : Atomic v op ↔ Untorn v op :=
  ⟨fun atomic => atomic.untorn mounted, fun untorn => untorn.atomic mounted⟩

omit mounted

def letterName (number : Nat) : CString := CString.ofBuffer [UInt8.ofNat (0x61 + number), 0]

def longName : CString := CString.ofBuffer (List.replicate 31 0x61)

def twelveFiles : Volume :=
  run diskfsStep (diskfsFormat blankVolume).1
    ((List.range straddlingSlot).map fun number => .createFile (letterName number))

theorem mounted_twelveFiles : Mounted twelveFiles :=
  run_invariant Mounted (fun _ op holds => diskfsStep_keepsMounted holds op)
    (mounted_format rfl) _

theorem atomic_iff_untorn_unlink : Mounted twelveFiles ∧
      (Atomic twelveFiles (.unlinkFile (letterName 3)) ↔
        Untorn twelveFiles (.unlinkFile (letterName 3))) :=
  ⟨mounted_twelveFiles, atomic_iff_untorn mounted_twelveFiles _⟩

/-- The thirteenth file has a name of thirty-one letters.  After the first sector write a
mount would find twenty-eight of them. -/
theorem name_cut_short : Mounted twelveFiles ∧ ¬ Atomic twelveFiles (.createFile longName) := by
  refine ⟨mounted_twelveFiles, fun atomic => ?_⟩
  obtain ⟨again, mounts, same⟩ := atomic 1
    { twelveFiles with ata := interrupted twelveFiles (.createFile longName) 1 } rfl rfl
  rw [entries_of_mount mounts] at same
  rcases same with before | afterwards
  · exact absurd (before straddlingSlot (by decide)) (by decide +kernel)
  · exact absurd (afterwards straddlingSlot (by decide)) (by decide +kernel)

end MiniOS.DiskFs
