import MiniOS.DiskFs

/-!
# DiskFS on a disk that fails

The calls of DiskFS when any access to a sector may fail.  A write that fails may have reached
the disk or not.  The functions return early in the places where the source does, and a
metadata store that fails unmounts the volume.

A node that the caller still has is known by its slot, whatever has become of the entry.
-/

namespace MiniOS.DiskFs

open ByteMemory

open Fat16 (CString)

inductive Fault where
  | none
  /-- It fails and nothing is stored. -/
  | lost
  /-- It fails after the sector has been stored. -/
  | stored
deriving DecidableEq

/-- The volume, the number of accesses to the disk so far, and the number of those that were
writes. -/
structure FaultyVolume where
  volume : Volume
  accesses : Nat
  writes : Nat

namespace FaultyVolume

variable (faults : Nat → Fault) (s : FaultyVolume)

/-- `ata_write_sector` -/
def tryWrite (lba : Nat) (sector : Region) : FaultyVolume × Bool :=
  let written : FaultyVolume :=
    ⟨{ s.volume with ata := s.volume.ata.writeSector lba sector }, s.accesses + 1, s.writes + 1⟩
  match faults s.accesses with
  | .none => (written, true)
  | .lost => (⟨s.volume, s.accesses + 1, s.writes + 1⟩, false)
  | .stored => (written, false)

/-- `ata_read_sector` -/
def tryRead (lba : Nat) : FaultyVolume × Option Region :=
  (⟨s.volume, s.accesses + 1, s.writes⟩,
    if faults s.accesses = .none then some (s.volume.ata.sectors lba) else Option.none)

def tryWriteDirectory : FaultyVolume × Bool :=
  let (s, success) := s.tryWrite faults directoryLba (directorySector s.volume.entries 0)
  if success then s.tryWrite faults (directoryLba + 1) (directorySector s.volume.entries 1)
  else (s, false)

def withSuperblock (superblock : Region) : FaultyVolume :=
  { s with volume := { s.volume with superblock := superblock } }

def withEntries (entries : Region) : FaultyVolume :=
  { s with volume := { s.volume with entries := entries } }

def withMounted (mounted : Bool) : FaultyVolume :=
  { s with volume := { s.volume with mounted := mounted } }

def tryWriteSuperblock : FaultyVolume × Bool :=
  let superblock := store32 s.volume.superblock checksumAt (diskfsChecksum s.volume.superblock)
  (s.withSuperblock superblock).tryWrite faults superblockLba superblock

/-- The directory and the superblock are written; the volume is unmounted if that fails. -/
def tryWriteMetadata : FaultyVolume × Bool :=
  let (s, success) := s.tryWriteDirectory faults
  if success then
    let (s, success) := s.tryWriteSuperblock faults
    if success then (s, true) else (s.withMounted false, false)
  else (s.withMounted false, false)

def tryStoreMetadata : FaultyVolume × Bool :=
  if s.volume.mounted then
    (s.withSuperblock (store32 s.volume.superblock generationAt
      (load32 s.volume.superblock generationAt + 1))).tryWriteMetadata faults
  else (s, false)

/-- `diskfs_format` gets past its checks. -/
def formattable : Bool :=
  s.volume.ata.available && !diskfsHasOpenFiles s.volume &&
    decide (requiredSectors ≤ s.volume.ata.sectorCount.toNat)

def tryFormat : FaultyVolume × Bool :=
  if s.formattable then
    let s := s.withSuperblock (formattedSuperblock s.volume.ata.sectorCount)
    let s := (s.withEntries fun _ => 0).withMounted true
    s.tryWriteMetadata faults
  else (s, false)

/-- `diskfs_mount` gets past its checks. -/
def mountable : Bool := s.volume.ata.available && !diskfsHasOpenFiles s.volume

/-- The table with the parts that come from the two directory sectors. -/
def tableFrom (first second : Region) : Region := fun offset =>
  if offset < sectorSize then first offset
  else if offset < tableSize then second (offset - sectorSize) else 0

def tryReadDirectory : FaultyVolume × Bool :=
  match s.tryRead faults directoryLba with
  | (s, none) => (s.withEntries fun _ => 0, false)
  | (s, some first) =>
    match s.tryRead faults (directoryLba + 1) with
    | (s, none) => (s.withEntries (tableFrom first fun _ => 0), false)
    | (s, some second) =>
      (s.withEntries (tableFrom first second), decide (EntriesValid (tableFrom first second)))

def tryMount : FaultyVolume × Bool :=
  if s.mountable then
    match (s.withMounted false).tryRead faults superblockLba with
    | (s, none) => (s, false)
    | (s, some superblock) =>
      if SuperblockValid s.volume.ata.sectorCount superblock then
        let (s, success) := (s.withSuperblock superblock).tryReadDirectory faults
        (s.withMounted success, success)
      else (s, false)
  else (s, false)

def tryCreateEntry (parent : UInt8) (name : CString) (type : UInt8) : FaultyVolume × Bool :=
  if creatable s.volume parent name then
    match freeSlot s.volume.entries with
    | some index =>
      (s.withEntries (store s.volume.entries (entrySize * index)
        (createdEntry parent name type))).tryStoreMetadata faults
    | none => (s, false)
  else (s, false)

def tryRemoveEntry (index : Nat) (type : UInt8) : FaultyVolume × Bool :=
  if removable s.volume index type then
    (s.withEntries (store s.volume.entries (entrySize * index)
      (List.replicate entrySize 0))).tryStoreMetadata faults
  else (s, false)

def tryWriteSectors : (room lba : Nat) → List UInt8 → FaultyVolume → FaultyVolume × Bool
  | 0, _, _, s => (s, true)
  | room + 1, lba, buffer, s =>
    if buffer = [] then (s, true)
    else
      let (s, success) := s.tryWrite faults lba (store (fun _ => 0) 0 (buffer.take sectorSize))
      if success then tryWriteSectors room (lba + 1) (buffer.drop sectorSize) s else (s, false)

/-- The new length goes into the entry and the metadata is stored. -/
def tryStoreLength (index length : Nat) : FaultyVolume × Bool :=
  (s.withEntries (store32 s.volume.entries (entrySize * index + 36) length)).tryStoreMetadata faults

def tryWriteFile (name : CString) (buffer : List UInt8) : FaultyVolume × Bool :=
  match diskfsFindFile s.volume.entries name with
  | none => (s, false)
  | some index =>
    if !s.volume.mounted || decide (maxSize < buffer.length) then (s, false)
    else
      let (s, success) := tryWriteSectors faults fileSectors (slotLba index) buffer s
      if success then s.tryStoreLength faults index buffer.length else (s, false)

/-- The sector that one turn of the loop of `diskfs_write_slot` starts from. -/
def tryOldSector (lba oldLength current : Nat) : FaultyVolume × Option Region :=
  if current * sectorSize < oldLength then s.tryRead faults (lba + current)
  else (s, some fun _ => 0)

def tryWriteSlotSectors (lba oldLength offset : Nat) (buffer : List UInt8) :
    (left current : Nat) → FaultyVolume → FaultyVolume × Bool
  | 0, _, s => (s, true)
  | left + 1, current, s =>
    match s.tryOldSector faults lba oldLength current with
    | (s, none) => (s, false)
    | (s, some old) =>
      let (s, success) := s.tryWrite faults (lba + current)
        (slotSector old oldLength offset buffer current)
      if success then tryWriteSlotSectors lba oldLength offset buffer left (current + 1) s
      else (s, false)

def tryWriteSlot (index offset : Nat) (buffer : List UInt8) : FaultyVolume × Bool :=
  if writable s.volume index offset buffer.length then
    if buffer.length = 0 then (s, true)
    else
      let oldLength := (entryAt s.volume.entries index).length
      let first := min oldLength offset / sectorSize
      let last := (offset + buffer.length - 1) / sectorSize
      let (s, success) := tryWriteSlotSectors faults (slotLba index) oldLength offset buffer
        (last + 1 - first) first s
      if success then s.tryStoreLength faults index (max (offset + buffer.length) oldLength)
      else (s, false)
  else (s, false)

/-- The loops of `diskfs_read_slot` and `diskfs_read_file`. -/
def tryReadSectors (lba : Nat) : (room position remaining : Nat) → FaultyVolume →
    FaultyVolume × Option (List UInt8)
  | 0, _, _, s => (s, some [])
  | room + 1, position, remaining, s =>
    if remaining = 0 then (s, some [])
    else
      match s.tryRead faults (lba + position / sectorSize) with
      | (s, none) => (s, none)
      | (s, some sector) =>
        let count := min (sectorSize - position % sectorSize) remaining
        let (s, rest) := tryReadSectors lba room (position + count) (remaining - count) s
        (s, rest.map (load sector (position % sectorSize) count ++ ·))

def tryReadSlot (index offset size : Nat) : FaultyVolume × Option (List UInt8) :=
  let entry := entryAt s.volume.entries index
  if maxFiles ≤ index ∨ entry.used = 0 ∨ entry.type ≠ entryFile then (s, none)
  else if entry.length ≤ offset then (s, some [])
  else
    let size := min size (entry.length - offset)
    tryReadSectors faults (slotLba index) size offset size s

def tryReadFile (name : CString) (size : Nat) : FaultyVolume × Option (List UInt8) :=
  match diskfsFindFile s.volume.entries name with
  | none => (s, none)
  | some index =>
    if s.volume.mounted then
      let size := min size (entryAt s.volume.entries index).length
      tryReadSectors faults (slotLba index) size 0 size s
    else (s, none)

/-- `diskfs_vfs_create` and `diskfs_vfs_mkdir`. -/
def tryVfsCreate (node : Node) (name : CString) (type : UInt8) : FaultyVolume × Bool :=
  if s.volume.mounted then
    match diskfsVfsParent s.volume node with
    | some parent => s.tryCreateEntry faults parent name type
    | none => (s, false)
  else (s, false)

/-- `diskfs_vfs_unlink` and `diskfs_vfs_rmdir`. -/
def tryVfsRemove (node : Node) (name : CString) (type : UInt8) : FaultyVolume × Bool :=
  if s.volume.mounted then
    match (diskfsVfsParent s.volume node).bind fun parent =>
        diskfsFindChild s.volume.entries parent name with
    | some index => s.tryRemoveEntry faults index type
    | none => (s, false)
  else (s, false)

def withOpenRefs (index count : Nat) : FaultyVolume :=
  { s with volume := { s.volume with openRefs := Function.update s.volume.openRefs index count } }

end FaultyVolume

inductive Call where
  | format
  | mount
  | change (op : Op)
  | readFile (name : CString) (size : Nat)
  | read (index offset size : Nat)

open FaultyVolume in
/-- One call, and whether it reports that a change has succeeded. -/
def faultyStep (faults : Nat → Fault) (s : FaultyVolume) : Call → FaultyVolume × Bool
  | .format => s.tryFormat faults
  | .mount => s.tryMount faults
  | .change (.createFile name) => s.tryCreateEntry faults rootParent name entryFile
  | .change (.writeFile name buffer) => s.tryWriteFile faults name buffer
  | .change (.unlinkFile name) =>
    match diskfsFindFile s.volume.entries name with
    | some index => s.tryRemoveEntry faults index entryFile
    | none => (s, false)
  | .change (.create node name) => s.tryVfsCreate faults node name entryFile
  | .change (.mkdir node name) => s.tryVfsCreate faults node name entryDirectory
  | .change (.unlink node name) => s.tryVfsRemove faults node name entryFile
  | .change (.rmdir node name) => s.tryVfsRemove faults node name entryDirectory
  | .change (.write index offset buffer) =>
    let (s, success) := s.tryWriteSlot faults index offset buffer
    -- the number of bytes is returned, so an empty write reports nothing
    (s, success && decide (buffer ≠ []))
  | .change (.openNode index) =>
    if index < maxFiles then
      (s.withOpenRefs index ((s.volume.openRefs index + 1) % 2 ^ 32), false)
    else (s, false)
  | .change (.closeNode index) =>
    if index < maxFiles ∧ s.volume.openRefs index ≠ 0 then
      (s.withOpenRefs index (s.volume.openRefs index - 1), false)
    else (s, false)
  | .readFile name size => ((s.tryReadFile faults name size).1, false)
  | .read index offset size => ((s.tryReadSlot faults index offset size).1, false)

end MiniOS.DiskFs
