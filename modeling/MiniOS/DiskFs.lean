import MiniOS.ByteMemory
import MiniOS.Fat16Names

/-!
# The file system on the ATA disk

The model of `diskfs.c`.  A superblock, a table of sixteen entries and four sectors
of data for each entry are kept on the disk.  The table is held in memory as the
640 bytes that are copied to two directory sectors, so an entry is what its bytes
say.  The disk stores and returns sectors without failing, and remembers in
`written` what was written to it.
-/

namespace MiniOS.DiskFs

open Function ByteMemory LittleEndian
open Fat16 (CString)

def sectorSize : Nat := 512

def diskfsMagic : Nat := 0x5346534D

def diskfsVersion : Nat := 2

def superblockLba : Nat := 4

def directoryLba : Nat := 5

def directorySectors : Nat := 2

def dataLba : Nat := 16

def maxFiles : Nat := 16

def fileNameSize : Nat := 32

def fileSectors : Nat := 4

def maxSize : Nat := fileSectors * sectorSize

def checksumSeed : Nat := 0xA5C35A3C

def entryFile : UInt8 := 1

def entryDirectory : UInt8 := 2

def rootParent : UInt8 := 0xFF

def slash : UInt8 := 0x2F

structure Ata where
  available : Bool
  sectorCount : UInt32
  sectors : Nat → Region
  written : List (Nat × Region)

def Ata.writeSector (ata : Ata) (lba : Nat) (sector : Region) : Ata :=
  { ata with
    sectors := update ata.sectors lba sector
    written := ata.written ++ [(lba, sector)] }

/-- The offsets of the fields of `diskfs_superblock_t`. -/
def magicAt : Nat := 0

def versionAt : Nat := 4

def generationAt : Nat := 8

def totalSectorsAt : Nat := 12

def directoryLbaAt : Nat := 16

def directorySectorsAt : Nat := 20

def dataLbaAt : Nat := 24

def maxFilesAt : Nat := 28

def sectorsPerFileAt : Nat := 32

def checksumAt : Nat := 36

def diskfsChecksum (superblock : Region) : Nat :=
  checksumSeed ^^^ load32 superblock magicAt ^^^ load32 superblock versionAt ^^^
    load32 superblock generationAt ^^^ load32 superblock totalSectorsAt ^^^
    load32 superblock directoryLbaAt ^^^ load32 superblock directorySectorsAt ^^^
    load32 superblock dataLbaAt ^^^ load32 superblock maxFilesAt ^^^
    load32 superblock sectorsPerFileAt

def requiredSectors : Nat := dataLba + maxFiles * fileSectors

@[mk_iff]
structure Geometry (sectorCount : UInt32) (superblock : Region) : Prop where
  magic : load32 superblock magicAt = diskfsMagic
  version : load32 superblock versionAt = diskfsVersion
  totalSectors : load32 superblock totalSectorsAt = sectorCount.toNat
  directoryLba : load32 superblock directoryLbaAt = directoryLba
  directorySectors : load32 superblock directorySectorsAt = directorySectors
  dataLba : load32 superblock dataLbaAt = dataLba
  maxFiles : load32 superblock maxFilesAt = maxFiles
  sectorsPerFile : load32 superblock sectorsPerFileAt = fileSectors
  enough : requiredSectors ≤ load32 superblock totalSectorsAt

@[mk_iff]
structure SuperblockValid (sectorCount : UInt32) (superblock : Region) : Prop
    extends Geometry sectorCount superblock where
  checksum : load32 superblock checksumAt = diskfsChecksum superblock

instance (sectorCount : UInt32) (superblock : Region) :
    Decidable (Geometry sectorCount superblock) :=
  decidable_of_iff' _ (geometry_iff ..)

instance (sectorCount : UInt32) (superblock : Region) :
    Decidable (SuperblockValid sectorCount superblock) :=
  decidable_of_iff' _ (superblockValid_iff ..)

def entrySize : Nat := 40

def tableSize : Nat := maxFiles * entrySize

/-- The fields of a `diskfs_entry_t`. -/
structure Entry where
  used : UInt8
  type : UInt8
  parent : UInt8
  name : List UInt8
  length : Nat
deriving DecidableEq

variable (entries : Region)

def entryAt (index : Nat) : Entry where
  used := entries (entrySize * index)
  type := entries (entrySize * index + 1)
  parent := entries (entrySize * index + 2)
  name := load entries (entrySize * index + 4) fileNameSize
  length := load32 entries (entrySize * index + 36)

/-- The name as `strcmp` reads it. -/
def Entry.string (entry : Entry) : CString := CString.ofBuffer entry.name

def nameValidFrom : (room length : Nat) → List UInt8 → Bool
  | 0, _, _ => false
  | _ + 1, _, [] => false
  | room + 1, length, char :: rest =>
    if char = 0 then decide (0 < length)
    else if char = slash then false
    else nameValidFrom room (length + 1) rest

def diskfsNameValid (name : List UInt8) : Bool := nameValidFrom fileNameSize 0 name

def terminated (name : CString) : List UInt8 := name.chars ++ [0]

def diskfsFindChild (parent : UInt8) (name : CString) : Option Nat :=
  if diskfsNameValid (terminated name) then
    (List.range maxFiles).find? fun index =>
      (entryAt entries index).used ≠ 0 ∧ (entryAt entries index).parent = parent ∧
        (entryAt entries index).string = name
  else none

def diskfsFindFile (name : CString) : Option Nat :=
  (diskfsFindChild entries rootParent name).filter fun index =>
    (entryAt entries index).type = entryFile

def diskfsEntryHasChildren (index : Nat) : Bool :=
  (List.range maxFiles).any fun child =>
    (entryAt entries child).used ≠ 0 ∧ (entryAt entries child).parent.toNat = index

def isDirectory (index : Nat) : Bool :=
  decide (index < maxFiles) && decide ((entryAt entries index).used ≠ 0) &&
    decide ((entryAt entries index).type = entryDirectory)

def parentChainFrom (entries : Region) (index : Nat) : (depth : Nat) → UInt8 → Bool
  | 0, _ => false
  | depth + 1, parent =>
    if parent = rootParent then true
    else if parent.toNat = index ∨ isDirectory entries parent.toNat = false then false
    else parentChainFrom entries index depth (entryAt entries parent.toNat).parent

def diskfsParentChainValid (index : Nat) : Bool :=
  parentChainFrom entries index maxFiles (entryAt entries index).parent

/-- What `diskfs_entries_valid` asks of an entry in use. -/
@[mk_iff]
structure EntryValid (entries : Region) (index : Nat) : Prop where
  used : (entryAt entries index).used = 1
  name : diskfsNameValid (entryAt entries index).name = true
  type : (entryAt entries index).type = entryFile ∨ (entryAt entries index).type = entryDirectory
  fileLength : (entryAt entries index).type = entryFile → (entryAt entries index).length ≤ maxSize
  directoryLength : (entryAt entries index).type = entryDirectory →
    (entryAt entries index).length = 0
  chain : diskfsParentChainValid entries index = true
  distinct : ∀ other < maxFiles, index < other → (entryAt entries other).used ≠ 0 →
    (entryAt entries index).parent = (entryAt entries other).parent →
      (entryAt entries index).string ≠ (entryAt entries other).string

instance (entries : Region) (index : Nat) : Decidable (EntryValid entries index) :=
  decidable_of_iff' _ (entryValid_iff ..)

def EntriesValid : Prop :=
  ∀ index < maxFiles, (entryAt entries index).used ≠ 0 → EntryValid entries index

instance (entries : Region) : Decidable (EntriesValid entries) :=
  inferInstanceAs (Decidable (∀ index < maxFiles, _))

structure Volume where
  ata : Ata
  superblock : Region
  entries : Region
  openRefs : Nat → Nat
  mounted : Bool

variable (v : Volume)

def diskfsHasOpenFiles : Bool :=
  (List.range maxFiles).any fun index => v.openRefs index ≠ 0

/-- What `diskfs_write_directory` copies to a directory sector: as much of the table as
is left, and zeros behind it. -/
def directorySector (number : Nat) : Region := fun offset =>
  if offset < min sectorSize (tableSize - sectorSize * number) then
    entries (sectorSize * number + offset)
  else 0

/-- The table that `diskfs_read_directory` copies from the directory sectors. -/
def tableOnDisk (ata : Ata) : Region := fun offset =>
  if offset < tableSize then
    ata.sectors (directoryLba + offset / sectorSize) (offset % sectorSize)
  else 0

def diskfsWriteDirectory : Volume :=
  { v with
    ata := (v.ata.writeSector directoryLba (directorySector v.entries 0)).writeSector
      (directoryLba + 1) (directorySector v.entries 1) }

def diskfsWriteSuperblock : Volume :=
  let superblock := store32 v.superblock checksumAt (diskfsChecksum v.superblock)
  { v with
    superblock := superblock
    ata := v.ata.writeSector superblockLba superblock }

/-- `diskfs_store_metadata(1)` on a mounted volume. -/
def diskfsStoreMetadata : Volume :=
  diskfsWriteSuperblock (diskfsWriteDirectory
    { v with
      superblock :=
        store32 v.superblock generationAt (load32 v.superblock generationAt + 1) })

/-- The superblock that `diskfs_format` sets up. -/
def formattedSuperblock (sectorCount : UInt32) : Region :=
  let superblock := store32 (fun _ => 0) magicAt diskfsMagic
  let superblock := store32 superblock versionAt diskfsVersion
  let superblock := store32 superblock generationAt 1
  let superblock := store32 superblock totalSectorsAt sectorCount.toNat
  let superblock := store32 superblock directoryLbaAt directoryLba
  let superblock := store32 superblock directorySectorsAt directorySectors
  let superblock := store32 superblock dataLbaAt dataLba
  let superblock := store32 superblock maxFilesAt maxFiles
  store32 superblock sectorsPerFileAt fileSectors

def diskfsFormat : Volume × Bool :=
  if !v.ata.available || diskfsHasOpenFiles v ||
      decide (v.ata.sectorCount.toNat < requiredSectors) then (v, false)
  else
    (diskfsWriteSuperblock (diskfsWriteDirectory
      { v with
        superblock := formattedSuperblock v.ata.sectorCount
        entries := fun _ => 0
        mounted := true }), true)

def diskfsMount : Volume × Bool :=
  if !v.ata.available || diskfsHasOpenFiles v then (v, false)
  else if ¬ SuperblockValid v.ata.sectorCount (v.ata.sectors superblockLba) then
    ({ v with mounted := false }, false)
  else
    let valid := decide (EntriesValid (tableOnDisk v.ata))
    ({ v with
      superblock := v.ata.sectors superblockLba
      entries := tableOnDisk v.ata
      mounted := valid }, valid)

def createdEntry (parent : UInt8) (name : CString) (type : UInt8) : List UInt8 :=
  [1, type, parent, 0] ++ name.chars ++ List.replicate (entrySize - 4 - name.chars.length) 0

def freeSlot : Option Nat :=
  (List.range maxFiles).find? fun index => (entryAt entries index).used = 0

/-- `diskfs_create_entry` goes on to look for a slot. -/
def creatable (parent : UInt8) (name : CString) : Bool :=
  v.mounted && diskfsNameValid (terminated name) &&
    (diskfsFindChild v.entries parent name).isNone &&
      (decide (parent = rootParent) || isDirectory v.entries parent.toNat)

def diskfsCreateEntry (parent : UInt8) (name : CString) (type : UInt8) : Volume × Option Nat :=
  if creatable v parent name then
    match freeSlot v.entries with
    | some index =>
      (diskfsStoreMetadata
        { v with
          entries := store v.entries (entrySize * index) (createdEntry parent name type) },
        some index)
    | none => (v, none)
  else (v, none)

/-- `diskfs_remove_entry` removes the entry. -/
def removable (index : Nat) (type : UInt8) : Bool :=
  v.mounted && decide (index < maxFiles) && decide ((entryAt v.entries index).used ≠ 0) &&
    decide ((entryAt v.entries index).type = type) && decide (v.openRefs index = 0) &&
      !(decide (type = entryDirectory) && diskfsEntryHasChildren v.entries index)

def diskfsRemoveEntry (index : Nat) (type : UInt8) : Volume × Bool :=
  if removable v index type then
    (diskfsStoreMetadata
      { v with
        entries := store v.entries (entrySize * index) (List.replicate entrySize 0) }, true)
  else (v, false)

def slotLba (index : Nat) : Nat := dataLba + index * fileSectors

/-- The loop of `diskfs_write_file`: whole sectors, the last one filled up with zeros. -/
def writeSectors : (room lba : Nat) → List UInt8 → Ata → Ata
  | 0, _, _, ata => ata
  | room + 1, lba, buffer, ata =>
    if buffer = [] then ata
    else writeSectors room (lba + 1) (buffer.drop sectorSize)
      (ata.writeSector lba (store (fun _ => 0) 0 (buffer.take sectorSize)))

def storeLength (index length : Nat) : Volume :=
  diskfsStoreMetadata
    { v with entries := store32 v.entries (entrySize * index + 36) length }

def diskfsWriteFile (name : CString) (buffer : List UInt8) : Volume × Bool :=
  match diskfsFindFile v.entries name with
  | none => (v, false)
  | some index =>
    if !v.mounted || decide (maxSize < buffer.length) then (v, false)
    else
      (storeLength
        { v with ata := writeSectors fileSectors (slotLba index) buffer v.ata }
        index buffer.length, true)

/-- The sector that `diskfs_write_slot` writes in one turn of its loop: what was there up
to the old length, zeros up to the offset, and the part of the buffer that falls into
it. -/
def slotSector (old : Region) (oldLength offset : Nat) (buffer : List UInt8) (current : Nat) :
    Region :=
  let sectorStart := current * sectorSize
  let sectorEnd := sectorStart + sectorSize
  let zeroStart := max oldLength sectorStart
  let zeroEnd := min offset sectorEnd
  let copyStart := max offset sectorStart
  let copyEnd := min (offset + buffer.length) sectorEnd
  let sector : Region := if sectorStart < oldLength then old else fun _ => 0
  let sector := store sector (zeroStart - sectorStart) (List.replicate (zeroEnd - zeroStart) 0)
  store sector (copyStart - sectorStart)
    ((buffer.drop (copyStart - offset)).take (copyEnd - copyStart))

/-- One turn of the loop of `diskfs_write_slot`. -/
def writeSlotSector (lba oldLength offset : Nat) (buffer : List UInt8) (ata : Ata)
    (current : Nat) : Ata :=
  ata.writeSector (lba + current)
    (slotSector (ata.sectors (lba + current)) oldLength offset buffer current)

/-- `diskfs_write_slot` accepts the range of a file. -/
def writable (index offset size : Nat) : Bool :=
  decide (index < maxFiles) && decide ((entryAt v.entries index).used ≠ 0) &&
    decide ((entryAt v.entries index).type = entryFile) &&
      decide (offset ≤ maxSize) && decide (size ≤ maxSize - offset)

def diskfsWriteSlot (index offset : Nat) (buffer : List UInt8) : Volume × Bool :=
  if writable v index offset buffer.length then
    if buffer.length = 0 then (v, true)
    else
      let oldLength := (entryAt v.entries index).length
      let first := min oldLength offset / sectorSize
      let last := (offset + buffer.length - 1) / sectorSize
      let ata := (List.range' first (last + 1 - first)).foldl
        (writeSlotSector (slotLba index) oldLength offset buffer) v.ata
      let entries := store32 v.entries (entrySize * index + 36) (max (offset + buffer.length) oldLength)
      -- an unmounted volume keeps the new length in memory and stores nothing
      if v.mounted then
        (diskfsStoreMetadata { v with ata := ata, entries := entries }, true)
      else ({ v with ata := ata, entries := entries }, false)
  else (v, false)

def readSectors (ata : Ata) (lba : Nat) : (room position remaining : Nat) → List UInt8
  | 0, _, _ => []
  | room + 1, position, remaining =>
    if remaining = 0 then []
    else
      let sectorOffset := position % sectorSize
      let count := min (sectorSize - sectorOffset) remaining
      load (ata.sectors (lba + position / sectorSize)) sectorOffset count ++
        readSectors ata lba room (position + count) (remaining - count)

def diskfsReadSlot (index offset size : Nat) : Option (List UInt8) :=
  let entry := entryAt v.entries index
  if maxFiles ≤ index ∨ entry.used = 0 ∨ entry.type ≠ entryFile then none
  else if entry.length ≤ offset then some []
  else
    let size := min size (entry.length - offset)
    some (readSectors v.ata (slotLba index) size offset size)

def diskfsReadFile (name : CString) (size : Nat) : Option (List UInt8) :=
  match diskfsFindFile v.entries name with
  | none => none
  | some index =>
    if v.mounted then
      let size := min size (entryAt v.entries index).length
      some (readSectors v.ata (slotLba index) size 0 size)
    else none

def diskfsGetGeneration : Nat :=
  if v.mounted then load32 v.superblock generationAt else 0

/-- A node of the file system: the root, or the node of a slot. -/
inductive Node
  | root
  | slot (index : Nat)

def diskfsVfsParent : Node → Option UInt8
  | .root => some rootParent
  | .slot index => if isDirectory v.entries index then some (UInt8.ofNat index) else none

/-- `diskfs_vfs_create` and `diskfs_vfs_mkdir`. -/
def vfsCreateEntry (node : Node) (name : CString) (type : UInt8) : Volume × Option Nat :=
  match diskfsVfsParent v node with
  | some parent => diskfsCreateEntry v parent name type
  | none => (v, none)

/-- `diskfs_vfs_unlink` and `diskfs_vfs_rmdir`. -/
def vfsRemoveEntry (node : Node) (name : CString) (type : UInt8) : Volume × Bool :=
  match diskfsVfsParent v node with
  | some parent =>
    match diskfsFindChild v.entries parent name with
    | some index => diskfsRemoveEntry v index type
    | none => (v, false)
  | none => (v, false)

def isFile (index : Nat) : Bool :=
  decide (index < maxFiles) && decide ((entryAt v.entries index).used ≠ 0) &&
    decide ((entryAt v.entries index).type ≠ entryDirectory)

inductive Op
  | createFile (name : CString)
  | writeFile (name : CString) (buffer : List UInt8)
  | unlinkFile (name : CString)
  | create (node : Node) (name : CString)
  | mkdir (node : Node) (name : CString)
  | unlink (node : Node) (name : CString)
  | rmdir (node : Node) (name : CString)
  | write (index offset : Nat) (buffer : List UInt8)
  | openNode (index : Nat)
  | closeNode (index : Nat)

def diskfsStep : Op → Volume
  | .createFile name => (diskfsCreateEntry v rootParent name entryFile).1
  | .writeFile name buffer => (diskfsWriteFile v name buffer).1
  | .unlinkFile name =>
    match diskfsFindFile v.entries name with
    | some index => (diskfsRemoveEntry v index entryFile).1
    | none => v
  | .create node name => if v.mounted then (vfsCreateEntry v node name entryFile).1 else v
  | .mkdir node name => if v.mounted then (vfsCreateEntry v node name entryDirectory).1 else v
  | .unlink node name => if v.mounted then (vfsRemoveEntry v node name entryFile).1 else v
  | .rmdir node name => if v.mounted then (vfsRemoveEntry v node name entryDirectory).1 else v
  | .write index offset buffer => if isFile v index then (diskfsWriteSlot v index offset buffer).1 else v
  | .openNode index =>
    if isFile v index then
      { v with openRefs := update v.openRefs index ((v.openRefs index + 1) % 2 ^ 32) }
    else v
  | .closeNode index =>
    if isFile v index && decide (v.openRefs index ≠ 0) then
      { v with openRefs := update v.openRefs index (v.openRefs index - 1) }
    else v

end MiniOS.DiskFs
