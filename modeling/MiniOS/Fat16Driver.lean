import MiniOS.Fat16Names
import MiniOS.LittleEndian
import MiniOS.PhysicalMemory
import MiniOS.TracedAccess

/-!
# The FAT16 driver

The driver in `fat16.c` works on a copy of an image in memory.  Its offsets into
the image are 32-bit numbers, so every sum and product here is reduced modulo
`2 ^ 32` as the code computes it.  The functions take the bytes of the image
and return the changed bytes; each access to the image is recorded.
-/

namespace MiniOS.Fat16

open Function LittleEndian PhysicalMemory TracedAccess Traced

abbrev Bytes := Nat → UInt8

/-- The bytes after `count` bytes from `start` on have been stored. -/
def overwrite (img : Bytes) (start count : Nat) (source : Nat → UInt8) : Bytes :=
  fun index =>
    if start ≤ index ∧ index < start + count then source (index - start) else img index

/-- The `count` bytes from `start` on. -/
def slice (img : Bytes) (start count : Nat) : List UInt8 :=
  (List.range count).map fun index => img (start + index)

/-- `rd16` and `rd32`. -/
def rd (imgSize : Nat) (img : Bytes) (width off : Nat) : Traced Nat :=
  if imgSize < (off + width) % 2 ^ 32 then pure 0
  else touch off width (leValue (slice img off width))

/-- `wr16` and `wr32`. -/
def wr (imgSize : Nat) (img : Bytes) (width off value : Nat) : Traced Bytes :=
  if imgSize < (off + width) % 2 ^ 32 then pure img
  else touch off width (overwrite img off width ((leBytes width value).getD · 0))

def rd16 (imgSize : Nat) (img : Bytes) (off : Nat) : Traced Nat := rd imgSize img 2 off

def rd32 (imgSize : Nat) (img : Bytes) (off : Nat) : Traced Nat := rd imgSize img 4 off

def wr16 (imgSize : Nat) (img : Bytes) (off value : Nat) : Traced Bytes :=
  wr imgSize img 2 off value

def wr32 (imgSize : Nat) (img : Bytes) (off value : Nat) : Traced Bytes :=
  wr imgSize img 4 off value

def peek (img : Bytes) (index : Nat) : Traced UInt8 := touch index 1 (img index)

/-- The fields of `fat16_fs_t` that are read from the boot sector, and the size
of the image. -/
structure Parameters where
  imgSize : Nat
  bytesPerSector : Nat
  sectorsPerCluster : Nat
  reservedSectors : Nat
  numFats : Nat
  rootEntries : Nat
  sectorsPerFat : Nat
deriving DecidableEq, Repr

namespace Parameters

variable (p : Parameters)

def fatLba : Nat := p.reservedSectors

def rootDirLba : Nat := p.reservedSectors + p.numFats * p.sectorsPerFat

def rootDirSectors : Nat := (p.rootEntries * 32 + p.bytesPerSector - 1) / p.bytesPerSector

def dataLba : Nat := p.rootDirLba + p.rootDirSectors

def bytesPerCluster : Nat := p.sectorsPerCluster * p.bytesPerSector

def fatClusters : Nat := p.sectorsPerFat * p.bytesPerSector / 2

def dataClusters : Nat :=
  2 + (p.imgSize - p.dataLba * p.bytesPerSector) / p.bytesPerCluster

def maxCluster : Nat := min p.fatClusters p.dataClusters

/-- What `fat16_install` checks before it mounts a volume, and the widths of the
fields it has read. -/
structure Mountable : Prop where
  imgSize_le : p.imgSize ≤ pmmMaxMemory
  bytesPerSector_eq : p.bytesPerSector = 512
  sectorsPerCluster_pos : 0 < p.sectorsPerCluster
  sectorsPerCluster_lt : p.sectorsPerCluster < 256
  numFats_pos : 0 < p.numFats
  rootEntries_pos : 0 < p.rootEntries
  sectorsPerFat_pos : 0 < p.sectorsPerFat
  dataLba_le : p.dataLba ≤ p.imgSize / p.bytesPerSector

end Parameters

/-- The static variable `fs` while a volume is mounted, without the image. -/
structure Layout extends Parameters where
  mountable : toParameters.Mountable

def reservedStart : Nat := 0xFFF0

def eoc : Nat := 0xFFF8

def eocMark : Nat := 0xFFFF

def maxDirSlots : Nat := 8192

def nodePool : Nat := 16

section Clusters

variable (l : Layout) (img : Bytes)

def fat16FatOff (cluster : Nat) : Nat := (l.fatLba * l.bytesPerSector + cluster * 2) % 2 ^ 32

def fat16NextCluster (cluster : Nat) : Traced Nat :=
  rd16 l.imgSize img (fat16FatOff l cluster)

def fat16SetCluster (cluster value : Nat) : Traced Bytes :=
  wr16 l.imgSize img (fat16FatOff l cluster) value

def fat16ClusterValid (cluster : Nat) : Prop :=
  2 ≤ cluster ∧ cluster < l.maxCluster ∧ cluster < reservedStart

instance (cluster : Nat) : Decidable (fat16ClusterValid l cluster) :=
  inferInstanceAs (Decidable (_ ∧ _))

def chainValidLoop (img : Bytes) : (steps cluster : Nat) → Traced Bool
  | 0, _ => pure false
  | steps + 1, cluster =>
    if ¬ fat16ClusterValid l cluster then pure false
    else do
      let next ← fat16NextCluster l img cluster
      if eoc ≤ next then pure true else chainValidLoop img steps next

def fat16ChainValid (first : Nat) : Traced Bool :=
  let limit := min l.maxCluster reservedStart - 2
  if first = 0 then pure true else chainValidLoop l img limit first

def fat16ClusterLba (cluster : Nat) : Nat :=
  (l.dataLba + (2 ^ 32 - 2 + cluster) % 2 ^ 32 * l.sectorsPerCluster) % 2 ^ 32

def fat16ClusterOff (cluster : Nat) : Nat :=
  fat16ClusterLba l cluster * l.bytesPerSector % 2 ^ 32

def allocLoop (img : Bytes) : (remaining cluster : Nat) → Traced (Nat × Bytes)
  | 0, _ => pure (0, img)
  | remaining + 1, cluster => do
    let entry ← rd16 l.imgSize img (fat16FatOff l cluster)
    if entry = 0 then
      let off := fat16ClusterOff l cluster
      let img ← fat16SetCluster l img cluster eocMark
      if (off + l.bytesPerCluster) % 2 ^ 32 ≤ l.imgSize then
        touch off l.bytesPerCluster (cluster, overwrite img off l.bytesPerCluster fun _ => 0)
      else pure (cluster, img)
    else allocLoop img remaining (cluster + 1)

/-- `fat16_alloc_cluster`: the cluster, or 0 when none is free. -/
def fat16AllocCluster : Traced (Nat × Bytes) :=
  allocLoop l img (l.maxCluster - 2) 2

/-- The loop of `fat16_entry_ptr`: follow `links` links of a chain. -/
def followLinks (img : Bytes) : (links cluster : Nat) → Traced (Option Nat)
  | 0, cluster => pure (some cluster)
  | links + 1, cluster => do
    let next ← fat16NextCluster l img cluster
    if next < 2 ∨ eoc ≤ next then pure none else followLinks img links next

/-- The offset that `fat16_entry_ptr` computes for a directory slot. -/
def slotOffset (dirCluster logicalIndex : Nat) : Traced (Option Nat) :=
  if dirCluster = 0 then
    if l.rootEntries ≤ logicalIndex then pure none
    else pure (some ((l.rootDirLba * l.bytesPerSector + logicalIndex * 32) % 2 ^ 32))
  else do
    let epc := l.bytesPerCluster / 32
    let cluster ← followLinks l img (logicalIndex / epc) dirCluster
    pure (cluster.map fun cluster =>
      (fat16ClusterOff l cluster + logicalIndex % epc * 32) % 2 ^ 32)

/-- `fat16_entry_ptr`: the offset of a directory slot in the image, or `none` for
the null pointer. -/
def fat16EntryPtr (dirCluster logicalIndex : Nat) : Traced (Option Nat) := do
  let off ← slotOffset l img dirCluster logicalIndex
  pure (off.filter fun off => (off + 32) % 2 ^ 32 ≤ l.imgSize)

end Clusters

/-- The results of `fat16_entry_kind`: -1, 0 and 1. -/
inductive EntryKind
  | stop
  | skip
  | live
deriving DecidableEq, Repr

def dirAttrLfn : UInt8 := 0x0F

def dirAttrVolume : UInt8 := 0x08

def dirAttrDir : UInt8 := 0x10

def dirAttrFile : UInt8 := 0x20

def fat16EntryKind (img : Bytes) (e : Nat) : Traced EntryKind := do
  let first ← peek img e
  if first = 0 then pure .stop
  else if first = deletedMark then pure .skip
  else
    let attributes ← peek img (e + 11)
    if attributes &&& dirAttrLfn = dirAttrLfn then pure .skip
    else if attributes &&& dirAttrVolume ≠ 0 then pure .skip
    else if first = dot then pure .skip
    else pure .live

/-- The name that `fat16_format_name` makes of an entry of the image. -/
def entryName (img : Bytes) (e : Nat) : Traced CString :=
  touch e 11 (fat16FormatName (slice img e 11))

/-- The kind of a node, which decides the operations it offers; a cleared node
offers none. -/
inductive NodeKind
  | unused
  | file
  | directory
deriving DecidableEq, Repr

/-- The fields of `fs_node_t` that the driver uses.  `ptr` is the offset of the
directory entry in the image. -/
structure Node where
  name : CString
  kind : NodeKind
  inode : Nat
  length : Nat
  impl : Nat
  ptr : Option Nat
deriving DecidableEq

def clearedNode : Node where
  name := ⟨[], by simp⟩
  kind := .unused
  inode := 0
  length := 0
  impl := 0
  ptr := none

/-- The static variables of the driver that its operations change. -/
structure Driver where
  img : Bytes
  pool : Nat → Node
  refs : Nat → Nat
  nodeNext : Nat

/-- The slot that `fat16_make_node` uses for an entry, and the cursor after it. -/
def chooseSlot (d : Driver) (e : Nat) : Option (Nat × Nat) :=
  match (List.range nodePool).find? fun i => (d.pool i).ptr = some e with
  | some slot => some (slot, d.nodeNext)
  | none =>
    match ((List.range nodePool).map fun n => (d.nodeNext + n) % nodePool).find? fun i =>
        d.refs i = 0 with
    | some slot => some (slot, (slot + 1) % nodePool)
    | none => none

section Operations

variable (l : Layout) (img : Bytes) (d : Driver)

/-- The node that describes the entry at `e`. -/
def describe (e : Nat) (name : CString) : Traced Node := do
  let first ← rd16 l.imgSize img (e + 26)
  let attributes ← peek img (e + 11)
  if attributes &&& dirAttrDir ≠ 0 then
    pure
      { name, kind := .directory, inode := first + 1, length := 0, impl := first, ptr := some e }
  else do
    let length ← rd32 l.imgSize img (e + 28)
    pure { name, kind := .file, inode := first + 1, length, impl := first, ptr := some e }

/-- `fat16_make_node`: the index of the node, or `none` for the null pointer. -/
def fat16MakeNode (e : Nat) (name : CString) : Traced (Option Nat × Driver) :=
  match chooseSlot d e with
  | none => pure (none, d)
  | some (slot, nodeNext) => do
    let node ← describe l d.img e name
    pure (some slot, { d with pool := update d.pool slot node, nodeNext })

def fat16VfsOpen (slot : Nat) : Driver :=
  { d with refs := update d.refs slot ((d.refs slot + 1) % 2 ^ 32) }

def fat16VfsClose (slot : Nat) : Driver :=
  if 0 < d.refs slot then { d with refs := update d.refs slot (d.refs slot - 1) }
  else d

def fat16EntryIsOpen (e : Nat) : Bool :=
  (List.range nodePool).any fun i => (d.pool i).ptr = some e ∧ 0 < d.refs i

def readdirLoop (img : Bytes) (dirCluster index : Nat) :
    (remaining logical found : Nat) → Traced (Option (CString × Nat))
  | 0, _, _ => pure none
  | remaining + 1, logical, found => do
    let entry ← fat16EntryPtr l img dirCluster logical
    match entry with
    | none => pure none
    | some e =>
      let kind ← fat16EntryKind img e
      match kind with
      | .stop => pure none
      | .skip => readdirLoop img dirCluster index remaining (logical + 1) found
      | .live =>
        if found = index then do
          let name ← entryName img e
          let first ← rd16 l.imgSize img (e + 26)
          pure (some (name, first + 1))
        else readdirLoop img dirCluster index remaining (logical + 1) (found + 1)

/-- `fat16_vfs_readdir`: the name and the inode number of an entry. -/
def fat16VfsReaddir (node : Node) (index : Nat) : Traced (Option (CString × Nat)) :=
  readdirLoop l img node.impl index maxDirSlots 0 0

/-- The search that `fat16_vfs_finddir` and `fat16_vfs_unlink` share: the first
entry with a name. -/
def findEntry (img : Bytes) (dirCluster : Nat) (name : CString) :
    (remaining logical : Nat) → Traced (Option (Nat × CString))
  | 0, _ => pure none
  | remaining + 1, logical => do
    let entry ← fat16EntryPtr l img dirCluster logical
    match entry with
    | none => pure none
    | some e =>
      let kind ← fat16EntryKind img e
      match kind with
      | .stop => pure none
      | .skip => findEntry img dirCluster name remaining (logical + 1)
      | .live => do
        let found ← entryName img e
        if fat16NameEq found name then pure (some (e, found))
        else findEntry img dirCluster name remaining (logical + 1)

def fat16VfsFinddir (node : Node) (name : CString) : Traced (Option Nat × Driver) := do
  let found ← findEntry l d.img node.impl name maxDirSlots 0
  match found with
  | none => pure (none, d)
  | some (e, found) => fat16MakeNode l d e found

def freeSlotLoop (img : Bytes) (dirCluster : Nat) : (remaining logical : Nat) → Traced (Option Nat)
  | 0, _ => pure none
  | remaining + 1, logical => do
    let entry ← fat16EntryPtr l img dirCluster logical
    match entry with
    | none => pure none
    | some e =>
      let first ← peek img e
      if first = 0 ∨ first = deletedMark then pure (some e)
      else freeSlotLoop img dirCluster remaining (logical + 1)

def fat16FreeSlot (dirCluster : Nat) : Traced (Option Nat) :=
  freeSlotLoop l img dirCluster maxDirSlots 0

/-- The stores with which `fat16_vfs_create` fills a slot. -/
def fillSlot (slot : Nat) (field : List UInt8) : Traced Bytes := do
  let img ← touch slot 32 (overwrite img slot 32 fun _ => 0)
  let img ← touch slot 11 (overwrite img slot 11 (field.getD · 0))
  let img ← touch (slot + 11) 1 (overwrite img (slot + 11) 1 fun _ => dirAttrFile)
  let img ← wr16 l.imgSize img (slot + 26) 0
  wr32 l.imgSize img (slot + 28) 0

def fat16VfsCreate (node : Node) (name : CString) : Traced (Option Nat × Driver) :=
  match fat16Make83 name with
  | none => pure (none, d)
  | some field => do
    let (existing, d) ← fat16VfsFinddir l d node name
    if existing.isSome then pure (none, d)
    else
      let slot ← fat16FreeSlot l d.img node.impl
      match slot with
      | none => pure (none, d)
      | some slot => do
        let img ← fillSlot l d.img slot field
        fat16MakeNode l { d with img } slot name

/-- The variables of `fat16_vfs_write` while it extends a chain. -/
structure Extension where
  img : Bytes
  cluster : Nat
  firstNew : Nat
  newParent : Nat
  newCount : Nat

/-- The loop that extends the chain, with the value of `needed - count`. -/
def extendLoop : (missing : Nat) → Extension → Traced Extension
  | 0, x => pure x
  | missing + 1, x => do
    let next ← fat16NextCluster l x.img x.cluster
    if next < 2 ∨ eoc ≤ next then do
      let (next, img) ← fat16AllocCluster l x.img
      if next = 0 then pure { x with img }
      else
        let img ← fat16SetCluster l img x.cluster next
        extendLoop missing
          { img
            cluster := next
            firstNew := if x.firstNew = 0 then next else x.firstNew
            newParent := if x.firstNew = 0 then x.cluster else x.newParent
            newCount := x.newCount + 1 }
    else extendLoop missing { x with cluster := next }

/-- Copy the part of `[offset, stop)` that falls in the cluster number `cl` of the
file.  The result is the number of bytes stored so far, and the image. -/
def copyCluster (offset stop : Nat) (buffer : Nat → UInt8) (cl : Nat) (img : Bytes)
    (cluster written : Nat) : Traced (Nat × Bytes) :=
  let clusterStart := cl * l.bytesPerCluster % 2 ^ 32
  let clusterEnd := (clusterStart + l.bytesPerCluster) % 2 ^ 32
  if offset < clusterEnd ∧ clusterStart < stop then
    let lo := max offset clusterStart
    let hi := min stop clusterEnd
    let dst := (fat16ClusterOff l cluster + (lo - clusterStart)) % 2 ^ 32
    let n := (2 ^ 32 - lo + hi) % 2 ^ 32
    if (dst + n) % 2 ^ 32 ≤ l.imgSize then
      touch dst n ((written + n) % 2 ^ 32, overwrite img dst n fun i => buffer (lo - offset + i))
    else pure (written, img)
  else pure (written, img)

/-- The loop that copies the bytes of `[offset, stop)`, with the value of
`needed - cl`. -/
def copyLoop (offset stop : Nat) (buffer : Nat → UInt8) :
    (remaining cl : Nat) → (img : Bytes) → (cluster written : Nat) → Traced (Nat × Bytes)
  | 0, _, img, _, written => pure (written, img)
  | remaining + 1, cl, img, cluster, written =>
    if stop - offset ≤ written then pure (written, img)
    else if cluster < 2 ∨ eoc ≤ cluster then pure (written, img)
    else do
      let (written, img) ← copyCluster l offset stop buffer cl img cluster written
      let cluster ← if remaining = 0 then pure cluster else fat16NextCluster l img cluster
      copyLoop offset stop buffer remaining (cl + 1) img cluster written

def rollbackLoop : (count : Nat) → (img : Bytes) → (cluster : Nat) → Traced Bytes
  | 0, img, _ => pure img
  | count + 1, img, cluster =>
    if 2 ≤ cluster ∧ cluster < l.maxCluster then do
      let next ← fat16NextCluster l img cluster
      let img ← fat16SetCluster l img cluster 0
      rollbackLoop count img next
    else pure img

/-- End the old chain before the clusters that a write has added. -/
def detach (x : Extension) (entry : Nat) : Traced Bytes :=
  if x.newParent ≠ 0 then fat16SetCluster l x.img x.newParent eocMark
  else wr16 l.imgSize x.img (entry + 26) 0

def rollback (x : Extension) (entry : Nat) : Traced Bytes :=
  if x.firstNew = 0 then pure x.img
  else do
    let img ← detach l x entry
    rollbackLoop l x.newCount img x.firstNew

/-- The first cluster of the file, allocated for an empty file; `none` when the
volume is full. -/
def firstOrAlloc (entry : Nat) : Traced (Option (Nat × Extension)) := do
  let first ← rd16 l.imgSize img (entry + 26)
  if first = 0 then do
    let (first, img) ← fat16AllocCluster l img
    if first = 0 then pure none
    else do
      let img ← wr16 l.imgSize img (entry + 26) first
      pure (some (first, { img, cluster := first, firstNew := first, newParent := 0, newCount := 1 }))
  else
    pure (some (first, { img, cluster := first, firstNew := 0, newParent := 0, newCount := 0 }))

/-- The end of `fat16_vfs_write`, once `written` bytes are stored.  `x.newParent` is
zero and `x.firstNew` is not exactly when the file was empty before. -/
def finishWrite (slot entry first offset written : Nat) (x : Extension) : Traced (Nat × Driver) :=
  let node := d.pool slot
  let wasEmpty := x.firstNew ≠ 0 ∧ x.newParent = 0
  if written = 0 then do
    let img ← rollback l x entry
    let node := { node with impl := if wasEmpty then 0 else node.impl }
    pure (0, { d with img, pool := update d.pool slot node })
  else do
    let node := { node with impl := if wasEmpty then first else node.impl }
    let writtenEnd := (offset + written) % 2 ^ 32
    let length ← rd32 l.imgSize x.img (entry + 28)
    if length < writtenEnd then do
      let img ← wr32 l.imgSize x.img (entry + 28) writtenEnd
      let node := { node with length := writtenEnd }
      pure (written, { d with img, pool := update d.pool slot node })
    else
      pure (written, { d with img := x.img, pool := update d.pool slot node })

/-- `fat16_vfs_write` once its arguments have been checked. -/
def writeFile (slot entry offset stop : Nat) (buffer : Nat → UInt8) : Traced (Nat × Driver) := do
  let bpc := l.bytesPerCluster
  let needed := stop / bpc + if stop % bpc ≠ 0 then 1 else 0
  let start ← firstOrAlloc l d.img entry
  match start with
  | none => pure (0, d)
  | some (first, x) =>
    let x ← extendLoop l (needed - 1) x
    let (written, img) ← copyLoop l offset stop buffer needed 0 x.img first 0
    finishWrite l d slot entry first offset written { x with img }

/-- `fat16_vfs_write` through the node in a slot of the pool.  A null buffer is
`none`. -/
def fat16VfsWrite (slot offset size : Nat) (buffer : Option (Nat → UInt8)) :
    Traced (Nat × Driver) :=
  match (d.pool slot).ptr, buffer with
  | some entry, some buffer =>
    if size = 0 then pure (0, d)
    else if l.maxCluster ≤ 2 ∨ l.maxCluster - 2 ≤ offset / l.bytesPerCluster then pure (0, d)
    else if 2 ^ 32 - 1 - offset < size then pure (0, d)
    else writeFile l d slot entry offset (offset + size) buffer
  | _, _ => pure (0, d)

/-- The loop of `fat16_vfs_unlink` that frees a chain, for a number of rounds;
`none` when it has not ended by then. -/
def freeChain : (rounds : Nat) → (img : Bytes) → (cluster : Nat) → Traced (Option Bytes)
  | 0, _, _ => pure none
  | rounds + 1, img, cluster =>
    if fat16ClusterValid l cluster then do
      let next ← fat16NextCluster l img cluster
      let img ← fat16SetCluster l img cluster 0
      if eoc ≤ next then pure (some img) else freeChain rounds img next
    else pure (some img)

/-- `fat16_vfs_unlink`: whether the file was removed, and the driver, or `none`
when the loop has not ended after `rounds` rounds. -/
def fat16VfsUnlink (rounds : Nat) (d : Driver) (node : Node) (name : CString) :
    Traced (Option (Bool × Driver)) := do
  let found ← findEntry l d.img node.impl name maxDirSlots 0
  match found with
  | none => pure (some (false, d))
  | some (e, _) =>
    let attributes ← peek d.img (e + 11)
    if attributes &&& dirAttrDir ≠ 0 then pure (some (false, d))
    else if fat16EntryIsOpen d e then pure (some (false, d))
    else do
      let cluster ← rd16 l.imgSize d.img (e + 26)
      let valid ← fat16ChainValid l d.img cluster
      if valid = false then pure (some (false, d))
      else do
        let freed ← freeChain l rounds d.img cluster
        match freed with
        | none => pure none
        | some img => do
          let img ← touch e 1 (overwrite img e 1 fun _ => deletedMark)
          pure (some (true, { d with img }))

/-- The loop of `fat16_vfs_read`, for a number of rounds; `none` when it has not
ended by then.  The bytes copied so far are `copied`. -/
def readLoop (img : Bytes) (size : Nat) :
    (rounds cluster pos : Nat) → (copied : List UInt8) → Traced (Option (List UInt8))
  | 0, _, _, _ => pure none
  | rounds + 1, cluster, pos, copied =>
    if copied.length < size ∧ 2 ≤ cluster ∧ cluster < eoc then do
      let clusterOff := (fat16ClusterOff l cluster + pos) % 2 ^ 32
      let wanted := min (size - copied.length) (l.bytesPerCluster - pos)
      let chunk :=
        if l.imgSize < (clusterOff + wanted) % 2 ^ 32 then l.imgSize - clusterOff else wanted
      let bytes ← touch clusterOff chunk (slice img clusterOff chunk)
      let copied := copied ++ bytes
      let cluster ←
        if copied.length < size then fat16NextCluster l img cluster else pure cluster
      readLoop img size rounds cluster 0 copied
    else pure (some copied)

/-- `fat16_vfs_read`: the bytes stored in the buffer, or `none` when the loop has
not ended after `rounds` rounds. -/
def fat16VfsRead (rounds : Nat) (img : Bytes) (node : Node) (offset size : Nat) :
    Traced (Option (List UInt8)) :=
  if node.length ≤ offset then pure (some [])
  else do
    let size := min size (node.length - offset)
    let start ← followLinks l img (offset / l.bytesPerCluster) node.impl
    match start with
    | none => pure (some [])
    | some cluster => readLoop l img size rounds cluster (offset % l.bytesPerCluster) []

end Operations

end MiniOS.Fat16
