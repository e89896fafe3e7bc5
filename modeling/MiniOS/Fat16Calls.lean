import MiniOS.Fat16Access

/-!
# Runs on arbitrary FAT16 images

The calls of `fs.c` on a mounted volume whose table, directories and files hold
arbitrary bytes.  All accesses of the driver stay in the image exactly when the
boot sector keeps the data of every cluster number below the end of the 32-bit
range.
-/

namespace MiniOS.Fat16

open LittleEndian Machine PhysicalMemory TracedAccess Traced

variable {l : Layout} {img : Bytes} {d : Driver}

inductive FatCall
  | change (op : FatOp)
  | readdir (node : NodeRef) (index : Nat)
  | read (slot offset size : Nat)

/-- A call through `fs.c`; `none` when the driver has not returned after `rounds`
rounds of an unbounded loop. -/
def fatCall (l : Layout) (rounds : Nat) (d : Driver) : FatCall → Traced (Option Driver)
  | .change op => fatOp l rounds d op
  | .readdir ref index =>
    if (nodeOf d ref).kind = .directory then
      (fun _ => some d) <$> fat16VfsReaddir l d.img (nodeOf d ref) index
    else pure (some d)
  | .read slot offset size =>
    if (d.pool slot).kind = .file then
      (Option.map fun _ => d) <$> fat16VfsRead l rounds d.img (d.pool slot) offset size
    else pure (some d)

/-- A step of a run in which every loop ends within `rounds` rounds. -/
def callStep (l : Layout) (rounds : Nat) (d : Driver) (call : FatCall) : Option Driver :=
  (fatCall l rounds d call).value

/-- In every run on the image, no call reads or writes outside of it. -/
def AccessesInside (l : Layout) (img : Bytes) : Prop :=
  ∀ rounds calls d, runPartial (callStep l rounds) (mountedDriver img) calls = some d →
    ∀ call, (fatCall l rounds d call).Within l.imgSize

/-- The accesses of a call stay in the image, and so do the entries of the nodes. -/
def StaysInside (l : Layout) (call : Traced (Option Driver)) : Prop :=
  (AddressesFit l → call.Within l.imgSize) ∧ ∀ d' ∈ call.value, PoolInImage l d'

variable (pool : PoolInImage l d)

include pool

theorem PoolInImage.unchanged : StaysInside l (pure (some d)) :=
  ⟨fun _ => within_pure _ _, by rintro d' ⟨⟩; exact pool⟩

theorem PoolInImage.fatOp (rounds : Nat) (op : FatOp) : StaysInside l (fatOp l rounds d op) := by
  cases op with
  | finddir ref name =>
    rw [Fat16.fatOp]
    split
    · obtain ⟨within, kept⟩ := pool.finddir (pool.nodeOf_lt ref) name
      exact ⟨fun _ => within_map.mpr within, by rintro d' ⟨⟩; exact kept⟩
    · exact pool.unchanged
  | create ref name =>
    rw [Fat16.fatOp]
    split
    · obtain ⟨within, kept⟩ := pool.create (pool.nodeOf_lt ref) name
      exact ⟨fun _ => within_map.mpr within, by rintro d' ⟨⟩; exact kept⟩
    · exact pool.unchanged
  | unlink ref name =>
    rw [Fat16.fatOp]
    split
    · obtain ⟨within, kept⟩ := pool.unlink (pool.nodeOf_lt ref) rounds name
      refine ⟨fun _ => within_map.mpr within, fun d' returned => ?_⟩
      rw [value_map, Option.mem_def, Option.map_eq_some_iff] at returned
      obtain ⟨result, returned, rfl⟩ := returned
      exact kept result returned
    · exact pool.unchanged
  | write slot offset size buffer =>
    rw [Fat16.fatOp]
    split
    · obtain ⟨within, kept⟩ := pool.write slot offset size buffer
      exact ⟨fun fit => within_map.mpr (within fit), by rintro d' ⟨⟩; exact kept⟩
    · exact pool.unchanged
  | openNode slot =>
    refine ⟨fun _ => within_pure _ _, ?_⟩
    rintro d' ⟨⟩
    split
    · exact pool.of_same rfl
    · exact pool
  | closeNode slot =>
    refine ⟨fun _ => within_pure _ _, ?_⟩
    rintro d' ⟨⟩
    rw [fat16VfsClose]
    split
    · split
      · exact pool.of_same rfl
      · exact pool
    · exact pool

theorem PoolInImage.fatCall (rounds : Nat) (call : FatCall) :
    StaysInside l (fatCall l rounds d call) := by
  cases call with
  | change op => exact pool.fatOp rounds op
  | readdir ref index =>
    rw [Fat16.fatCall]
    split
    · exact ⟨fun _ => within_map.mpr (readdirLoop_within (pool.nodeOf_lt ref)
        (approached_zero ..)), by rintro d' ⟨⟩; exact pool⟩
    · exact pool.unchanged
  | read slot offset size =>
    rw [Fat16.fatCall]
    split
    · refine ⟨fun fit => within_map.mpr (fat16VfsRead_within fit (pool.impl_lt slot)),
        fun d' returned => ?_⟩
      rw [value_map, Option.mem_def, Option.map_eq_some_iff] at returned
      obtain ⟨result, -, rfl⟩ := returned
      exact pool
    · exact pool.unchanged

theorem run_poolInImage {rounds : Nat} {calls : List FatCall} {d' : Driver}
    (reached : runPartial (callStep l rounds) d calls = some d') :
    PoolInImage l d' := by
  induction calls generalizing d with
  | nil =>
    rw [runPartial, Option.some.injEq] at reached
    exact reached ▸ pool
  | cons call calls ih =>
    rw [runPartial, Option.bind_eq_some_iff] at reached
    obtain ⟨next, returned, rest⟩ := reached
    exact ih ((pool.fatCall rounds call).2 next returned) rest

omit pool

theorem AddressesFit.accessesInside (fit : AddressesFit l) (img : Bytes) : AccessesInside l img :=
  fun rounds _ _ reached call =>
    ((run_poolInImage (poolInImage_mounted l img) reached).fatCall rounds call).1 fit

def withFile (l : Layout) (img : Bytes) (first length : Nat) : Bytes :=
  setField
    (setField
      (overwrite img l.rootStart 26 fun k => if k = 0 then 0x41 else if k < 11 then space
        else dirAttrFile)
      2 (l.rootStart + 26) first)
    4 (l.rootStart + 28) length

variable {first length : Nat}

theorem withFile_of_lt {index : Nat} (before : index < l.rootStart) :
    withFile l img first length index = img index := by
  rw [withFile, setField_of_outside (by omega), setField_of_outside (by omega),
    overwrite_of_outside (by omega)]

theorem withFile_name (l : Layout) (img : Bytes) (first length : Nat) {k : Nat} (inName : k < 26) :
    withFile l img first length (l.rootStart + k) =
      if k = 0 then 0x41 else if k < 11 then space else dirAttrFile := by
  rw [withFile, setField_of_outside (by omega), setField_of_outside (by omega),
    overwrite_inside (by omega) (by omega), Nat.add_sub_cancel_left]

theorem withFile_first (small : first < 2 ^ 16) :
    field (withFile l img first length) 2 (l.rootStart + 26) = first := by
  rw [withFile, field_setField_of_disjoint (by omega), field_setField]
  exact Nat.mod_eq_of_lt small

theorem withFile_length (small : length < 2 ^ 32) :
    field (withFile l img first length) 4 (l.rootStart + 28) = length := by
  rw [withFile, field_setField]
  exact Nat.mod_eq_of_lt small

theorem rootStart_fits (l : Layout) : 512 ≤ l.rootStart ∧ l.rootStart + 32 ≤ l.imgSize := by
  have table := l.fatStart_add_le
  have sectors := l.mountable.sectorsPerFat_pos
  have entries := l.mountable.rootEntries_pos
  have root := l.rootStart_add_le
  have data := l.dataStart_le
  omega

theorem slotAt_root_zero (l : Layout) (img : Bytes) : slotAt l img 0 0 = some l.rootStart := by
  have entries := l.mountable.rootEntries_pos
  rw [slotAt_root, if_pos entries, Nat.zero_mul, Nat.add_zero]

def nameA : CString := ⟨[0x61], by decide⟩

theorem findEntry_withFile (l : Layout) (img : Bytes) (first length : Nat) :
    (findEntry l (withFile l img first length) 0 nameA maxDirSlots 0).value =
      some (l.rootStart, nameA) := by
  have atSlot := slotAt_root_zero l (withFile l img first length)
  have head := withFile_name l img first length (show 0 < 26 by omega)
  have attributes := withFile_name l img first length (show 11 < 26 by omega)
  have kind : (fat16EntryKind (withFile l img first length) l.rootStart).value = .live := by
    simp only [fat16EntryKind, peek, value_bind, value_ite, value_touch, value_pure]
    rw [Nat.add_zero] at head
    rw [head, attributes]
    decide
  have name : (entryName (withFile l img first length) l.rootStart).value = nameA := by
    have bytes : slice (withFile l img first length) l.rootStart 11 =
        (List.range 11).map fun k => if k = 0 then 0x41 else if k < 11 then space
          else dirAttrFile :=
      List.map_congr_left fun k member =>
        withFile_name l img first length ((List.mem_range.mp member).trans (by decide))
    rw [entryName, value_touch, bytes]
    decide
  show (findEntry l (withFile l img first length) 0 nameA (8191 + 1) 0).value = _
  rw [findEntry, value_bind]
  rw [slotAt] at atSlot
  simp only [atSlot, value_bind, kind, name, value_ite, value_pure]
  rfl

/-- The driver once `fat16_vfs_finddir` has made a node of the file. -/
def foundFile (l : Layout) (img : Bytes) : Driver :=
  withNode l (mountedDriver img) 0 1 l.rootStart nameA

theorem callStep_finddir_withFile (l : Layout) (img : Bytes) (first length rounds : Nat) :
    callStep l rounds (mountedDriver (withFile l img first length))
        (.change (.finddir .root nameA)) = some (foundFile l (withFile l img first length)) := by
  have found : (findEntry l (mountedDriver (withFile l img first length)).img rootNode.impl nameA
      maxDirSlots 0).value = _ := findEntry_withFile l img first length
  have made := fat16MakeNode_value (l := l) (mountedDriver (withFile l img first length))
    l.rootStart nameA
  rw [show chooseSlot (mountedDriver (withFile l img first length)) l.rootStart =
    some (0, 1) from rfl] at made
  rw [callStep, fatCall, fatOp, nodeOf, if_pos (show rootNode.kind = .directory from rfl),
    value_map, fat16VfsFinddir, value_bind, found]
  exact congrArg (fun result => some result.2) made

theorem foundFile_pool (l : Layout) (img : Bytes) (firstSmall : first < 2 ^ 16)
    (lengthSmall : length < 2 ^ 32) :
    (foundFile l (withFile l img first length)).pool 0 =
      { name := nameA, kind := .file, inode := first + 1, length, impl := first,
        ptr := some l.rootStart } := by
  have fits := (rootStart_fits l).2
  have attributes := withFile_name l img first length (show 11 < 26 by omega)
  show (describe l (withFile l img first length) l.rootStart nameA).value = _
  simp only [describe, peek, rd16, rd32, value_bind, value_ite, value_touch, value_pure]
  rw [attributes, rd_value l _ (by omega), rd_value l _ (by omega), withFile_first firstSmall,
    withFile_length lengthSmall]
  rfl

/-- A file whose data begins in the last bytes of the 32-bit range is read from
outside of the image. -/
theorem AccessesInside.addressesFit
    (safe : ∀ img', (∀ index < 512, img' index = img index) → AccessesInside l img') :
    AddressesFit l := by
  intro cluster two below
  by_contra wraps
  have size := l.imgSize_le
  have large := l.bytesPerCluster_le
  have aligned := fat16ClusterOff_le l cluster
  have word : cluster < 2 ^ 16 := below.trans (by decide)
  obtain ⟨length, last⟩ : ∃ length, fat16ClusterOff l cluster + length = 2 ^ 32 :=
    ⟨2 ^ 32 - fat16ClusterOff l cluster, by omega⟩
  have node := foundFile_pool l img word (show length < 2 ^ 32 by omega)
  have inside := safe (withFile l img cluster length)
    (fun index boot => withFile_of_lt (boot.trans_le (rootStart_fits l).1)) 1
    [.change (.finddir .root nameA)] (foundFile l (withFile l img cluster length))
    (by rw [runPartial, callStep_finddir_withFile]; rfl) (.read 0 0 length)
  rw [fatCall, node, if_pos rfl, within_map, fat16VfsRead, if_neg (by simp only; omega),
    within_bind] at inside
  simp only [Nat.zero_div, followLinks, value_pure] at inside
  obtain ⟨-, inside⟩ := inside
  rw [readLoop, if_pos ⟨by simp only [List.length_nil]; omega, two, below⟩, within_bind,
    within_touch] at inside
  obtain ⟨access, -⟩ := inside
  simp only [Nat.zero_mod, Nat.add_zero, List.length_nil, Nat.sub_zero, Nat.min_self] at access
  rw [Nat.mod_eq_of_lt (show fat16ClusterOff l cluster < 2 ^ 32 by omega),
    min_eq_left (by omega), last, if_neg (by omega)] at access
  omega

variable {size : Nat}

theorem readParameters_within (bootSector : 512 ≤ size) :
    (readParameters img size).Within size := by
  refine within_bind.mpr ⟨rd_within (by omega), within_bind.mpr ⟨peek_within (by omega),
    within_bind.mpr ⟨rd_within (by omega), within_bind.mpr ⟨peek_within (by omega),
      within_bind.mpr ⟨rd_within (by omega), within_bind.mpr
        ⟨rd_within (by omega), within_pure _ _⟩⟩⟩⟩⟩⟩

theorem acceptLayout_within (bootSector : 512 ≤ size) (bounded : size ≤ pmmMaxMemory)
    (p : {p : Parameters // p.imgSize = size ∧ p.sectorsPerCluster < 256}) :
    (acceptLayout img bounded p).Within size := by
  rw [acceptLayout]
  split
  · refine within_bind.mpr ⟨peek_within (by omega), within_ite (fun _ => within_pure _ _)
      fun _ => within_bind.mpr ⟨peek_within (by omega), within_ite (fun _ => within_pure _ _)
        fun _ => ?_⟩⟩
    split <;> exact within_pure _ _
  · exact within_pure _ _

section Install

variable {pmm : Pmm} {bounded : pmm.maxBlocks ≤ pmmMaxBlocks} {old : Option Mounted}
  {image : Option Bytes} {size : Nat} {memory : Bytes}

theorem fat16Install_within : (fat16Install pmm bounded old image size memory).Within size := by
  unfold fat16Install
  cases image with
  | none => exact within_pure _ _
  | some image =>
    refine within_ite (fun _ => within_pure _ _) fun large => ?_
    split
    · exact within_pure _ _
    · refine within_bind.mpr ⟨readParameters_within (by omega), within_bind.mpr
        ⟨acceptLayout_within (by omega) _ _, ?_⟩⟩
      split <;> exact within_pure _ _

/-- The accesses of `fat16_install` stay in the image.  So do those of every run on
every image with the same boot sector, exactly when the boot sector keeps the
data of all clusters below the end of the 32-bit range. -/
theorem install_accessesInside {mounted : Mounted}
    (_ : (fat16Install pmm bounded old image size memory).value.1 = some mounted) :
    (fat16Install pmm bounded old image size memory).Within size ∧
      ((∀ img, (∀ index < 512, img index = mounted.driver.img index) →
          AccessesInside mounted.layout img) ↔ AddressesFit mounted.layout) :=
  ⟨fat16Install_within, AccessesInside.addressesFit, fun fit img _ => fit.accessesInside img⟩

/-- The regions of a volume lie one behind the other in its image, and the offsets of its
usable clusters are computed without a wrap and lie in them. -/
structure RegionsLaid (l : Layout) (size : Nat) : Prop where
  imgSize : l.imgSize = size
  tables : l.fatLba * 512 + l.numFats * (l.sectorsPerFat * 512) = l.rootDirLba * 512
  root : l.rootDirLba * 512 + l.rootEntries * 32 ≤ l.dataLba * 512
  data : l.dataLba * 512 ≤ size
  noWrap : ∀ cluster, l.Usable cluster → l.fatLba * l.bytesPerSector + cluster * 2 < 2 ^ 32 ∧
    (l.dataLba + (cluster - 2) * l.sectorsPerCluster) * l.bytesPerSector < 2 ^ 32
  entries : ∀ cluster, l.Usable cluster → l.fatLba * 512 ≤ fat16FatOff l cluster ∧
    fat16FatOff l cluster + 2 ≤ l.fatLba * 512 + l.sectorsPerFat * 512
  bytes : ∀ cluster, l.Usable cluster → l.dataLba * 512 ≤ fat16ClusterOff l cluster ∧
    fat16ClusterOff l cluster + l.bytesPerCluster ≤ size
  apart : ∀ first second, l.Usable first → l.Usable second → first < second →
    fat16ClusterOff l first + l.bytesPerCluster ≤ fat16ClusterOff l second

theorem acceptLayout_imgSize {img : Bytes} {bounded : size ≤ pmmMaxMemory}
    {p : {p : Parameters // p.imgSize = size ∧ p.sectorsPerCluster < 256}} {l : Layout}
    (accepted : (acceptLayout img bounded p).value = some l) : l.imgSize = size := by
  rw [acceptLayout] at accepted
  split at accepted
  · simp only [value_bind, value_ite, value_pure] at accepted
    split_ifs at accepted
    obtain rfl := Option.some.inj accepted
    exact p.property.1
  · exact nomatch accepted

theorem install_imgSize {mounted : Mounted}
    (isMounted : (fat16Install pmm bounded old image size memory).value.1 = some mounted) :
    mounted.layout.imgSize = size := by
  unfold fat16Install at isMounted
  cases image with
  | none => exact nomatch isMounted
  | some image =>
    rw [value_ite] at isMounted
    split at isMounted
    · exact nomatch isMounted
    · split at isMounted
      · exact nomatch isMounted
      · simp only [value_bind] at isMounted
        split at isMounted
        · exact nomatch isMounted
        · next layout accepted =>
          obtain rfl := Option.some.inj isMounted
          exact acceptLayout_imgSize accepted

/-- The layout of every volume that is mounted. -/
theorem install_regionsLaid {mounted : Mounted}
    (isMounted : (fat16Install pmm bounded old image size memory).value.1 = some mounted) :
    RegionsLaid mounted.layout size := by
  have imgSize := install_imgSize isMounted
  generalize mounted.layout = l at imgSize
  have small := l.imgSize_le
  have data := l.dataStart_le
  have offset : ∀ cluster, l.Usable cluster → fat16ClusterOff l cluster = l.clusterStart cluster :=
    fun cluster usable => fat16ClusterOff_usable usable
  refine ⟨imgSize, ?_, l.rootStart_add_le, imgSize ▸ data, fun cluster usable => ?_,
    fun cluster usable => ?_, fun cluster usable => ?_, fun first second usable others less => ?_⟩
  · rw [Parameters.rootDirLba, Parameters.fatLba]
    ring
  · have inside := usable.clusterEnd_le
    have entry := usable.fatEntry_fits
    rw [l.clusterStart_eq] at inside
    rw [Layout.fatStart] at entry
    rw [l.bytesPerSector_eq, Parameters.fatLba]
    omega
  · have byFat := l.maxCluster_le_fat
    have below := usable.2
    rw [fat16FatOff_eq l usable.lt_word, Parameters.fatLba, Layout.fatStart]
    omega
  · rw [offset cluster usable, ← imgSize]
    exact ⟨l.dataStart_le_clusterStart cluster, usable.clusterEnd_le⟩
  · rw [offset first usable, offset second others]
    exact l.clusters_disjoint usable.1 less

end Install

def oneFreeBlock : Pmm where
  memoryMap := fun block => block = 0
  maxBlocks := 2
  usedBlocks := 1

/-- A volume of three sectors with 196 sectors to a cluster.  Its only file begins
in cluster 42801, whose data would begin 512 bytes before the end of the
32-bit range. -/
def wrappingImage : Bytes := fun index =>
  if 1025 ≤ index ∧ index ≤ 1035 then 0x20
  else
    ([(12, 2), (13, 196), (14, 1), (16, 1), (17, 16), (22, 1), (510, 0x55), (511, 0xAA),
      (1024, 0x41), (1050, 0x31), (1051, 0xA7), (1052, 0x58), (1053, 0x02)].lookup index).getD 0

/-- With one sector to a cluster every run stays in the image, and with 196 some run does not. -/
theorem install_accessesInside_wrapping :
    (∃ mounted,
      (fat16Install oneFreeBlock (by decide) none (some (Function.update wrappingImage 13 1)) 2048
        fun _ => 0).value.1 = some mounted ∧
      ∀ img, (∀ index < 512, img index = mounted.driver.img index) →
        AccessesInside mounted.layout img) ∧
    ∃ mounted,
      (fat16Install oneFreeBlock (by decide) none (some wrappingImage) 1536 fun _ => 0).value.1 =
        some mounted ∧
      ¬ ∀ img, (∀ index < 512, img index = mounted.driver.img index) →
        AccessesInside mounted.layout img := by
  have few : (fat16Install oneFreeBlock (by decide) none (some (Function.update wrappingImage 13 1))
      2048 fun _ => 0).value.1.map (fun mounted => decide (mounted.layout.sectorsPerCluster ≤ 64)) =
        some true := by decide +kernel
  have many : (fat16Install oneFreeBlock (by decide) none (some wrappingImage) 1536
      fun _ => 0).value.1.map (fun mounted =>
        decide (2 ^ 32 ≤ fat16ClusterOff mounted.layout 42801 + mounted.layout.bytesPerCluster)) =
        some true := by decide +kernel
  obtain ⟨safe, isSafe, isFew⟩ := Option.map_eq_some_iff.mp few
  obtain ⟨wraps, isWraps, isMany⟩ := Option.map_eq_some_iff.mp many
  refine ⟨⟨safe, isSafe, (install_accessesInside isSafe).2.mpr
    (addressesFit_of_le (of_decide_eq_true isFew))⟩, wraps, isWraps, fun inside => ?_⟩
  have fits := (install_accessesInside isWraps).2.mp inside 42801 (by decide) (by decide)
  exact absurd fits (Nat.not_lt.mpr (of_decide_eq_true isMany))

/-- The same volume with one sector to a cluster and the data of one cluster. -/
theorem install_regionsLaid_oneCluster : ∃ mounted,
      (fat16Install oneFreeBlock (by decide) none (some (Function.update wrappingImage 13 1)) 2048
        fun _ => 0).value.1 = some mounted ∧
      mounted.layout.Usable 2 ∧ RegionsLaid mounted.layout 2048 := by
  have accepted : (fat16Install oneFreeBlock (by decide) none
      (some (Function.update wrappingImage 13 1)) 2048 fun _ => 0).value.1.map
        (fun mounted => decide (mounted.layout.Usable 2)) = some true := by
    decide +kernel
  obtain ⟨mounted, isMounted, usable⟩ := Option.map_eq_some_iff.mp accepted
  exact ⟨mounted, isMounted, of_decide_eq_true usable, install_regionsLaid isMounted⟩

/-- Reading 600 bytes of that file passes the check in `fat16_vfs_read` and copies
from outside of the image. -/
theorem read_outside_image :
    ((fat16Install oneFreeBlock (by decide) none (some wrappingImage) 1536 fun _ => 0).value.1.bind
      fun mounted =>
        (runPartial (callStep mounted.layout 2) mounted.driver
          [.change (.finddir .root nameA)]).map fun d =>
            decide ((fatCall mounted.layout 2 d (.read 0 0 600)).Within mounted.layout.imgSize)) =
      some false := by
  decide +kernel

end MiniOS.Fat16
