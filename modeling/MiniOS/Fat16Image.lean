import MiniOS.Fat16Driver

/-!
# Regions of a FAT16 image

The file allocation table, the root directory and the clusters of a mounted
volume lie one after the other in the image.  Within these regions no offset
wraps around, so the functions of the driver read and write plain fields.
-/

namespace MiniOS.Fat16

open LittleEndian PhysicalMemory TracedAccess Traced

variable {width off value : Nat}

section Bytes

variable {img img' : Bytes} {start count index : Nat} {source : Nat → UInt8}

theorem overwrite_of_outside (outside : index < start ∨ start + count ≤ index) :
    overwrite img start count source index = img index := by
  rw [overwrite, if_neg]
  omega

theorem overwrite_inside (first : start ≤ index) (last : index < start + count) :
    overwrite img start count source index = source (index - start) := by
  rw [overwrite, if_pos ⟨first, last⟩]

theorem slice_congr (same : ∀ k < count, img (start + k) = img' (start + k)) :
    slice img start count = slice img' start count :=
  List.map_congr_left fun k member => same k (List.mem_range.mp member)

theorem slice_overwrite :
    slice (overwrite img start count source) start count = (List.range count).map source := by
  refine List.map_congr_left fun k member => ?_
  rw [List.mem_range] at member
  rw [overwrite_inside (by omega) (by omega), Nat.add_sub_cancel_left]

@[simp]
theorem slice_length : (slice img start count).length = count := by
  simp [slice]

/-- The number stored in the `width` bytes at `off`. -/
def field (img : Bytes) (width off : Nat) : Nat := leValue (slice img off width)

theorem field_congr (same : ∀ k < width, img (off + k) = img' (off + k)) :
    field img width off = field img' width off := by
  rw [field, slice_congr same, field]

theorem field_lt (img : Bytes) (width off : Nat) : field img width off < 256 ^ width := by
  have bound := leValue_lt (slice img off width)
  rwa [slice_length] at bound

theorem field_overwrite_of_disjoint (disjoint : off + width ≤ start ∨ start + count ≤ off) :
    field (overwrite img start count source) width off = field img width off :=
  field_congr fun k below => overwrite_of_outside (by omega)

theorem map_range_getD (data : List UInt8) :
    (List.range data.length).map (fun k => data.getD k 0) = data := by
  refine List.ext_getElem (by simp) fun k _ below => ?_
  simp [List.getD, below]

def setField (img : Bytes) (width off value : Nat) : Bytes :=
  overwrite img off width ((leBytes width value).getD · 0)

theorem field_setField (img : Bytes) (width off value : Nat) :
    field (setField img width off value) width off = value % 256 ^ width := by
  have whole := map_range_getD (leBytes width value)
  rw [leBytes_length] at whole
  rw [field, setField, slice_overwrite, whole, leValue_leBytes]

theorem setField_of_outside (outside : index < off ∨ off + width ≤ index) :
    setField img width off value index = img index :=
  overwrite_of_outside outside

theorem field_setField_of_disjoint {width' off' : Nat}
    (disjoint : off + width ≤ off' ∨ off' + width' ≤ off) :
    field (setField img width' off' value) width off = field img width off :=
  field_overwrite_of_disjoint disjoint

end Bytes

variable {cluster : Nat}

namespace Layout

variable (l : Layout)

theorem imgSize_le : l.imgSize ≤ 2 ^ 25 := l.mountable.imgSize_le

@[simp]
theorem bytesPerSector_eq : l.bytesPerSector = 512 := l.mountable.bytesPerSector_eq

def fatStart : Nat := l.reservedSectors * 512

def rootStart : Nat := l.rootDirLba * 512

def dataStart : Nat := l.dataLba * 512

def clusterStart (cluster : Nat) : Nat := l.dataStart + (cluster - 2) * l.bytesPerCluster

def Usable (cluster : Nat) : Prop := 2 ≤ cluster ∧ cluster < l.maxCluster

instance (cluster : Nat) : Decidable (l.Usable cluster) :=
  inferInstanceAs (Decidable (_ ∧ _))

theorem bytesPerCluster_eq : l.bytesPerCluster = l.sectorsPerCluster * 512 := by
  rw [Parameters.bytesPerCluster, l.bytesPerSector_eq]

theorem le_bytesPerCluster : 512 ≤ l.bytesPerCluster := by
  have positive := l.mountable.sectorsPerCluster_pos
  rw [l.bytesPerCluster_eq]
  omega

theorem bytesPerCluster_le : l.bytesPerCluster ≤ 130560 := by
  have small := l.mountable.sectorsPerCluster_lt
  rw [l.bytesPerCluster_eq]
  omega

theorem bytesPerCluster_slots : l.bytesPerCluster / 32 * 32 = l.bytesPerCluster := by
  rw [l.bytesPerCluster_eq]
  omega

theorem slotsPerCluster_pos : 0 < l.bytesPerCluster / 32 := by
  have large := l.le_bytesPerCluster
  omega

theorem dataStart_le : l.dataStart ≤ l.imgSize := by
  have fits := l.mountable.dataLba_le
  rw [l.bytesPerSector_eq] at fits
  rw [dataStart]
  omega

theorem sectorsPerFat_le : l.sectorsPerFat ≤ l.numFats * l.sectorsPerFat :=
  Nat.le_mul_of_pos_left _ l.mountable.numFats_pos

theorem fatStart_add_le : l.fatStart + l.sectorsPerFat * 512 ≤ l.rootStart := by
  have oneTable := l.sectorsPerFat_le
  rw [fatStart, rootStart, Parameters.rootDirLba]
  omega

theorem rootDirSectors_eq : l.rootDirSectors = (l.rootEntries * 32 + 511) / 512 := by
  rw [Parameters.rootDirSectors, l.bytesPerSector_eq]
  rfl

theorem rootStart_add_le : l.rootStart + l.rootEntries * 32 ≤ l.dataStart := by
  have sectors := l.rootDirSectors_eq
  rw [rootStart, dataStart, Parameters.dataLba]
  omega

theorem maxCluster_le_fat : l.maxCluster ≤ l.sectorsPerFat * 256 := by
  have bound : l.maxCluster ≤ l.fatClusters := min_le_left _ _
  rw [Parameters.fatClusters, l.bytesPerSector_eq] at bound
  omega

theorem maxCluster_le_data : l.maxCluster ≤ 2 + (l.imgSize - l.dataStart) / l.bytesPerCluster := by
  have bound : l.maxCluster ≤ l.dataClusters := min_le_right _ _
  rwa [Parameters.dataClusters, l.bytesPerSector_eq] at bound

/-- An image that the memory manager can hold has fewer clusters than the first
reserved number. -/
theorem maxCluster_lt : l.maxCluster < reservedStart := by
  have byFat := l.maxCluster_le_fat
  rw [reservedStart]
  rcases Nat.lt_or_ge l.sectorsPerFat 256 with short | long
  · omega
  · have byData := l.maxCluster_le_data
    have perCluster : (l.imgSize - l.dataStart) / l.bytesPerCluster ≤
        (l.imgSize - l.dataStart) / 512 :=
      Nat.div_le_div_left l.le_bytesPerCluster (by decide)
    have table := l.fatStart_add_le
    have root := l.rootStart_add_le
    have size := l.imgSize_le
    omega

variable {l : Layout}

theorem Usable.lt_reserved (usable : l.Usable cluster) : cluster < reservedStart :=
  usable.2.trans l.maxCluster_lt

theorem Usable.lt_eoc (usable : l.Usable cluster) : cluster < eoc := by
  have reserved := usable.lt_reserved
  rw [reservedStart] at reserved
  rw [eoc]
  omega

theorem clusterValid_iff : fat16ClusterValid l cluster ↔ l.Usable cluster :=
  ⟨fun valid => ⟨valid.1, valid.2.1⟩, fun usable => ⟨usable.1, usable.2, usable.lt_reserved⟩⟩

/-- The table entries of usable clusters precede the root directory. -/
theorem Usable.fatEntry_le (usable : l.Usable cluster) :
    l.fatStart + cluster * 2 + 2 ≤ l.rootStart := by
  have byFat := l.maxCluster_le_fat
  have table := l.fatStart_add_le
  have below := usable.2
  omega

theorem clusterStart_eq (l : Layout) (cluster : Nat) : l.clusterStart cluster =
    (l.dataLba + (cluster - 2) * l.sectorsPerCluster) * 512 := by
  rw [clusterStart, dataStart, l.bytesPerCluster_eq]
  ring

theorem clusterStart_succ (two : 2 ≤ cluster) :
    l.clusterStart (cluster + 1) = l.clusterStart cluster + l.bytesPerCluster := by
  obtain ⟨number, rfl⟩ := Nat.exists_eq_add_of_le two
  simp only [clusterStart, show 2 + number + 1 - 2 = number + 1 by omega, Nat.add_sub_cancel_left]
  ring

variable {first second : Nat}

theorem clusterStart_mono (le : first ≤ second) : l.clusterStart first ≤ l.clusterStart second := by
  have numbers : first - 2 ≤ second - 2 := by omega
  exact Nat.add_le_add_left (Nat.mul_le_mul_right _ numbers) _

theorem dataStart_le_clusterStart (cluster : Nat) : l.dataStart ≤ l.clusterStart cluster :=
  Nat.le_add_right _ _

/-- The data of a usable cluster lies in the image. -/
theorem Usable.clusterEnd_le (usable : l.Usable cluster) :
    l.clusterStart cluster + l.bytesPerCluster ≤ l.imgSize := by
  have byData := l.maxCluster_le_data
  have fits := l.dataStart_le
  have within : cluster - 2 + 1 ≤ (l.imgSize - l.dataStart) / l.bytesPerCluster := by
    have two := usable.1
    have below := usable.2
    omega
  have clusters : (cluster - 2 + 1) * l.bytesPerCluster ≤ l.imgSize - l.dataStart :=
    (Nat.mul_le_mul_right _ within).trans (Nat.div_mul_le_self _ _)
  rw [clusterStart]
  rw [Nat.add_mul, Nat.one_mul] at clusters
  omega

/-- Different usable clusters do not share a byte. -/
theorem clusters_disjoint (two : 2 ≤ first) (less : first < second) :
    l.clusterStart first + l.bytesPerCluster ≤ l.clusterStart second := by
  rw [← l.clusterStart_succ two]
  exact l.clusterStart_mono less

end Layout

section Values

variable (l : Layout) (img : Bytes)

theorem rd_value (fits : off + width ≤ l.imgSize) :
    (rd l.imgSize img width off).value = field img width off := by
  have size := l.imgSize_le
  rw [rd, Nat.mod_eq_of_lt (by omega), if_neg (by omega), value_touch]
  rfl

theorem wr_value (fits : off + width ≤ l.imgSize) :
    (wr l.imgSize img width off value).value = setField img width off value := by
  have size := l.imgSize_le
  rw [wr, Nat.mod_eq_of_lt (by omega), if_neg (by omega), value_touch]
  rfl

theorem rd_value_lt (width off : Nat) : (rd l.imgSize img width off).value < 256 ^ width := by
  rw [rd, value_ite, value_pure, value_touch]
  split
  · positivity
  · exact field_lt img width off

theorem fat16FatOff_eq (small : cluster < 2 ^ 16) :
    fat16FatOff l cluster = l.fatStart + cluster * 2 := by
  have size := l.imgSize_le
  have fits := l.dataStart_le
  have table := l.fatStart_add_le
  have root := l.rootStart_add_le
  rw [fat16FatOff, l.bytesPerSector_eq, Parameters.fatLba, ← Layout.fatStart]
  exact Nat.mod_eq_of_lt (by omega)

theorem fat16NextCluster_lt (cluster : Nat) : (fat16NextCluster l img cluster).value < 2 ^ 16 :=
  rd_value_lt l img 2 _

def fatEntry (cluster : Nat) : Nat := field img 2 (l.fatStart + cluster * 2)

variable {l} {cluster : Nat}

variable (usable : l.Usable cluster)

include usable

theorem Layout.Usable.lt_word : cluster < 2 ^ 16 := by
  have reserved := usable.lt_reserved
  rw [reservedStart] at reserved
  omega

theorem Layout.Usable.fatEntry_fits : l.fatStart + cluster * 2 + 2 ≤ l.imgSize := by
  have entry := usable.fatEntry_le
  have root := l.rootStart_add_le
  have fits := l.dataStart_le
  omega

theorem fat16NextCluster_usable :
    (fat16NextCluster l img cluster).value = fatEntry l img cluster := by
  rw [fat16NextCluster, rd16, fat16FatOff_eq l usable.lt_word, rd_value l img usable.fatEntry_fits]
  rfl

theorem fat16SetCluster_usable : (fat16SetCluster l img cluster value).value =
      setField img 2 (l.fatStart + cluster * 2) value := by
  rw [fat16SetCluster, wr16, fat16FatOff_eq l usable.lt_word]
  exact wr_value l img usable.fatEntry_fits

theorem fat16ClusterOff_usable : fat16ClusterOff l cluster = l.clusterStart cluster := by
  have size := l.imgSize_le
  have inside := usable.clusterEnd_le
  have large := l.le_bytesPerCluster
  have two := usable.1
  have number : (2 ^ 32 - 2 + cluster) % 2 ^ 32 = cluster - 2 := by
    have word := usable.lt_word
    omega
  have sectors := l.clusterStart_eq cluster
  have lba : fat16ClusterLba l cluster = l.dataLba + (cluster - 2) * l.sectorsPerCluster := by
    rw [fat16ClusterLba, number]
    exact Nat.mod_eq_of_lt (by omega)
  rw [fat16ClusterOff, lba, l.bytesPerSector_eq, ← sectors]
  exact Nat.mod_eq_of_lt (by omega)

end Values

end MiniOS.Fat16
