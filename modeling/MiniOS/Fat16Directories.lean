import MiniOS.Fat16Write

/-!
# Well-formed volumes

The directories of a volume form a tree of slots.  A volume is well-formed when
the entries in these slots own disjoint chains that together account for every
cluster in use.  Creating, writing and removing a file all change one slot and
clusters that are free or belong to that slot; such a change keeps a volume
well-formed.
-/

namespace MiniOS.Fat16

open TracedAccess Traced

variable {l : Layout} {img img' : Bytes}

/-- The entry describes a file or a directory: `fat16_entry_kind` returns 1. -/
def Live (img : Bytes) (e : Nat) : Prop := (fat16EntryKind img e).value = .live

instance (e : Nat) : Decidable (Live img e) :=
  inferInstanceAs (Decidable (_ = _))

def IsDirectory (img : Bytes) (e : Nat) : Prop := img (e + 11) &&& dirAttrDir ≠ 0

instance (e : Nat) : Decidable (IsDirectory img e) :=
  inferInstanceAs (Decidable (_ ≠ _))

def firstCluster (img : Bytes) (e : Nat) : Nat := field img 2 (e + 26)

def fileLength (img : Bytes) (e : Nat) : Nat := field img 4 (e + 28)

def slotAt (l : Layout) (img : Bytes) (directory index : Nat) : Option Nat :=
  (fat16EntryPtr l img directory index).value

/-- The directories that can be reached from the root, by their first clusters. -/
inductive Directory (l : Layout) (img : Bytes) : Nat → Prop
  | root : Directory l img 0
  | sub {directory index e : Nat} (parent : Directory l img directory)
      (slot : slotAt l img directory index = some e) (live : Live img e)
      (isDirectory : IsDirectory img e) : Directory l img (firstCluster img e)

def Slot (l : Layout) (img : Bytes) (e : Nat) : Prop :=
  ∃ directory index, Directory l img directory ∧ slotAt l img directory index = some e

def Entry (l : Layout) (img : Bytes) (e : Nat) : Prop := Slot l img e ∧ Live img e

def badCluster : Nat := 0xFFF7

structure WellFormed (l : Layout) (img : Bytes) : Prop where
  chains : ∀ e, Entry l img e → ∃ clusters, FileChain l img (firstCluster img e) clusters ∧
    (IsDirectory img e → clusters ≠ []) ∧
    (¬ IsDirectory img e → fileLength img e ≤ clusters.length * l.bytesPerCluster)
  disjoint : ∀ e e' clusters clusters', Entry l img e → Entry l img e' → e ≠ e' →
    FileChain l img (firstCluster img e) clusters →
    FileChain l img (firstCluster img e') clusters' → clusters.Disjoint clusters'
  covered : ∀ cluster, l.Usable cluster → fatEntry l img cluster ≠ 0 →
    fatEntry l img cluster ≠ badCluster → ∃ e clusters, Entry l img e ∧
      FileChain l img (firstCluster img e) clusters ∧ cluster ∈ clusters
  stops : ∀ directory i j e e', Directory l img directory → i < j →
    slotAt l img directory i = some e → slotAt l img directory j = some e' →
    img e = 0 → img e' = 0

variable {e directory : Nat}

theorem live_congr (sameFirst : img' e = img e)
    (sameAttributes : img' (e + 11) = img (e + 11)) : Live img' e ↔ Live img e := by
  simp only [Live, fat16EntryKind, peek, value_bind, value_touch, sameFirst, sameAttributes]

theorem Live.first_ne_zero (live : Live img e) : img e ≠ 0 := by
  intro zero
  simp [Live, fat16EntryKind, peek, zero] at live

theorem Live.first_ne_deleted (live : Live img e) : img e ≠ deletedMark := by
  intro deleted
  have nonzero : deletedMark ≠ 0 := by decide
  simp [Live, fat16EntryKind, peek, deleted, nonzero] at live

/-- The bounds check of `fat16_entry_ptr` on an offset in the image. -/
theorem slotAt_of_offset {index off : Nat}
    (offset : (slotOffset l img directory index).value = some off) (fits : off + 32 ≤ l.imgSize) :
    slotAt l img directory index = some off := by
  have size := l.imgSize_le
  rw [slotAt, fat16EntryPtr, value_bind, value_pure, offset, Option.filter_eq_some_iff]
  refine ⟨rfl, decide_eq_true ?_⟩
  rwa [Nat.mod_eq_of_lt (by omega)]

theorem slotAt_of_none {index : Nat} (offset : (slotOffset l img directory index).value = none) :
    slotAt l img directory index = none := by
  rw [slotAt, fat16EntryPtr, value_bind, value_pure, offset]
  rfl

theorem slotAt_root (index : Nat) : slotAt l img 0 index =
      if index < l.rootEntries then some (l.rootStart + index * 32) else none := by
  have root := l.rootStart_add_le
  have fits := l.dataStart_le
  have size := l.imgSize_le
  split
  case isTrue inside =>
    refine slotAt_of_offset ?_ (by omega)
    rw [slotOffset, if_pos rfl, if_neg (by omega), value_pure, l.bytesPerSector_eq,
      ← Layout.rootStart, Nat.mod_eq_of_lt (by omega)]
  case isFalse outside =>
    refine slotAt_of_none ?_
    rw [slotOffset, if_pos rfl, if_pos (by omega), value_pure]

def slotInCluster (l : Layout) (index cluster : Nat) : Nat :=
  l.clusterStart cluster + index % (l.bytesPerCluster / 32) * 32

theorem slotInCluster_le (l : Layout) (index cluster : Nat) :
    slotInCluster l index cluster + 32 ≤ l.clusterStart cluster + l.bytesPerCluster := by
  have within := Nat.mod_lt index l.slotsPerCluster_pos
  have slots := l.bytesPerCluster_slots
  rw [slotInCluster]
  generalize index % (l.bytesPerCluster / 32) = position at within ⊢
  omega

theorem slotAt_chain {first : Nat} {clusters : List Nat} (chain : Chain l img first clusters)
    (index : Nat) :
    slotAt l img first index =
      clusters[index / (l.bytesPerCluster / 32)]?.map (slotInCluster l index) := by
  have two := chain.first_usable.1
  have size := l.imgSize_le
  have offset : (slotOffset l img first index).value =
      clusters[index / (l.bytesPerCluster / 32)]?.map fun cluster =>
        (fat16ClusterOff l cluster + index % (l.bytesPerCluster / 32) * 32) % 2 ^ 32 := by
    rw [slotOffset, if_neg (by omega), value_bind, value_pure, chain.followLinks_value]
  cases found : clusters[index / (l.bytesPerCluster / 32)]? with
  | none =>
    rw [found] at offset
    exact slotAt_of_none offset
  | some cluster =>
    have usable := chain.usable cluster (List.mem_of_getElem? found)
    have inside := usable.clusterEnd_le
    have within := slotInCluster_le l index cluster
    rw [found, Option.map_some, fat16ClusterOff_usable usable, ← slotInCluster,
      Nat.mod_eq_of_lt (by omega)] at offset
    exact slotAt_of_offset offset (by omega)

variable (wellFormed : WellFormed l img)

include wellFormed

/-- A directory below the root has a chain. -/
theorem WellFormed.directory_cases (reached : Directory l img directory) :
    directory = 0 ∨ ∃ owner clusters, Entry l img owner ∧ IsDirectory img owner ∧
      firstCluster img owner = directory ∧ Chain l img directory clusters := by
  cases reached with
  | root => exact Or.inl rfl
  | @sub parent index e parentReached slot live isDirectory =>
    have entry : Entry l img e := ⟨⟨parent, index, parentReached, slot⟩, live⟩
    obtain ⟨clusters, chain, nonempty, -⟩ := wellFormed.chains e entry
    rcases chain with ⟨-, empty⟩ | chain
    · exact absurd empty (nonempty isDirectory)
    · exact Or.inr ⟨e, clusters, entry, isDirectory, rfl, chain⟩

/-- Where a slot lies: in the root directory, or in a cluster of a directory. -/
inductive SlotPlace (l : Layout) (img : Bytes) (e : Nat) : Prop
  | root (low : l.rootStart ≤ e) (high : e + 32 ≤ l.dataStart)
  | sub {owner cluster : Nat} {clusters : List Nat} (entry : Entry l img owner)
      (isDirectory : IsDirectory img owner)
      (chain : FileChain l img (firstCluster img owner) clusters) (member : cluster ∈ clusters)
      (low : l.clusterStart cluster ≤ e)
      (high : e + 32 ≤ l.clusterStart cluster + l.bytesPerCluster)

theorem WellFormed.slotPlace (slot : Slot l img e) : SlotPlace l img e := by
  obtain ⟨directory, index, reached, found⟩ := slot
  rcases wellFormed.directory_cases reached with rfl | ⟨owner, clusters, entry, isDirectory, rfl, chain⟩
  · rw [slotAt_root] at found
    split at found
    case isTrue inside =>
      rw [Option.some.injEq] at found
      have root := l.rootStart_add_le
      exact .root (by omega) (by omega)
    case isFalse => simp at found
  · rw [slotAt_chain chain, Option.map_eq_some_iff] at found
    obtain ⟨cluster, member, rfl⟩ := found
    exact .sub entry isDirectory (Or.inr chain) (List.mem_of_getElem? member)
      (Nat.le_add_right _ _) (slotInCluster_le l index cluster)

theorem WellFormed.slot_mod (slot : Slot l img e) : e % 32 = 0 := by
  obtain ⟨directory, index, reached, found⟩ := slot
  rcases wellFormed.directory_cases reached with rfl | ⟨owner, clusters, -, -, rfl, chain⟩
  · rw [slotAt_root] at found
    split at found
    case isTrue inside =>
      rw [Option.some.injEq, Layout.rootStart] at found
      omega
    case isFalse => simp at found
  · rw [slotAt_chain chain, Option.map_eq_some_iff] at found
    obtain ⟨cluster, -, rfl⟩ := found
    have aligned : (cluster - 2) * l.bytesPerCluster % 32 = 0 := by
      rw [← l.bytesPerCluster_slots, ← Nat.mul_assoc, Nat.mul_mod_left]
    rw [slotInCluster, Layout.clusterStart, Layout.dataStart]
    omega

/-- The entry is a file, and its chain consists of the clusters. -/
structure FileAt (l : Layout) (img : Bytes) (e : Nat) (clusters : List Nat) : Prop where
  entry : Entry l img e
  notDirectory : ¬ IsDirectory img e
  chain : FileChain l img (firstCluster img e) clusters

/-- The clusters of a directory are neither free nor in the chain of a file. -/
theorem WellFormed.apart {other : Nat} {clusters : List Nat} (slot : Slot l img e)
    (ofFile : clusters ≠ [] → FileAt l img other clusters) : Apart l img e clusters := by
  have regions := rootStart_le_dataStart l
  have fits := l.dataStart_le
  cases wellFormed.slotPlace slot with
  | root low high =>
    refine ⟨low, by omega, fun cluster _ _ index first last inside => ?_⟩
    have above := le_of_inCluster inside
    omega
  | @sub owner home homes entry isDirectory chain member low high =>
    have usable := chain.usable home member
    have above := l.dataStart_le_clusterStart home
    have inImage := usable.clusterEnd_le
    refine ⟨by omega, by omega, fun cluster clusterUsable owned index first last inside => ?_⟩
    have same : cluster = home :=
      inCluster_unique clusterUsable usable inside ⟨by omega, by omega⟩
    subst same
    rcases owned with inFile | free
    · have file := ofFile (List.ne_nil_of_mem inFile)
      have different : other ≠ owner := by
        rintro rfl
        exact file.notDirectory isDirectory
      exact wellFormed.disjoint other owner _ _ file.entry entry different file.chain chain inFile
        member
    · exact chain.entry_ne_zero member free

end MiniOS.Fat16
