import MiniOS.Fat16SlotUpdate

/-!
# Searching, creating and removing entries

The searches of the driver go through the slots of one directory in order.
Creating a file fills the first free slot, and removing one frees its chain and
marks the slot; on a well-formed volume each of them changes one slot.
-/

namespace MiniOS.Fat16

open TracedAccess Traced

variable {l : Layout} {img img' : Bytes} {directory : Nat}

def nameOf (img : Bytes) (e : Nat) : CString := fat16FormatName (slice img e 11)

def Named (img : Bytes) (name : CString) (e : Nat) : Prop :=
  Live img e ∧ fat16NameEq (nameOf img e) name = true

/-- The slots before `index` exist and satisfy a predicate. -/
def Passed (l : Layout) (img : Bytes) (directory index : Nat) (passes : Nat → Prop) : Prop :=
  ∀ earlier < index, ∃ e, slotAt l img directory earlier = some e ∧ passes e

variable {index e slot : Nat} {old : List Nat}

theorem Passed.next {passes : Nat → Prop} (passed : Passed l img directory index passes)
    (found : slotAt l img directory index = some e) (holds : passes e) :
    Passed l img directory (index + 1) passes := by
  intro earlier less
  rcases Nat.lt_succ_iff_lt_or_eq.mp less with before | rfl
  · exact passed earlier before
  · exact ⟨e, found, holds⟩

/-- What `findEntry` returns when it finds an entry. -/
structure FoundEntry (l : Layout) (img : Bytes) (directory : Nat) (name : CString) (e index : Nat) :
    Prop where
  slot : slotAt l img directory index = some e
  named : Named img name e
  earlier : Passed l img directory index fun before => img before ≠ 0 ∧ ¬ Named img name before

/-- Why `findEntry` finds nothing: every slot before some index has another name,
and the search ends there. -/
structure NotFound (l : Layout) (img : Bytes) (directory : Nat) (name : CString) (index : Nat) :
    Prop where
  earlier : Passed l img directory index fun before => img before ≠ 0 ∧ ¬ Named img name before
  ends : index = maxDirSlots ∨ slotAt l img directory index = none ∨
    ∃ e, slotAt l img directory index = some e ∧ img e = 0

variable {name : CString} {place : Nat}

theorem Passed.le_of_named (passed : Passed l img directory index fun before =>
      img before ≠ 0 ∧ ¬ Named img name before)
    (atPlace : slotAt l img directory place = some e) (named : Named img name e) : index ≤ place := by
  refine Nat.le_of_not_lt fun less => ?_
  obtain ⟨before, atBefore, -, notNamed⟩ := passed place less
  obtain rfl := Option.some.inj (atPlace.symm.trans atBefore)
  exact notNamed named

theorem FoundEntry.unique {other : Nat} (found : FoundEntry l img directory name e index)
    (again : FoundEntry l img directory name other place) : e = other := by
  obtain rfl := Nat.le_antisymm (found.earlier.le_of_named again.slot again.named)
    (again.earlier.le_of_named found.slot found.named)
  exact Option.some.inj (found.slot.symm.trans again.slot)

theorem NotFound.not_found (notFound : NotFound l img directory name index)
    (bound : place < maxDirSlots) : ¬ FoundEntry l img directory name e place := by
  intro found
  have before := notFound.earlier.le_of_named found.slot found.named
  obtain ⟨last, atLast, nonzero⟩ : ∃ last, slotAt l img directory index = some last ∧
      img last ≠ 0 := by
    rcases Nat.eq_or_lt_of_le before with rfl | after
    · exact ⟨e, found.slot, found.named.1.first_ne_zero⟩
    · obtain ⟨passed, atPassed, nonzero, -⟩ := found.earlier index after
      exact ⟨passed, atPassed, nonzero⟩
  rcases notFound.ends with atLimit | missing | ⟨stop, atStop, zero⟩
  · omega
  · exact nomatch atLast.symm.trans missing
  · obtain rfl := Option.some.inj (atLast.symm.trans atStop)
    exact nonzero zero

theorem entryKind_stop_iff : (fat16EntryKind img e).value = .stop ↔ img e = 0 := by
  simp only [fat16EntryKind, peek, value_bind, value_ite, value_touch, value_pure]
  by_cases zero : img e = 0
  · simp [zero]
  · simp only [zero, if_false, iff_false]
    split
    · simp
    split
    · simp
    split
    · simp
    split <;> simp

variable {remaining logical : Nat}

theorem findEntry_value (bound : logical + remaining = maxDirSlots)
    (earlier : Passed l img directory logical fun before =>
      img before ≠ 0 ∧ ¬ Named img name before) :
    match (findEntry l img directory name remaining logical).value with
    | some (e, found) => found = nameOf img e ∧ ∃ index < maxDirSlots,
        FoundEntry l img directory name e index
    | none => ∃ index ≤ maxDirSlots, NotFound l img directory name index := by
  induction remaining generalizing logical with
  | zero => exact ⟨logical, by omega, earlier, Or.inl (by omega)⟩
  | succ remaining ih =>
    rw [findEntry]
    simp only [value_bind]
    cases found : slotAt l img directory logical with
    | none =>
      rw [slotAt] at found
      rw [found]
      exact ⟨logical, by omega, earlier, Or.inr (Or.inl (by rw [slotAt, found]))⟩
    | some e =>
      have pointer : (fat16EntryPtr l img directory logical).value = some e := found
      rw [pointer]
      simp only [value_bind]
      cases kind : (fat16EntryKind img e).value with
      | stop =>
        exact ⟨logical, by omega, earlier, Or.inr (Or.inr ⟨e, found, entryKind_stop_iff.mp kind⟩)⟩
      | skip =>
        have nonzero : img e ≠ 0 := by
          intro zero
          rw [entryKind_stop_iff.mpr zero] at kind
          simp at kind
        have notLive : ¬ Live img e := by
          rw [Live, kind]
          simp
        exact ih (by omega) (earlier.next found ⟨nonzero, fun named => notLive named.1⟩)
      | live =>
        have live : Live img e := kind
        have nameValue : (entryName img e).value = nameOf img e := rfl
        simp only [value_bind, value_ite, nameValue]
        by_cases same : fat16NameEq (nameOf img e) name = true
        · rw [if_pos same]
          exact ⟨rfl, logical, by omega, found, ⟨live, same⟩, earlier⟩
        · rw [if_neg same]
          exact ih (by omega)
            (earlier.next found ⟨live.first_ne_zero, fun named => same named.2⟩)

theorem findEntry_from_start (l : Layout) (img : Bytes) (directory : Nat) (name : CString) :
    match (findEntry l img directory name maxDirSlots 0).value with
    | some (e, found) => found = nameOf img e ∧ ∃ index < maxDirSlots,
        FoundEntry l img directory name e index
    | none => ∃ index ≤ maxDirSlots, NotFound l img directory name index :=
  findEntry_value (Nat.zero_add maxDirSlots) (by intro earlier less; omega)

/-- A slot in which `fat16_vfs_create` may place a file. -/
def FreeSlot (img : Bytes) (e : Nat) : Prop := img e = 0 ∨ img e = deletedMark

theorem FreeSlot.not_live (free : FreeSlot img e) : ¬ Live img e :=
  fun live => free.elim live.first_ne_zero live.first_ne_deleted

theorem freeSlotLoop_value (earlier : Passed l img directory logical fun before => ¬ FreeSlot img before)
    (returned : (freeSlotLoop l img directory remaining logical).value = some slot) :
    ∃ index < logical + remaining, slotAt l img directory index = some slot ∧ FreeSlot img slot ∧
      Passed l img directory index fun before => ¬ FreeSlot img before := by
  induction remaining generalizing logical with
  | zero => simp [freeSlotLoop] at returned
  | succ remaining ih =>
    rw [freeSlotLoop] at returned
    simp only [value_bind] at returned
    cases found : slotAt l img directory logical with
    | none =>
      rw [slotAt] at found
      rw [found] at returned
      simp at returned
    | some e =>
      have pointer : (fat16EntryPtr l img directory logical).value = some e := found
      rw [pointer] at returned
      simp only [value_bind, value_ite, value_pure, peek, value_touch] at returned
      split at returned
      case isTrue free =>
        cases returned
        exact ⟨logical, by omega, found, free, earlier⟩
      case isFalse taken =>
        obtain ⟨index, within, rest⟩ := ih (earlier.next found taken) returned
        exact ⟨index, by omega, rest⟩

/-- A slot belongs to one directory, at one place. -/
theorem WellFormed.slot_unique (wellFormed : WellFormed l img) {directory' index' : Nat}
    (reached : Directory l img directory) (reached' : Directory l img directory')
    (found : slotAt l img directory index = some e)
    (found' : slotAt l img directory' index' = some e) : directory = directory' ∧ index = index' := by
  have inRoot : ∀ {i}, slotAt l img 0 i = some e → e = l.rootStart + i * 32 ∧ e < l.dataStart := by
    intro i atRoot
    rw [slotAt_root] at atRoot
    split at atRoot
    case isTrue inside =>
      rw [Option.some.injEq] at atRoot
      have root := l.rootStart_add_le
      omega
    case isFalse => simp at atRoot
  have inData : ∀ {first i clusters}, Chain l img first clusters → slotAt l img first i = some e →
      ∃ cluster, clusters[i / (l.bytesPerCluster / 32)]? = some cluster ∧
        e = slotInCluster l i cluster ∧ InCluster l cluster e ∧ l.dataStart ≤ e := by
    intro first i clusters chain atChain
    rw [slotAt_chain chain, Option.map_eq_some_iff] at atChain
    obtain ⟨cluster, member, rfl⟩ := atChain
    have within := slotInCluster_le l i cluster
    have inside : InCluster l cluster (slotInCluster l i cluster) :=
      ⟨Nat.le_add_right _ _, by omega⟩
    exact ⟨cluster, member, rfl, inside, le_of_inCluster inside⟩
  rcases wellFormed.directory_cases reached with rfl | ⟨owner, clusters, entry, isDirectory, rfl, chain⟩
  · obtain ⟨atRoot, below⟩ := inRoot found
    rcases wellFormed.directory_cases reached' with rfl | ⟨owner', clusters', -, -, rfl, chain'⟩
    · obtain ⟨atRoot', -⟩ := inRoot found'
      exact ⟨rfl, by omega⟩
    · obtain ⟨-, -, -, -, above⟩ := inData chain' found'
      omega
  · obtain ⟨cluster, member, place, inside, above⟩ := inData chain found
    rcases wellFormed.directory_cases reached' with rfl | ⟨owner', clusters', entry', -, rfl, chain'⟩
    · obtain ⟨-, below⟩ := inRoot found'
      omega
    · obtain ⟨cluster', member', place', inside', -⟩ := inData chain' found'
      have same : cluster = cluster' := inCluster_unique
        (chain.usable _ (List.mem_of_getElem? member))
        (chain'.usable _ (List.mem_of_getElem? member')) inside inside'
      subst same
      have sameOwner : owner = owner' := by
        by_contra different
        exact wellFormed.disjoint owner owner' _ _ entry entry' different (Or.inr chain)
          (Or.inr chain') (List.mem_of_getElem? member) (List.mem_of_getElem? member')
      subst sameOwner
      rw [chain'.unique chain] at member'
      have samePosition := (List.getElem?_inj (List.getElem?_eq_some_iff.mp member).1
        chain.distinct).mp (member.trans member'.symm)
      have sameRest : index % (l.bytesPerCluster / 32) = index' % (l.bytesPerCluster / 32) := by
        rw [place, slotInCluster, slotInCluster] at place'
        omega
      refine ⟨rfl, ?_⟩
      rw [← Nat.div_add_mod index (l.bytesPerCluster / 32), samePosition, sameRest, Nat.div_add_mod]

/-- The image after `fat16_vfs_create` has filled a slot. -/
def filled (img : Bytes) (slot : Nat) (name : List UInt8) : Bytes :=
  let cleared := overwrite img slot 32 fun _ => 0
  let named := overwrite cleared slot 11 (name.getD · 0)
  let marked := overwrite named (slot + 11) 1 fun _ => dirAttrFile
  setField (setField marked 2 (slot + 26) 0) 4 (slot + 28) 0

section Filling

variable {slot : Nat} {name : List UInt8}

theorem fillSlot_value (inside : slot + 32 ≤ l.imgSize) :
    (fillSlot l img slot name).value = filled img slot name := by
  simp only [fillSlot, wr16, wr32, value_bind, value_touch]
  rw [wr_value l _ (by omega), wr_value l _ (by omega)]
  rfl

theorem filled_of_outside (outside : index < slot ∨ slot + 32 ≤ index) :
    filled img slot name index = img index := by
  rw [filled, setField_of_outside (by omega), setField_of_outside (by omega),
    overwrite_of_outside (by omega), overwrite_of_outside (by omega),
    overwrite_of_outside (by omega)]

theorem filled_name {k : Nat} (below : k < 11) :
    filled img slot name (slot + k) = name.getD k 0 := by
  rw [filled, setField_of_outside (by omega), setField_of_outside (by omega),
    overwrite_of_outside (by omega), overwrite_inside (by omega) (by omega),
    Nat.add_sub_cancel_left]

theorem filled_attributes : filled img slot name (slot + 11) = dirAttrFile := by
  rw [filled, setField_of_outside (by omega), setField_of_outside (by omega),
    overwrite_inside (by omega) (by omega)]

theorem firstCluster_filled : firstCluster (filled img slot name) slot = 0 := by
  rw [firstCluster, filled, field_setField_of_disjoint (by omega), field_setField]
  rfl

theorem fileLength_filled : fileLength (filled img slot name) slot = 0 := by
  rw [fileLength, filled, field_setField]
  rfl

theorem slice_filled (long : name.length = 11) : slice (filled img slot name) slot 11 = name := by
  have bytes : slice (filled img slot name) slot 11 = (List.range 11).map fun k => name.getD k 0 :=
    List.map_congr_left fun k member => filled_name (List.mem_range.mp member)
  rw [bytes, ← long, map_range_getD]

theorem filled_not_directory : ¬ IsDirectory (filled img slot name) slot := by
  rw [IsDirectory, filled_attributes]
  decide

/-- The entry of a new file is live unless its name begins with one of two
characters. -/
theorem filled_live_iff (head : name.getD 0 0 ≠ 0) :
    Live (filled img slot name) slot ↔ name.getD 0 0 ≠ deletedMark ∧ name.getD 0 0 ≠ dot := by
  have first : filled img slot name slot = name.getD 0 0 := filled_name (k := 0) (by omega)
  have notLong : dirAttrFile &&& dirAttrLfn ≠ dirAttrLfn := by decide
  have notVolume : dirAttrFile &&& dirAttrVolume = 0 := by decide
  simp only [Live, fat16EntryKind, peek, value_bind, value_ite, value_touch, value_pure, first,
    filled_attributes, head, if_false, notLong, notVolume, ne_eq, not_true_eq_false]
  generalize name.getD 0 0 = c
  by_cases isDeleted : c = deletedMark
  · simp [isDeleted]
  · by_cases isDot : c = dot <;> simp [isDeleted, isDot]

end Filling

variable (wellFormed : WellFormed l img)

include wellFormed

theorem WellFormed.slot_inside (isSlot : Slot l img slot) : slot + 32 ≤ l.imgSize :=
  (@WellFormed.apart l img slot wellFormed 0 [] isSlot (absurd rfl)).inside

/-- Filling the first free slot of a directory. -/
theorem WellFormed.filled {name : List UInt8}
    (reached : Directory l img directory) (found : slotAt l img directory index = some slot)
    (free : FreeSlot img slot)
    (earlier : Passed l img directory index fun before => ¬ FreeSlot img before)
    (head : name.getD 0 0 ≠ 0) :
    SlotUpdate l img (filled img slot name) slot [] [] [] where
  isSlot := ⟨directory, index, reached, found⟩
  wasFile := fun live => absurd live free.not_live
  wasNothing := fun _ => rfl
  free := by simp
  frame := fun index _ outside => filled_of_outside outside
  isFile := fun _ => by
    refine ⟨filled_not_directory, Or.inl ⟨firstCluster_filled, rfl⟩, ?_⟩
    rw [fileLength_filled]
    exact Nat.zero_le _
  isNothing := fun _ => rfl
  within := by simp
  freed := by simp
  marked := by
    rw [show Fat16.filled img slot name slot = name.getD 0 0 from filled_name (k := 0) (by omega)]
    exact head
  firstStop := by
    intro _ parent i j e parentReached less found' before zero
    obtain ⟨rfl, rfl⟩ := wellFormed.slot_unique parentReached reached found' found
    obtain ⟨e', atEarlier, taken⟩ := earlier j less
    rw [before, Option.some.injEq] at atEarlier
    exact taken (Or.inl (atEarlier ▸ zero))

variable {new clusters : List Nat}

/-- A write leaves the name and the attributes of the entry. -/
theorem Rewritten.bytes (rewritten : Rewritten l img img' e old new clusters)
    (file : FileAt l img e old) (low : e ≤ index) (high : index < e + 26) :
    img' index = img index := by
  have apart := wellFormed.apart file.entry.1 fun _ => file
  refine rewritten.frame index (fun cluster member => ?_) (by omega)
  have usable : l.Usable cluster := by
    rcases List.mem_append.mp member with inOld | inNew
    · exact file.chain.usable cluster inOld
    · exact (rewritten.free cluster inNew).1
  refine ⟨fun inTable => ?_, apart.apart cluster usable ?_ index low (by omega)⟩
  · have below := apart.table_lt usable inTable
    omega
  · exact (List.mem_append.mp member).imp_right fun inNew => (rewritten.free cluster inNew).2

theorem Rewritten.slotUpdate (rewritten : Rewritten l img img' e old new clusters)
    (file : FileAt l img e old) : SlotUpdate l img img' e old new clusters := by
  have kept : ∀ index, e ≤ index → index < e + 26 → img' index = img index :=
    fun _ => rewritten.bytes wellFormed file
  have wasLive := file.entry.2
  have sameFirst := kept e (by omega) (by omega)
  have sameAttributes := kept (e + 11) (by omega) (by omega)
  have live : Live img' e := (live_congr sameFirst sameAttributes).mpr wasLive
  have notDirectory : ¬ IsDirectory img' e := by
    rw [IsDirectory, sameAttributes]
    exact file.notDirectory
  refine ⟨file.entry.1, fun _ => file, fun notLive => absurd wasLive notLive,
    rewritten.free, fun index avoids outside => rewritten.frame index avoids (by omega),
    fun _ => ⟨notDirectory, rewritten.chain, rewritten.length⟩,
    fun notLive => absurd live notLive, ?_, ?_, ?_, fun zero => absurd zero wasLive.first_ne_zero⟩
  · rcases rewritten.grows with rfl | rfl <;> simp
  · intro cluster member outside
    rcases List.mem_append.mp member with inOld | inNew
    · rcases rewritten.grows with rfl | rfl
      · exact absurd inOld outside
      · exact absurd (List.mem_append_left new inOld) outside
    · exact rewritten.freed cluster inNew outside
  · rw [sameFirst]
    exact wasLive.first_ne_zero

omit wellFormed

def deleted (img : Bytes) (e : Nat) : Bytes := overwrite img e 1 fun _ => deletedMark

theorem deleted_self (img : Bytes) (e : Nat) : deleted img e e = deletedMark :=
  overwrite_inside (by omega) (by omega)

theorem Freed.slotUpdate (freed : Freed l img img' old)
    (wellFormed : WellFormed l img) (file : FileAt l img e old) :
    SlotUpdate l img (deleted img' e) e old [] [] := by
  have apart := wellFormed.apart file.entry.1 fun _ => file
  have notLive : ¬ Live (deleted img' e) e := fun live =>
    live.first_ne_deleted (deleted_self img' e)
  refine ⟨file.entry.1, fun _ => file, fun dead => absurd file.entry.2 dead, by simp,
    fun index avoids outside => ?_, fun live => absurd live notLive, fun _ => rfl, by simp,
    fun cluster member _ => ?_, ?_, fun zero => absurd zero file.entry.2.first_ne_zero⟩
  · rw [deleted, overwrite_of_outside (by omega)]
    exact freed.frame index fun cluster member => (avoids cluster (by simpa using member)).1
  · rw [List.append_nil] at member
    rw [← freed.zero cluster member]
    refine fatEntry_congr fun index inTable => overwrite_of_outside ?_
    have below := apart.table_lt (file.chain.usable cluster member) inTable
    omega
  · rw [deleted_self]
    decide

end MiniOS.Fat16
