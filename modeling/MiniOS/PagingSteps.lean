import MiniOS.PagingFrames

/-!
# What a paging operation can do

One case lemma for each operation on user address spaces.  Every operation
leaves the state alone, runs out of memory, or changes the entry of one holder
in one of four ways: filling it, releasing it, breaking its sharing, or copying
it into a child.
-/

namespace MiniOS.Paging

open PhysicalMemory KernelHeap PagingState

variable {st st' : PagingState}

def target (ptr : SpacePtr) (vaddr : Nat) : Option Holder :=
  match ptr with
  | .null | .kernel => none
  | .user id => (userPte vaddr).map fun slot => (id, slot)

/-- The entry that `paging_share_page` may fill: shared regions lie in the first
table. -/
def shareTarget (ptr : SpacePtr) (vaddr : Nat) : Option Holder :=
  if vaddr < 0x400000 then target ptr vaddr else none

/-- A vacant entry receives a zeroed frame, unless memory runs out. -/
def Fills (st : PagingState) (holder : Holder) (shared : Bool) (st' : PagingState) : Prop :=
  st' = { st with outOfMemory := true } ∨
    ∃ frame pmm, Grants st.pmm 1 frame pmm ∧
      st' = (zeroFrame { st with pmm := pmm } frame).setEntry holder.1 holder.2
        (mappedEntry frame shared)

/-- A read-only entry becomes writable: its page is copied away from the other
holders, unless memory runs out, or handed to it when there are none. -/
def Breaks (st : PagingState) (holder : Holder) (frame : Nat) (st' : PagingState) : Prop :=
  (0 < st.pageRef frame ∧ st' = { st with outOfMemory := true }) ∨
  (0 < st.pageRef frame ∧ ∃ copy pmm, Grants st.pmm 1 copy pmm ∧
    st' = { copyFrame { st with pmm := pmm } copy frame with
        pageRef := Function.update st.pageRef frame (st.pageRef frame - 1) }.setEntry
      holder.1 holder.2
      { st.entry holder.1 holder.2 with frame := copy, rw := true }) ∨
  (st.pageRef frame = 0 ∧
    st' = st.setEntry holder.1 holder.2 { st.entry holder.1 holder.2 with rw := true })

variable {holder : Holder}

theorem mapped_iff :
    ((st.entry holder.1 holder.2).present && (st.entry holder.1 holder.2).user) = true ↔
      st.frameOf holder ≠ none := by
  simp only [frameOf, PageEntry.userFrame]
  split <;> simp_all

theorem frameOf_of_mapped (mapped : ((st.entry holder.1 holder.2).present &&
      (st.entry holder.1 holder.2).user) = true) :
    st.frameOf holder = some (st.entry holder.1 holder.2).frame :=
  PageEntry.userFrame_of_mapped mapped

variable {ptr : SpacePtr} {vaddr : Nat}

theorem target_eq_some :
    target ptr vaddr = some holder ↔ ptr = .user holder.1 ∧ userPte vaddr = some holder.2 := by
  obtain ⟨id, slot⟩ := holder
  cases ptr with
  | null | kernel => simp [target]
  | user other => cases place : userPte vaddr <;> simp [target, place]

theorem target_eq_none (missing : target ptr vaddr = none) :
    ptr = .null ∨ ptr = .kernel ∨ ∃ id, ptr = .user id ∧ userPte vaddr = none := by
  cases ptr <;> simp_all [target]

/-- What the two functions that map a page do with its entry. -/
def fillEntry (st : PagingState) (place : Option Holder) (shared : Bool) : PagingState :=
  match place with
  | none => st
  | some (id, slot) =>
    if (st.spaces id).isNone then st
    else if (st.entry id slot).present && (st.entry id slot).user then st
    else
      match allocBlock st with
      | (none, st) => st
      | (some addr, st) =>
        (zeroFrame st (addr / pmmBlockSize)).setEntry id slot
          (mappedEntry (addr / pmmBlockSize) shared)

theorem fillEntry_cases (place : Option Holder) (shared : Bool) :
    ((∀ holder, place = some holder → st.Live holder.1 → st.frameOf holder ≠ none) ∧
      fillEntry st place shared = st) ∨
    ∃ holder, place = some holder ∧ st.Live holder.1 ∧ st.frameOf holder = none ∧
      Fills st holder shared (fillEntry st place shared) := by
  cases place with
  | none => exact Or.inl ⟨by simp, rfl⟩
  | some holder =>
    by_cases dead : (st.spaces holder.1).isNone = true
    · refine Or.inl ⟨?_, by simp [fillEntry, dead]⟩
      rintro _ ⟨⟩ live
      exact (not_isNone_iff_live.mpr live dead).elim
    · by_cases mapped :
          ((st.entry holder.1 holder.2).present && (st.entry holder.1 holder.2).user) = true
      · refine Or.inl ⟨?_, by simp only [fillEntry, dead, mapped]; rfl⟩
        rintro _ ⟨⟩ _
        exact mapped_iff.mp mapped
      · refine Or.inr ⟨holder, rfl, not_isNone_iff_live.mp dead,
          PageEntry.userFrame_of_unmapped mapped, ?_⟩
        simp only [fillEntry, dead, mapped]
        rcases allocBlock_cases st with refused | ⟨frame, pmm, granted, grants⟩
        · rw [refused]
          exact Or.inl rfl
        · rw [granted]
          exact Or.inr ⟨frame, pmm, grants, by simp [blockNumber_mul]⟩

variable (st : PagingState)

theorem pagingMapUserPage_eq (ptr : SpacePtr) (vaddr : Nat) :
    (pagingMapUserPage st ptr vaddr).2 = fillEntry st (target ptr vaddr) false := by
  unfold pagingMapUserPage fillEntry target
  cases ptr with
  | null | kernel => rfl
  | user id =>
    cases userPte vaddr with
    | none => exact (apply_ite Prod.snd ..).trans (ite_self st)
    | some slot =>
      rw [apply_ite Prod.snd, apply_ite Prod.snd]
      rcases allocBlock st with ⟨_ | addr, after⟩ <;> rfl

/-- Shared regions lie in the first table. -/
theorem pagingSharePage_eq (vaddr : Nat) :
    (pagingSharePage st vaddr).2 = fillEntry st (shareTarget st.active vaddr) true := by
  unfold pagingSharePage fillEntry shareTarget target
  cases st.active with
  | null | kernel => simp
  | user id =>
    by_cases low : vaddr < 0x400000
    · simp only [low, userPte, dif_pos, if_true, Option.map_some]
      rw [apply_ite Prod.snd, apply_ite Prod.snd]
      rcases allocBlock st with ⟨_ | addr, after⟩ <;> rfl
    · simp only [low, dif_neg, if_false, not_false_eq_true]
      exact (apply_ite Prod.snd ..).trans (ite_self st)

theorem pagingUnmapUserPage_cases (ptr : SpacePtr) (vaddr : Nat) :
    ((∀ holder, target ptr vaddr = some holder → st.frameOf holder = none) ∧
      pagingUnmapUserPage st ptr vaddr = st) ∨
    ∃ holder frame, target ptr vaddr = some holder ∧ st.frameOf holder = some frame ∧
      pagingUnmapUserPage st ptr vaddr =
        (releaseFrame st frame).setEntry holder.1 holder.2 .absent := by
  unfold pagingUnmapUserPage
  cases found : target ptr vaddr with
  | none =>
    refine Or.inl ⟨by simp, ?_⟩
    rcases target_eq_none found with rfl | rfl | ⟨id, rfl, place⟩
    · rfl
    · rfl
    · simp only [place]
  | some holder =>
    obtain ⟨rfl, place⟩ := target_eq_some.mp found
    simp only [place]
    by_cases mapped :
        ((st.entry holder.1 holder.2).present && (st.entry holder.1 holder.2).user) = true
    · exact Or.inr ⟨holder, _, rfl, frameOf_of_mapped mapped, by simp [mapped]⟩
    · refine Or.inl ⟨?_, by simp [mapped]⟩
      rintro _ ⟨⟩
      exact PageEntry.userFrame_of_unmapped mapped

theorem pagingTryCow_cases (vaddr : Nat) :
    ((∀ holder, target st.active vaddr = some holder → st.frameOf holder ≠ none →
        (st.entry holder.1 holder.2).rw = true) ∧
      pagingTryCow st vaddr = (false, st)) ∨
    ∃ holder frame, target st.active vaddr = some holder ∧ st.frameOf holder = some frame ∧
      (st.entry holder.1 holder.2).rw = false ∧
      Breaks st holder frame (pagingTryCow st vaddr).2 ∧
      ((pagingTryCow st vaddr).1 = false →
        (pagingTryCow st vaddr).2 = { st with outOfMemory := true }) := by
  unfold pagingTryCow
  cases found : target st.active vaddr with
  | none =>
    refine Or.inl ⟨by simp, ?_⟩
    rcases target_eq_none found with current | current | ⟨id, current, place⟩
    · simp only [current]
    · simp only [current]
    · simp only [current, place]
  | some holder =>
    obtain ⟨current, place⟩ := target_eq_some.mp found
    simp only [current, place]
    cases taken : (!(st.entry holder.1 holder.2).present || !(st.entry holder.1 holder.2).user ||
        (st.entry holder.1 holder.2).rw) with
    | true =>
      refine Or.inl ⟨?_, by simp only [if_true]⟩
      rintro _ ⟨⟩ present
      have mapped := mapped_iff.mpr present
      rw [Bool.and_eq_true] at mapped
      simpa [mapped] using taken
    | false =>
      simp only [Bool.or_eq_false_iff, Bool.not_eq_false'] at taken
      obtain ⟨mapped, readOnly⟩ := taken
      rw [← Bool.and_eq_true] at mapped
      refine Or.inr ⟨holder, _, rfl, frameOf_of_mapped mapped, readOnly, ?_⟩
      by_cases shared : 0 < st.pageRef (st.entry holder.1 holder.2).frame
      · simp only [Bool.false_eq_true, if_false, shared, if_true]
        rcases allocBlock_cases st with refused | ⟨frame, pmm, granted, grants⟩
        · rw [refused]
          exact ⟨Or.inl ⟨shared, rfl⟩, fun _ => by rw [← current]⟩
        · rw [granted]
          exact ⟨Or.inr (Or.inl ⟨shared, frame, pmm, grants, by
            simp [copyFrame]⟩), by simp⟩
      · simp only [Bool.false_eq_true, if_false, shared]
        exact ⟨Or.inr (Or.inr ⟨Nat.eq_zero_of_not_pos shared, rfl⟩), by simp⟩

theorem userStore_cases (vaddr : Nat) (byte : UInt8) :
    ((∀ holder, target st.active vaddr = some holder → st.frameOf holder = none) ∧
      userStore st vaddr byte = st) ∨
    (∃ holder frame, target st.active vaddr = some holder ∧ st.frameOf holder = some frame ∧
      (st.entry holder.1 holder.2).rw = true ∧
      userStore st vaddr byte = st.storeByte frame (vaddr % 0x1000) byte) ∨
    ∃ holder frame broken, target st.active vaddr = some holder ∧
      st.frameOf holder = some frame ∧ (st.entry holder.1 holder.2).rw = false ∧
      Breaks st holder frame broken ∧
      (userStore st vaddr byte = { st with outOfMemory := true } ∨
        userStore st vaddr byte =
          broken.storeByte (broken.entry holder.1 holder.2).frame (vaddr % 0x1000) byte) := by
  unfold userStore
  have cow := pagingTryCow_cases st vaddr
  cases found : target st.active vaddr with
  | none =>
    refine Or.inl ⟨by simp, ?_⟩
    rcases target_eq_none found with current | current | ⟨id, current, place⟩
    · simp only [current]
    · simp only [current]
    · simp only [current, place]
  | some holder =>
    obtain ⟨current, place⟩ := target_eq_some.mp found
    rw [found] at cow
    simp only [current, place]
    by_cases mapped :
        ((st.entry holder.1 holder.2).present && (st.entry holder.1 holder.2).user) = true
    · right
      by_cases writable : (st.entry holder.1 holder.2).rw = true
      · exact Or.inl ⟨holder, _, rfl, frameOf_of_mapped mapped, writable,
          by simp only [mapped, writable, if_true]⟩
      · right
        rcases cow with ⟨skips, -⟩ | ⟨_, frame, ⟨⟩, points, readOnly, breaks, fails⟩
        · exact (writable (skips holder rfl (mapped_iff.mp mapped))).elim
        · refine ⟨holder, frame, _, rfl, points, readOnly, breaks, ?_⟩
          simp only [mapped, writable]
          cases outcome : pagingTryCow st vaddr with
          | mk handled broken =>
            rw [outcome] at fails
            cases handled with
            | false =>
              left
              rw [← current]
              exact fails rfl
            | true => exact Or.inr rfl
    · refine Or.inl ⟨?_, by simp [mapped]⟩
      rintro _ ⟨⟩
      exact PageEntry.userFrame_of_unmapped mapped

/-- Creating a space obtains the object and then three frames; if any of them
is missing, the others go back. -/
theorem pagingCreateUserAddressSpace_cases : ∃ object first, allocObject st = (object, first) ∧
    ((object = none ∧ pagingCreateUserAddressSpace st = (none, first)) ∨
    ∃ base directory second firstTable third extTable last,
      object = some base ∧ allocBlock first = (directory, second) ∧
      allocBlock second = (firstTable, third) ∧ allocBlock third = (extTable, last) ∧
      (((directory = none ∨ firstTable = none ∨ extTable = none) ∧
        pagingCreateUserAddressSpace st =
          (none, freeObject (freeObtained (freeObtained (freeObtained last directory)
            firstTable) extTable) base)) ∨
      ∃ directoryAddr firstAddr extAddr,
        directory = some directoryAddr ∧ firstTable = some firstAddr ∧
        extTable = some extAddr ∧
        pagingCreateUserAddressSpace st = (some last.nextSpace,
          { last with
            spaces := Function.update last.spaces last.nextSpace (some
              { object := base
                directory := directoryAddr / pmmBlockSize
                firstTable := firstAddr / pmmBlockSize
                extTable := extAddr / pmmBlockSize
                pte := freshTables })
            nextSpace := last.nextSpace + 1
            userSpaceCount := last.userSpaceCount + 1 }))) := by
  unfold pagingCreateUserAddressSpace
  rcases allocObject st with ⟨object, first⟩
  refine ⟨object, first, rfl, ?_⟩
  cases object with
  | none => exact Or.inl ⟨rfl, rfl⟩
  | some base =>
    right
    rcases one : allocBlock first with ⟨directory, second⟩
    rcases two : allocBlock second with ⟨firstTable, third⟩
    rcases three : allocBlock third with ⟨extTable, last⟩
    refine ⟨base, directory, second, firstTable, third, extTable, last, rfl, rfl, two, three, ?_⟩
    simp only [one, two, three]
    cases directory with
    | none => exact Or.inl ⟨by simp, rfl⟩
    | some directoryAddr =>
      cases firstTable with
      | none => exact Or.inl ⟨by simp, rfl⟩
      | some firstAddr =>
        cases extTable with
        | none => exact Or.inl ⟨by simp, rfl⟩
        | some extAddr =>
          exact Or.inr ⟨directoryAddr, firstAddr, extAddr, rfl, rfl, rfl, rfl⟩

/-- The slots of a space in the order of the clone and destruction loops. -/
def allSlots : List Slot := tableSlots .first ++ tableSlots .ext

theorem mem_allSlots (slot : Slot) : slot ∈ allSlots := by
  obtain ⟨table, index⟩ := slot
  cases table <;> simp [allSlots, tableSlots]

theorem allSlots_nodup : allSlots.Nodup := by
  refine List.nodup_append.mpr ⟨?_, ?_, ?_⟩
  · exact (List.nodup_finRange 1024).map fun index other same => (Prod.mk.inj same).2
  · exact (List.nodup_finRange 1024).map fun index other same => (Prod.mk.inj same).2
  · intro slot first other second same
    simp only [tableSlots, List.mem_map] at first second
    obtain ⟨index, -, rfl⟩ := first
    obtain ⟨index', -, rfl⟩ := second
    simp at same

theorem pagingCloneAddressSpace_cases (st : PagingState) (parent : SpacePtr) :
    (pagingCloneAddressSpace st parent = (none, st) ∧ parent ≠ .kernel ∧
      ∀ id, parent = .user id → ¬ st.Live id) ∨
    (parent = .kernel ∧ pagingCloneAddressSpace st parent = pagingCreateUserAddressSpace st) ∨
    ∃ id, parent = .user id ∧ st.Live id ∧
      ∀ result created, pagingCreateUserAddressSpace st = (result, created) →
        pagingCloneAddressSpace st parent = (result, match result with
          | none => created
          | some child => allSlots.foldl (cowCloneEntry id child) created) := by
  unfold pagingCloneAddressSpace
  cases parent with
  | null => exact Or.inl ⟨rfl, by simp, by simp⟩
  | kernel => exact Or.inr (Or.inl ⟨rfl, rfl⟩)
  | user id =>
    by_cases dead : (st.spaces id).isNone = true
    · left
      refine ⟨by simp only [dead, if_true], by simp, ?_⟩
      rintro _ ⟨⟩ live
      exact not_isNone_iff_live.mpr live dead
    · right
      right
      refine ⟨id, rfl, not_isNone_iff_live.mp dead, ?_⟩
      intro result created resultEq
      simp only [dead, resultEq, Bool.false_eq_true, if_false]
      cases result with
      | none => rfl
      | some child =>
        simp only [pagingCowCloneTable, allSlots, List.foldl_append]

theorem pagingActivateAddressSpace_eq (st : PagingState) (ptr : SpacePtr) :
    pagingActivateAddressSpace st ptr =
      { st with
        active := match ptr with
          | .null | .kernel => .kernel
          | .user id => if (st.spaces id).isNone then .kernel else .user id } := by
  unfold pagingActivateAddressSpace
  cases ptr with
  | null | kernel => rfl
  | user id => cases dead : (st.spaces id).isNone <;> simp [dead]

theorem pagingDestroyUserAddressSpace_cases (st : PagingState) (ptr : SpacePtr) :
    ((∀ id, ptr = .user id → ¬ st.Live id) ∧ pagingDestroyUserAddressSpace st ptr = st) ∨
    ∃ id space, ptr = .user id ∧ st.spaces id = some space ∧
      pagingDestroyUserAddressSpace st ptr =
        freeSpace id space (allSlots.foldl (destroyEntry id)
          { st with active := if ptr = st.active then .kernel else st.active }) := by
  unfold pagingDestroyUserAddressSpace
  cases ptr with
  | null | kernel => exact Or.inl ⟨by simp, rfl⟩
  | user id =>
    cases present : st.spaces id with
    | none =>
      left
      refine ⟨?_, by simp only [present]⟩
      rintro _ ⟨⟩ live
      simp [Live, present] at live
    | some space =>
      right
      refine ⟨id, space, rfl, present, ?_⟩
      have selected : (if SpacePtr.user id = st.active then { st with active := .kernel }
          else st) =
          { st with
            active := if SpacePtr.user id = st.active then .kernel else st.active } := by
        split <;> rfl
      simp only [present, selected, allSlots]

end MiniOS.Paging
