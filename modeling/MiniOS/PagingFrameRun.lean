import MiniOS.KernelHeapRun
import MiniOS.PagingFrameMoves
import MiniOS.PagingSteps

/-!
# Frame ownership along a run

Each operation of the paging layer keeps the ownership invariant, whether or
not its allocations succeed, and so does every sequence of operations.
-/

namespace MiniOS.Paging

open Function PhysicalMemory KernelHeap HolderCount PagingState

variable {reserved : Set Nat} {st : PagingState}

/-- Two states with the same spaces, counters and page contents. -/
structure SameSpaces (st st' : PagingState) : Prop where
  mem : st'.mem = st.mem
  pageRef : st'.pageRef = st.pageRef
  spaces : st'.spaces = st.spaces
  nextSpace : st'.nextSpace = st.nextSpace
  active : st'.active = st.active

variable {first second third : PagingState}

theorem SameSpaces.trans (early : SameSpaces first second)
    (late : SameSpaces second third) : SameSpaces first third :=
  ⟨late.mem.trans early.mem, late.pageRef.trans early.pageRef,
    late.spaces.trans early.spaces, late.nextSpace.trans early.nextSpace,
    late.active.trans early.active⟩

/-- The second state differs from the first by one new space, still empty. -/
structure Opened (st st' : PagingState) : Prop where
  spaces : ∃ space : AddressSpace, space.pte = freshTables ∧
    st'.spaces = update st.spaces st.nextSpace (some space)
  nextSpace : st'.nextSpace = st.nextSpace + 1
  mem : st'.mem = st.mem
  pageRef : st'.pageRef = st.pageRef
  active : st'.active = st.active

/-- The frames that an operation has obtained and not yet put to use. -/
structure Transit (reserved : Set Nat) (loose : Finset Nat) (st : PagingState) : Prop where
  inv : FrameInv (reserved ∪ loose) st
  unowned : ∀ frame ∈ loose, frame ∉ reserved ∧ Unowned st frame

/-- The frame behind an address returned by `pmm_alloc_block`. -/
def obtainedFrames : Option Nat → Finset Nat
  | none => ∅
  | some addr => {addr / pmmBlockSize}

variable {st' : PagingState} {frame : Nat} {holder : Holder}

namespace Transit

variable {loose : Finset Nat}

theorem of_inv (inv : FrameInv reserved st) : Transit reserved ∅ st :=
  ⟨by simpa using inv, by simp⟩

theorem done (transit : Transit reserved ∅ st) : FrameInv reserved st := by
  simpa using transit.inv

theorem alloc {addr : Option Nat} (transit : Transit reserved loose st)
    (result : allocBlock st = (addr, st')) :
    Disjoint (obtainedFrames addr) loose ∧
      Transit reserved (obtainedFrames addr ∪ loose) st' ∧ SameSpaces st st' ∧
      st'.outOfMemory = (st.outOfMemory || addr.isNone) := by
  rcases allocBlock_cases st with refused | ⟨frame, pmm, granted, grants⟩
  · obtain ⟨rfl, rfl⟩ := Prod.mk.inj (result.symm.trans refused)
    refine ⟨by simp [obtainedFrames], ⟨?_, ?_⟩, ⟨rfl, rfl, rfl, rfl, rfl⟩, by simp⟩
    · rw [obtainedFrames, Finset.empty_union]
      exact { transit.inv with }
    · intro other member
      obtain ⟨outside, unowned⟩ := transit.unowned other (by simpa [obtainedFrames] using member)
      exact ⟨outside, { unowned with }⟩
  · obtain ⟨rfl, rfl⟩ := Prod.mk.inj (result.symm.trans granted)
    obtain ⟨inv, fresh, unowned⟩ := transit.inv.grant grants
    have frames : obtainedFrames (some (frame * pmmBlockSize)) = {frame} := by
      simp [obtainedFrames]
    refine ⟨?_, ⟨?_, ?_⟩, ⟨rfl, rfl, rfl, rfl, rfl⟩, by simp⟩
    · rw [frames, Finset.disjoint_singleton_left]
      exact fun member => fresh (Or.inr member)
    · rw [frames]
      convert inv using 1
      ext other
      simp only [Set.mem_union, Finset.coe_union, Finset.coe_singleton, Set.mem_singleton_iff,
        Set.mem_insert_iff]
      tauto
    · intro other member
      rw [frames, Finset.mem_union, Finset.mem_singleton] at member
      rcases member with rfl | member
      · exact ⟨fun inside => fresh (Or.inl inside), unowned⟩
      · obtain ⟨outside, early⟩ := transit.unowned other member
        exact ⟨outside, { early with bounded := grants.sameMax.symm ▸ early.bounded }⟩

theorem free (frame : Nat) (transit : Transit reserved loose st) (member : frame ∈ loose) :
    Transit reserved (loose.erase frame) (freeBlock st frame 0) := by
  obtain ⟨outside, unowned⟩ := transit.unowned frame member
  have allocated : Allocated st.pmm frame := transit.inv.kept frame (Or.inl (Or.inr member))
  have maxEq := (pmmFreeBlock_allocated unowned.positive unowned.bounded allocated).2
  refine ⟨?_, ?_⟩
  · refine FrameInv.giveBack ?_ ?_ unowned
    · convert transit.inv using 1
      ext other
      by_cases same : other = frame
      · simp [same, member]
      · simp [same]
    · simp [outside]
  · intro other stays
    obtain ⟨outside', unowned'⟩ := transit.unowned other (Finset.mem_of_mem_erase stays)
    exact ⟨outside', { unowned' with bounded := maxEq.symm ▸ unowned'.bounded }⟩

theorem freeAll {frames : List Nat} (transit : Transit reserved frames.toFinset st)
    (nodup : frames.Nodup) :
    FrameInv reserved (frames.foldl (fun st frame => freeBlock st frame 0) st) := by
  induction frames generalizing st with
  | nil => exact transit.done
  | cons frame rest ih =>
    obtain ⟨fresh, nodup⟩ := List.nodup_cons.mp nodup
    have freed := transit.free frame (by simp)
    rw [List.toFinset_cons, Finset.erase_insert (by simpa using fresh)] at freed
    exact ih freed nodup

theorem freeObtained (addr : Option Nat)
    (transit : Transit reserved (obtainedFrames addr ∪ loose) st)
    (apart : Disjoint (obtainedFrames addr) loose) :
    Transit reserved loose (freeObtained st addr) := by
  cases addr with
  | none => simpa [obtainedFrames, Paging.freeObtained] using transit
  | some addr =>
    rw [obtainedFrames, Finset.disjoint_singleton_left] at apart
    have freed := transit.free (addr / pmmBlockSize)
      (Finset.mem_union_left loose (Finset.mem_singleton_self _))
    rwa [obtainedFrames, Finset.singleton_union, Finset.erase_insert apart] at freed

end Transit

theorem freeObtained_sameSpaces (st : PagingState) (addr : Option Nat) :
    SameSpaces st (freeObtained st addr) ∧ (freeObtained st addr).outOfMemory = st.outOfMemory := by
  cases addr <;> exact ⟨⟨rfl, rfl, rfl, rfl, rfl⟩, rfl⟩

theorem allocObject_spec {object : Option Nat} (inv : FrameInv reserved st)
    (result : allocObject st = (object, st')) :
    FrameInv reserved st' ∧ SameSpaces st st' ∧
      st'.outOfMemory = (st.outOfMemory || object.isNone) := by
  obtain ⟨taken, takes⟩ := kmalloc_takes st.heap st.pmm 16
  rw [allocObject] at result
  generalize kmalloc st.pmm st.heap 16 = allocated at takes result
  obtain ⟨_ | base, pmm, heap⟩ := allocated
  all_goals
    obtain ⟨rfl, rfl⟩ := Prod.mk.inj result
    exact ⟨{ inv.takes takes with }, ⟨rfl, rfl, rfl, rfl, rfl⟩, by simp⟩

/-- The creation of a space holds what its three allocations returned. -/
structure Obtained (reserved : Set Nat) (directory firstTable extTable : Option Nat)
    (st : PagingState) : Prop where
  transit : Transit reserved
    (obtainedFrames extTable ∪ (obtainedFrames firstTable ∪ (obtainedFrames directory ∪ ∅))) st
  apart : Disjoint (obtainedFrames firstTable) (obtainedFrames directory ∪ ∅)
  apart' : Disjoint (obtainedFrames extTable)
    (obtainedFrames firstTable ∪ (obtainedFrames directory ∪ ∅))

/-- The failed creation gives back what it had obtained. -/
theorem Obtained.undo {directory firstTable extTable : Option Nat}
    (obtained : Obtained reserved directory firstTable extTable st) :
    FrameInv reserved
      (freeObtained (freeObtained (freeObtained st directory) firstTable) extTable) := by
  obtain ⟨transit, apart, apart'⟩ := obtained
  rw [Finset.union_empty] at transit apart apart'
  rw [Finset.disjoint_union_right] at apart'
  rw [← Finset.union_assoc, Finset.union_comm] at transit
  have one := transit.freeObtained directory
    (Finset.disjoint_union_right.mpr ⟨apart'.2.symm, apart.symm⟩)
  rw [Finset.union_comm] at one
  have two := one.freeObtained firstTable apart'.1.symm
  rw [← Finset.union_empty (obtainedFrames extTable)] at two
  exact (two.freeObtained extTable (Finset.disjoint_empty_right _)).done

theorem range_table (space : AddressSpace) :
    Set.range space.table = {space.directory, space.firstTable, space.extTable} := by
  ext frame
  simp only [Set.mem_range, Set.mem_insert_iff, Set.mem_singleton_iff]
  constructor
  · rintro ⟨kind, rfl⟩
    cases kind <;> simp [AddressSpace.table]
  · rintro (rfl | rfl | rfl)
    · exact ⟨.directory, rfl⟩
    · exact ⟨.firstTable, rfl⟩
    · exact ⟨.extTable, rfl⟩

/-- The successful creation enters its three frames as the structures of a new
space. -/
theorem Obtained.openSpace {base count directory firstTable extTable : Nat}
    (obtained : Obtained reserved (some directory) (some firstTable) (some extTable) st) :
    FrameInv reserved
      { st with
        spaces := update st.spaces st.nextSpace (some
          { object := base
            directory := directory / pmmBlockSize
            firstTable := firstTable / pmmBlockSize
            extTable := extTable / pmmBlockSize
            pte := freshTables })
        nextSpace := st.nextSpace + 1
        userSpaceCount := count } := by
  obtain ⟨transit, apart, apart'⟩ := obtained
  simp only [obtainedFrames, Finset.union_empty] at transit apart apart'
  simp only [Finset.disjoint_singleton_left, Finset.mem_union, Finset.mem_singleton,
    not_or] at apart apart'
  refine FrameInv.openSpace ?_ (fun kind => (transit.unowned _ ?_).1)
    (fun kind => (transit.unowned _ ?_).2) ?_ (fun slot => freshTables_userFrame slot)
  · convert transit.inv using 2
    rw [range_table]
    ext frame
    simp only [Finset.coe_union, Finset.coe_singleton, Set.mem_union, Set.mem_insert_iff,
      Set.mem_singleton_iff]
    tauto
  · cases kind <;> simp [AddressSpace.table]
  · cases kind <;> simp [AddressSpace.table]
  · intro kind other equal
    cases kind <;> cases other <;> simp only [AddressSpace.table] at equal <;>
      first | rfl | omega

/-- Creation either fails, and changes nothing but the allocators, or opens an
empty space under the next number. -/
theorem pagingCreateUserAddressSpace_spec (inv : FrameInv reserved st) :
    ∃ result st', pagingCreateUserAddressSpace st = (result, st') ∧ FrameInv reserved st' ∧
      ((result = none ∧ st'.outOfMemory = true ∧ SameSpaces st st') ∨
        (result = some st.nextSpace ∧ st'.outOfMemory = st.outOfMemory ∧ Opened st st')) := by
  obtain ⟨object, first, objectEq, outcome⟩ := pagingCreateUserAddressSpace_cases st
  obtain ⟨start, same0, oom0⟩ := allocObject_spec inv objectEq
  rcases outcome with ⟨rfl, result⟩ | ⟨base, directory, second, firstTable, third, extTable,
    last, rfl, oneEq, twoEq, threeEq, rest⟩
  · exact ⟨none, first, result, start, Or.inl ⟨rfl, by simp [oom0], same0⟩⟩
  obtain ⟨-, transit1, same1, oom1⟩ := (Transit.of_inv start).alloc oneEq
  obtain ⟨apart2, transit2, same2, oom2⟩ := transit1.alloc twoEq
  obtain ⟨apart3, transit3, same3, oom3⟩ := transit2.alloc threeEq
  have obtained : Obtained reserved _ _ _ last := ⟨transit3, apart2, apart3⟩
  have same := ((same0.trans same1).trans same2).trans same3
  rcases rest with ⟨missing, result⟩ | ⟨directoryAddr, firstAddr, extAddr, rfl, rfl, rfl, result⟩
  · refine ⟨none, _, result, { obtained.undo.of_sameGrants _ _ ?_ rfl with },
      Or.inl ⟨rfl, ?_, ?_⟩⟩
    · exact kfree_granted _ _
    · have failed : last.outOfMemory = true := by
        rw [oom3, oom2, oom1]
        rcases missing with rfl | rfl | rfl <;> simp
      simp [freeObject, freeObtained_sameSpaces, failed]
    · have freed := (((freeObtained_sameSpaces last directory).1.trans
        (freeObtained_sameSpaces _ firstTable).1).trans (freeObtained_sameSpaces _ extTable).1)
      exact (same.trans freed).trans ⟨rfl, rfl, rfl, rfl, rfl⟩
  · refine ⟨_, _, result, obtained.openSpace,
      Or.inr ⟨by rw [same.nextSpace], by simp [oom3, oom2, oom1, oom0], ?_⟩⟩
    exact { same with
      spaces := ⟨_, rfl, by rw [same.spaces, same.nextSpace]⟩
      nextSpace := by rw [same.nextSpace] }

/-- A step from `st` keeps the ownership invariant, and does not forget a failed
allocation. -/
def Continues (reserved : Set Nat) (st st' : PagingState) : Prop :=
  FrameInv reserved st' ∧ (st.outOfMemory = true → st'.outOfMemory = true)

variable {shared : Bool}

theorem Fills.continues (fills : Fills st holder shared st')
    (inv : FrameInv reserved st) (live : st.Live holder.1) (vacant : st.frameOf holder = none) :
    Continues reserved st st' := by
  rcases fills with rfl | ⟨frame, pmm, grants, rfl⟩
  · exact ⟨{ inv with }, fun _ => rfl⟩
  · obtain ⟨granted, fresh, unowned⟩ := inv.grant grants
    have zeroed : FrameInv (insert frame reserved) (zeroFrame { st with pmm := pmm } frame) :=
      { granted with }
    exact ⟨zeroed.attach (mappedEntry frame shared) fresh { unowned with } live
      vacant rfl rfl, fun failed => failed⟩

theorem Breaks.continues (breaks : Breaks st holder frame st') (inv : FrameInv reserved st)
    (points : st.frameOf holder = some frame)
    (readOnly : (st.entry holder.1 holder.2).rw = false) : Continues reserved st st' := by
  have mapped := PageEntry.userFrame_eq_some.mp points
  have notShared := inv.notShared_of_readOnly points readOnly
  rcases breaks with ⟨-, rfl⟩ | ⟨others, copy, pmm, grants, rfl⟩ | ⟨zero, rfl⟩
  · exact ⟨{ inv with }, fun _ => rfl⟩
  · -- The page leaves its old frame, then the copy is attached in its place.
    obtain ⟨granted, fresh, unowned⟩ := inv.grant grants
    have live : PagingState.Live { st with pmm := pmm } holder.1 := live_of_frameOf points
    have released : FrameInv (insert copy reserved)
        ((releaseFrame { st with pmm := pmm } frame).setEntry holder.1 holder.2 .absent) :=
      granted.release points rfl
    rw [granted.releaseFrame_of_shared (granted.mapped holder frame points).bounded others]
      at released
    have vacated : Unowned
        (PagingState.setEntry { st with pmm := pmm } holder.1 holder.2 .absent) copy :=
      unowned.setEntry live (by simp [PageEntry.userFrame, PageEntry.absent])
    have attached := released.attach
      { st.entry holder.1 holder.2 with frame := copy, rw := true }
      fresh { vacated with } (live_setEntry.mpr live) (frameOf_setEntry_self live)
      (PageEntry.userFrame_eq_some.mpr ⟨mapped.1, mapped.2.1, rfl⟩) rfl
    rw [setEntry_setEntry] at attached
    exact ⟨{ attached with }, fun failed => failed⟩
  · exact ⟨inv.retag points (PageEntry.userFrame_eq_some.mpr mapped) rfl
      (fun shared => by simp [notShared] at shared)
      (fun _ _ other held => inv.sole_holder points zero held), fun failed => failed⟩

/-- The spaces are the same, and no allocation has failed in between. -/
structure Kept (st st' : PagingState) : Prop where
  live : ∀ id, st'.Live id ↔ st.Live id
  nextSpace : st'.nextSpace = st.nextSpace
  active : st'.active = st.active
  outOfMemory : st'.outOfMemory = st.outOfMemory

theorem Kept.refl (st : PagingState) : Kept st st := ⟨fun _ => Iff.rfl, rfl, rfl, rfl⟩

/-- What filling a vacant entry does to the tables and the memory. -/
structure Filled (holder : Holder) (frame : Nat) (shared : Bool) (st st' : PagingState) : Prop
    extends Kept st st' where
  fresh : ∀ other, st.frameOf other ≠ some frame
  frames : st'.frameOf = update st.frameOf holder (some frame)
  entries : ∀ other : Holder, other ≠ holder → st'.entry other.1 other.2 = st.entry other.1 other.2
  entry : st'.entry holder.1 holder.2 = mappedEntry frame shared
  mem : st'.mem = update st.mem frame fun _ => 0

theorem Fills.effect (fills : Fills st holder shared st')
    (inv : FrameInv reserved st) (live : st.Live holder.1) :
    st' = { st with outOfMemory := true } ∨ ∃ frame, Filled holder frame shared st st' := by
  rcases fills with failed | ⟨frame, pmm, grants, rfl⟩
  · exact Or.inl failed
  · right
    have zeroedLive : (zeroFrame { st with pmm := pmm } frame).Live holder.1 := live
    exact ⟨frame, ⟨fun id => live_setEntry, rfl, rfl, rfl⟩, (inv.grant grants).2.2.unmapped,
      frameOf_setEntry zeroedLive, fun other different => entry_setEntry_of_ne zeroedLive different,
      entry_setEntry_self zeroedLive, rfl⟩

/-- What breaking the sharing of an entry does: it now maps `copy`, which holds
the bytes of the old frame, and nobody else sees a difference. -/
structure Broken (holder : Holder) (frame copy : Nat) (st st' : PagingState) : Prop
    extends Kept st st' where
  frames : st'.frameOf = update st.frameOf holder (some copy)
  entries : ∀ other : Holder, other ≠ holder → st'.entry other.1 other.2 = st.entry other.1 other.2
  shared : (st'.entry holder.1 holder.2).shared = (st.entry holder.1 holder.2).shared
  writable : (st'.entry holder.1 holder.2).rw = true
  bytes : st'.mem copy = st.mem frame
  others : ∀ other used, st.frameOf other = some used → st'.mem used = st.mem used

theorem Breaks.effect (breaks : Breaks st holder frame st') (inv : FrameInv reserved st)
    (points : st.frameOf holder = some frame) :
    st' = { st with outOfMemory := true } ∨ ∃ copy, Broken holder frame copy st st' := by
  have live := live_of_frameOf points
  have mapped := PageEntry.userFrame_eq_some.mp points
  rcases breaks with ⟨-, failed⟩ | ⟨-, copy, pmm, grants, rfl⟩ | ⟨-, rfl⟩
  · exact Or.inl failed
  · right
    have copiedLive : PagingState.Live
        { copyFrame { st with pmm := pmm } copy frame with
          pageRef := update st.pageRef frame (st.pageRef frame - 1) } holder.1 := live
    have fresh := (inv.grant grants).2.2.unmapped
    refine ⟨copy, ⟨fun id => live_setEntry, rfl, rfl, rfl⟩, ?_,
      fun other different => entry_setEntry_of_ne copiedLive different,
      (congrArg PageEntry.shared (entry_setEntry_self copiedLive)).trans rfl,
      (congrArg PageEntry.rw (entry_setEntry_self copiedLive)).trans rfl, update_self .., ?_⟩
    · rw [frameOf_setEntry copiedLive]
      congr 1
      exact PageEntry.userFrame_eq_some.mpr ⟨mapped.1, mapped.2.1, rfl⟩
    · intro other used held
      have different : used ≠ copy := by
        rintro rfl
        exact fresh other held
      exact update_of_ne different _ _
  · right
    refine ⟨frame, ⟨fun id => live_setEntry, rfl, rfl, rfl⟩, ?_,
      fun other different => entry_setEntry_of_ne live different,
      by rw [entry_setEntry_self live], by rw [entry_setEntry_self live], rfl, fun _ _ _ => rfl⟩
    rw [frameOf_setEntry live]
    congr 1

section Clone

variable {parent child : SpaceId} {slot : Slot}

/-- One turn of the clone loop copies the mapping of one page, if there is one;
outside shared regions both spaces then hold it read-only. -/
theorem cowCloneEntry_cases (st : PagingState) (parent child : SpaceId) (slot : Slot) :
    (st.frameOf (parent, slot) = none ∧ cowCloneEntry parent child st slot = st) ∨
    ∃ frame, st.frameOf (parent, slot) = some frame ∧
      (((st.entry parent slot).shared = true ∧
        cowCloneEntry parent child st slot =
          cowRefInc (st.setEntry child slot (st.entry parent slot)) frame) ∨
      ((st.entry parent slot).shared = false ∧
        cowCloneEntry parent child st slot =
          cowRefInc ((st.setEntry parent slot { st.entry parent slot with rw := false }).setEntry
            child slot { st.entry parent slot with rw := false }) frame)) := by
  unfold cowCloneEntry
  by_cases mapped : ((st.entry parent slot).present && (st.entry parent slot).user) = true
  · right
    refine ⟨_, PageEntry.userFrame_of_mapped mapped, ?_⟩
    cases shared : (st.entry parent slot).shared <;> simp [mapped, shared]
  · left
    exact ⟨PageEntry.userFrame_of_unmapped mapped, by simp [mapped]⟩

/-- What one turn of the clone loop does to the tables. -/
structure Copied (parent child : SpaceId) (slot : Slot) (st st' : PagingState) : Prop
    extends Kept st st' where
  frames : st'.frameOf = update st.frameOf (child, slot) (st.frameOf (parent, slot))
  shared : ∀ holder : Holder, holder ≠ (child, slot) →
    (st'.entry holder.1 holder.2).shared = (st.entry holder.1 holder.2).shared
  sharedChild : st.frameOf (parent, slot) ≠ none →
    (st'.entry child slot).shared = (st.entry parent slot).shared
  unmapped : ∀ holder : Holder, st'.frameOf holder = none →
    st'.entry holder.1 holder.2 = st.entry holder.1 holder.2
  pmm : st'.pmm = st.pmm
  heap : st'.heap = st.heap
  mem : st'.mem = st.mem

theorem cowRefInc_eq (st : PagingState) (frame : Nat) :
    ∃ ref, cowRefInc st frame = { st with pageRef := ref } := by
  unfold cowRefInc
  split
  · exact ⟨_, rfl⟩
  · exact ⟨st.pageRef, rfl⟩

/-- The child maps the frame of a page of its parent, under a copy of its entry. -/
theorem join_copied (points : st.frameOf (parent, slot) = some frame) (live : st.Live child) :
    Copied parent child slot st
      (cowRefInc (st.setEntry child slot (st.entry parent slot)) frame) := by
  obtain ⟨ref, counted⟩ := cowRefInc_eq (st.setEntry child slot (st.entry parent slot)) frame
  rw [counted]
  exact {
    toKept := ⟨fun id => live_setEntry, rfl, rfl, rfl⟩
    frames := frameOf_setEntry live
    shared := fun holder other => congrArg PageEntry.shared (entry_setEntry_of_ne live other)
    sharedChild := fun _ => congrArg PageEntry.shared (entry_setEntry_self live)
    unmapped := by
      intro holder vacated
      have notChild : holder ≠ (child, slot) := by
        rintro rfl
        have here : st.frameOf (parent, slot) = none :=
          (frameOf_setEntry_self live).symm.trans vacated
        simp [points] at here
      exact entry_setEntry_of_ne live notChild
    pmm := rfl
    heap := rfl
    mem := rfl }

theorem cowCloneEntry_spec (inv : FrameInv reserved st) (live : st.Live child)
    (vacant : st.frameOf (child, slot) = none) :
    FrameInv reserved (cowCloneEntry parent child st slot) ∧
      Copied parent child slot st (cowCloneEntry parent child st slot) := by
  rcases cowCloneEntry_cases st parent child slot with
    ⟨unmapped, result⟩ | ⟨frame, points, ⟨shared, result⟩ | ⟨notShared, result⟩⟩
  · rw [result]
    refine ⟨inv, ?_⟩
    exact {
      toKept := .refl st
      frames := by rw [unmapped, ← vacant, update_eq_self]
      shared := fun holder _ => rfl
      sharedChild := fun mapped => (mapped unmapped).elim
      unmapped := fun _ _ => rfl
      pmm := rfl
      heap := rfl
      mem := rfl }
  · rw [result]
    exact ⟨inv.join points (fun _ => shared) live vacant, join_copied points live⟩
  · -- the parent's entry loses its write bit first, and the child then joins as above
    let source : PageEntry := { st.entry parent slot with rw := false }
    have parentLive : st.Live parent := live_of_frameOf points
    have keeps : source.userFrame = some frame :=
      PageEntry.userFrame_eq_some.mpr (PageEntry.userFrame_eq_some.mp points)
    have demoted : FrameInv reserved (st.setEntry parent slot source) :=
      inv.retag points keeps rfl (fun shared => by simp [source, notShared] at shared)
        (fun writable => by simp [source] at writable)
    have stored : (st.setEntry parent slot source).entry parent slot = source :=
      entry_setEntry_self parentLive
    have frames : (st.setEntry parent slot source).frameOf = st.frameOf := by
      rw [frameOf_setEntry parentLive, keeps, ← points, update_eq_self]
    have childLive : (st.setEntry parent slot source).Live child := live_setEntry.mpr live
    rw [← frames] at points vacant
    have joined := demoted.join points (fun writable => by simp [stored, source] at writable)
      childLive vacant
    have copied := join_copied points childLive
    rw [stored] at joined copied
    rw [result]
    refine ⟨joined, { copied with
      live := fun id => (copied.live id).trans live_setEntry
      frames := by rw [copied.frames, frames]
      shared := fun holder other => (copied.shared holder other).trans ?_
      sharedChild := fun mapped => (copied.sharedChild (by rwa [frames])).trans ?_
      unmapped := fun holder vacated => (copied.unmapped holder vacated).trans ?_ }⟩
    · by_cases same : holder = (parent, slot)
      · subst holder
        rw [stored]
      · rw [entry_setEntry_of_ne parentLive same]
    · rw [stored]
    · refine entry_setEntry_of_ne parentLive fun isParent : holder = (parent, slot) => ?_
      have held : update (st.setEntry parent slot source).frameOf (child, slot) (some frame) holder = none := by
        rw [← points, ← copied.frames]
        exact vacated
      rw [isParent, update_apply, points, ite_self] at held
      exact nomatch held

theorem cowCloneEntry_outOfMemory (st : PagingState) (slot : Slot) :
    (cowCloneEntry parent child st slot).outOfMemory = st.outOfMemory := by
  unfold cowCloneEntry cowRefInc
  dsimp only
  split_ifs <;> rfl

theorem cowClone_foldl_outOfMemory (slots : List Slot) (st : PagingState) :
    (slots.foldl (cowCloneEntry parent child) st).outOfMemory = st.outOfMemory := by
  induction slots generalizing st with
  | nil => rfl
  | cons slot rest ih => rw [List.foldl_cons, ih, cowCloneEntry_outOfMemory]

/-- The clone loop keeps the invariant, as long as the child's entries are still
empty when their turn comes, and every relation that its turns keep. -/
theorem cowClone_foldl_spec {Acc : Type*} (parent child : SpaceId) (next : Acc → Slot → Acc)
    (related : PagingState → Acc → Prop)
    (keeps : ∀ st st' acc slot, related st acc → Copied parent child slot st st' →
      related st' (next acc slot))
    (slots : List Slot) (nodup : slots.Nodup) (inv : FrameInv reserved st)
    (live : st.Live child) (vacant : ∀ slot ∈ slots, st.frameOf (child, slot) = none)
    (acc : Acc) (initial : related st acc) :
    FrameInv reserved (slots.foldl (cowCloneEntry parent child) st) ∧
      related (slots.foldl (cowCloneEntry parent child) st) (slots.foldl next acc) := by
  induction slots generalizing st acc with
  | nil => exact ⟨inv, initial⟩
  | cons slot rest ih =>
    obtain ⟨fresh, nodup⟩ := List.nodup_cons.mp nodup
    obtain ⟨inv', copied⟩ := cowCloneEntry_spec inv live (vacant slot List.mem_cons_self)
    refine ih nodup inv' ((copied.live child).mpr live) ?_ _
      (keeps st _ acc slot initial copied)
    intro other member
    have different : (child, other) ≠ (child, slot) := by
      intro same
      exact fresh ((Prod.mk.inj same).2 ▸ member)
    rw [copied.frames, update_of_ne different]
    exact vacant other (List.mem_cons_of_mem slot member)

end Clone

section Destroy

variable {id : SpaceId}

theorem releaseFrame_eq (st : PagingState) (frame : Nat) :
    ∃ pmm pageRef freeLog,
      releaseFrame st frame = { st with pmm := pmm, pageRef := pageRef, freeLog := freeLog } := by
  rw [releaseFrame, cowRefRelease]
  by_cases shared : frame < frameCount ∧ 0 < st.pageRef frame
  · rw [if_pos shared]
    exact ⟨_, _, _, rfl⟩
  · rw [if_neg shared]
    exact ⟨_, _, _, rfl⟩

structure Released (holder : Holder) (st st' : PagingState) : Prop extends Kept st st' where
  tables : st'.tableFrame = st.tableFrame
  frames : st'.frameOf = update st.frameOf holder none
  entries : ∀ other : Holder, other ≠ holder → st'.entry other.1 other.2 = st.entry other.1 other.2
  mem : st'.mem = st.mem

theorem releaseFrame_released {entry : PageEntry} (points : st.frameOf holder = some frame)
    (gone : entry.userFrame = none) :
    Released holder st ((releaseFrame st frame).setEntry holder.1 holder.2 entry) := by
  obtain ⟨pmm, pageRef, freeLog, released⟩ := releaseFrame_eq st frame
  rw [released]
  have live := live_of_frameOf points
  exact {
    toKept := ⟨fun _ => live_setEntry, rfl, rfl, rfl⟩
    tables := tableFrame_setEntry ..
    frames := by
      refine (frameOf_setEntry live).trans ?_
      rw [gone]
    entries := fun _ different => entry_setEntry_of_ne live different
    mem := rfl }

theorem destroyEntry_cases (st : PagingState) (id : SpaceId) (slot : Slot) :
    (st.frameOf (id, slot) = none ∧ destroyEntry id st slot = st) ∨
    ∃ frame entry, st.frameOf (id, slot) = some frame ∧ entry.userFrame = none ∧
      destroyEntry id st slot = (releaseFrame st frame).setEntry id slot entry := by
  unfold destroyEntry
  by_cases mapped : ((st.entry id slot).present && (st.entry id slot).user) = true
  · right
    exact ⟨_, { st.entry id slot with user := false }, PageEntry.userFrame_of_mapped mapped,
      by simp [PageEntry.userFrame], by simp [mapped]⟩
  · left
    exact ⟨PageEntry.userFrame_of_unmapped mapped, by simp [mapped]⟩

/-- What the destruction loop does to the tables: it releases the listed entries
of one space. -/
structure Emptied (id : SpaceId) (slots : List Slot) (st st' : PagingState) : Prop
    extends Kept st st' where
  tables : st'.tableFrame = st.tableFrame
  vacant : ∀ slot ∈ slots, st'.frameOf (id, slot) = none
  others : ∀ holder : Holder, (holder.1 = id → holder.2 ∉ slots) →
    st'.entry holder.1 holder.2 = st.entry holder.1 holder.2
  mem : st'.mem = st.mem

theorem Emptied.trans {early late : List Slot} (before : Emptied id early first second)
    (after : Emptied id late second third) :
    Emptied id (early ++ late) first third where
  toKept := ⟨fun other => (after.live other).trans (before.live other),
    after.nextSpace.trans before.nextSpace, after.active.trans before.active,
    after.outOfMemory.trans before.outOfMemory⟩
  tables := after.tables.trans before.tables
  vacant := by
    intro slot member
    by_cases again : slot ∈ late
    · exact after.vacant slot again
    · have first := (List.mem_append.mp member).resolve_right again
      have kept := after.others (id, slot) fun _ => again
      rw [frameOf, kept]
      exact before.vacant slot first
  others := by
    intro holder outside
    rw [after.others holder fun same member =>
        outside same (List.mem_append_right early member),
      before.others holder fun same member => outside same (List.mem_append_left late member)]
  mem := after.mem.trans before.mem

theorem Emptied.refl (id : SpaceId) (st : PagingState) : Emptied id [] st st where
  toKept := .refl st
  tables := rfl
  vacant := by simp
  others _ _ := rfl
  mem := rfl

theorem destroyEntry_spec (inv : FrameInv reserved st) (id : SpaceId) (slot : Slot) :
    FrameInv reserved (destroyEntry id st slot) ∧
      Emptied id [slot] st (destroyEntry id st slot) := by
  rcases destroyEntry_cases st id slot with ⟨unmapped, result⟩ |
    ⟨frame, entry, points, gone, result⟩
  · rw [result]
    refine ⟨inv, ?_⟩
    exact { Emptied.refl id st with
      vacant := by
        rintro _ ⟨⟩
        · exact unmapped
        · contradiction
      others := fun _ _ => rfl }
  · rw [result]
    refine ⟨inv.release points gone, ?_⟩
    have released := releaseFrame_released points gone
    exact { released with
      vacant := by
        intro other member
        obtain rfl := List.mem_singleton.mp member
        rw [released.frames, update_self]
      others := by
        rintro ⟨other, place⟩ outside
        refine released.entries (other, place) ?_
        rintro ⟨rfl, rfl⟩
        exact outside rfl List.mem_cons_self }

theorem destroy_foldl_spec (id : SpaceId) (slots : List Slot) (inv : FrameInv reserved st) :
    FrameInv reserved (slots.foldl (destroyEntry id) st) ∧
      Emptied id slots st (slots.foldl (destroyEntry id) st) := by
  induction slots generalizing st with
  | nil => exact ⟨inv, Emptied.refl id st⟩
  | cons slot rest ih =>
    obtain ⟨inv', emptied⟩ := destroyEntry_spec inv id slot
    obtain ⟨inv'', later⟩ := ih inv'
    exact ⟨inv'', emptied.trans later⟩

/-- Once the user pages of a space are gone, its own frames follow. -/
theorem FrameInv.freeSpace {space : AddressSpace} (inv : FrameInv reserved st)
    (table : ∀ kind, st.tableFrame (id, kind) = some (space.table kind))
    (vacant : ∀ slot, st.frameOf (id, slot) = none) :
    FrameInv reserved (freeSpace id space st) := by
  let count := st.userSpaceCount - 1
  have closed : FrameInv (reserved ∪ Set.range space.table)
      { st with spaces := update st.spaces id none, userSpaceCount := count } :=
    inv.closeSpace table vacant
  have injective : Injective space.table := by
    intro kind other same
    have equal := inv.tables_unique (id, kind) (id, other) _ (table kind) (same ▸ table other)
    exact (Prod.mk.inj equal).2
  have loose : (([.firstTable, .extTable, .directory].map space.table).toFinset : Set Nat) =
      Set.range space.table := by
    ext frame
    simp [range_table, AddressSpace.table]
    tauto
  have transit : Transit reserved ([.firstTable, .extTable, .directory].map space.table).toFinset
      { st with spaces := update st.spaces id none, userSpaceCount := count } := by
    refine ⟨by rw [loose]; exact closed, ?_⟩
    intro frame member
    obtain ⟨kind, rfl⟩ : frame ∈ Set.range space.table := loose ▸ Finset.mem_coe.mpr member
    have pool := inv.tables (id, kind) _ (table kind)
    exact ⟨pool.notReserved,
      { positive := pool.positive
        bounded := pool.bounded
        notGranted := pool.notGranted
        unmapped := fun holder held =>
          (closed.mapped holder _ held).notReserved (Or.inr ⟨kind, rfl⟩)
        notTable := fun owner owned =>
          (closed.tables owner _ owned).notReserved (Or.inr ⟨kind, rfl⟩) }⟩
  have freed := transit.freeAll (List.Nodup.map injective (by decide))
  -- The frames are freed while the space is still there, but it maps nothing,
  -- so the logged numbers of mappings are the same.
  have frames : PagingState.frameOf
      { st with spaces := update st.spaces id none, userSpaceCount := count } =
      st.frameOf := frameOf_update_spaces vacant (by simp)
  have sameCount : ∀ frame, st.mapCount frame = PagingState.mapCount
      { st with spaces := update st.spaces id none, userSpaceCount := count } frame :=
    fun frame => by simp only [mapCount, frames]
  convert freed.of_sameGrants (kfree st.heap space.object) (Paging.freeSpace id space st).freeLog
    (kfree_granted _ _) ?_ using 1
  · simp only [List.map_cons, List.map_nil, List.foldl_cons, List.foldl_nil, AddressSpace.table,
      Paging.freeSpace, freeBlock, freeObject]
    rfl
  · simp only [List.map_cons, List.map_nil, List.foldl_cons, List.foldl_nil, AddressSpace.table,
      Paging.freeSpace, freeBlock, freeObject, List.append_assoc, List.cons_append,
      List.nil_append, List.append_cancel_left_eq, List.cons.injEq, FreeEvent.mk.injEq,
      Nat.sub_zero, true_and, and_true]
    exact ⟨sameCount _, sameCount _, sameCount _⟩

end Destroy

theorem freeSpace_outOfMemory (id : SpaceId) (space : AddressSpace) (st : PagingState) :
    (freeSpace id space st).outOfMemory = st.outOfMemory :=
  rfl

variable (opened : Opened st st')

include opened

theorem Opened.entry_child (slot : Slot) : st'.entry st.nextSpace slot = freshTables slot := by
  obtain ⟨space, fresh, spacesEq⟩ := opened.spaces
  simp [PagingState.entry, spacesEq, fresh]

theorem Opened.frameOf_child (slot : Slot) : st'.frameOf (st.nextSpace, slot) = none := by
  rw [frameOf, opened.entry_child, freshTables_userFrame]

theorem Opened.entry_of_ne {id : SpaceId}
    (different : id ≠ st.nextSpace) (slot : Slot) : st'.entry id slot = st.entry id slot := by
  obtain ⟨space, -, spacesEq⟩ := opened.spaces
  simp [PagingState.entry, spacesEq, update_of_ne different]

theorem Opened.live_child : st'.Live st.nextSpace := by
  obtain ⟨space, -, spacesEq⟩ := opened.spaces
  simp [Live, spacesEq]

omit opened

theorem live_of_fillEntry {id : SpaceId} {place : Option Holder} {shared : Bool}
    (live : (fillEntry st place shared).Live id) : st.Live id := by
  rcases fillEntry_cases place shared with ⟨-, unchanged⟩ | ⟨holder, -, -, -, fills⟩
  · rwa [unchanged] at live
  · rcases fills with failed | ⟨frame, pmm, -, filled⟩
    · rw [failed] at live
      exact live
    · rw [filled] at live
      exact live_setEntry.mp live

theorem live_of_freeSpace {id other : SpaceId} {space : AddressSpace}
    (live : (freeSpace other space st).Live id) : st.Live id ∧ id ≠ other := by
  by_cases same : id = other
  · simp [Live, freeSpace, same] at live
  · exact ⟨by simpa [Live, freeSpace, freeBlock, freeObject, update_of_ne same] using live, same⟩

theorem Breaks.live {id : SpaceId} (breaks : Breaks st holder frame st') (live : st'.Live id) :
    st.Live id := by
  rcases breaks with ⟨-, rfl⟩ | ⟨-, copy, pmm, -, rfl⟩ | ⟨-, rfl⟩
  · exact live
  · exact live_setEntry.mp live
  · exact live_setEntry.mp live

variable (inv : FrameInv reserved st)

include inv

theorem pagingCreateUserAddressSpace_continues :
    Continues reserved st (pagingCreateUserAddressSpace st).2 := by
  obtain ⟨result, created, resultEq, createdInv, outcome⟩ := pagingCreateUserAddressSpace_spec inv
  rw [resultEq]
  rcases outcome with ⟨-, stuck, -⟩ | ⟨-, same, -⟩
  · exact ⟨createdInv, fun _ => stuck⟩
  · exact ⟨createdInv, same.trans⟩

theorem pagingCloneAddressSpace_continues (parent : SpacePtr) :
    Continues reserved st (pagingCloneAddressSpace st parent).2 := by
  have creation := pagingCreateUserAddressSpace_continues inv
  obtain ⟨result, created, resultEq, createdInv, outcome⟩ :=
    pagingCreateUserAddressSpace_spec inv
  rw [resultEq] at creation
  rcases pagingCloneAddressSpace_cases st parent with
    ⟨unchanged, -⟩ | ⟨-, empty⟩ | ⟨id, -, -, cloned⟩
  · rw [unchanged]
    exact ⟨inv, fun failed => failed⟩
  · rw [empty, resultEq]
    exact creation
  · rw [cloned result created resultEq]
    rcases outcome with ⟨rfl, -, -⟩ | ⟨rfl, -, opened⟩
    · exact creation
    · dsimp only
      have looped := cowClone_foldl_spec id st.nextSpace (fun (_ : Unit) _ => ())
        (fun _ _ => True) (fun _ _ _ _ _ _ => trivial) allSlots allSlots_nodup createdInv
        opened.live_child (fun slot _ => opened.frameOf_child slot) () trivial
      exact ⟨looped.1, fun failed => (cowClone_foldl_outOfMemory _ _).trans (creation.2 failed)⟩

theorem pagingDestroyUserAddressSpace_continues (ptr : SpacePtr) :
    Continues reserved st (pagingDestroyUserAddressSpace st ptr) := by
  rcases pagingDestroyUserAddressSpace_cases st ptr with
    ⟨-, unchanged⟩ | ⟨id, space, -, present, result⟩
  · rw [unchanged]
    exact ⟨inv, fun failed => failed⟩
  · have start : FrameInv reserved
        { st with active := if ptr = st.active then .kernel else st.active } :=
      { inv with }
    obtain ⟨emptiedInv, emptied⟩ := destroy_foldl_spec id allSlots start
    rw [result]
    refine ⟨emptiedInv.freeSpace (fun kind => ?_) fun slot => emptied.vacant slot (mem_allSlots slot),
      fun failed => (freeSpace_outOfMemory ..).trans (emptied.outOfMemory.trans failed)⟩
    rw [emptied.tables]
    simp [tableFrame, present]

theorem fillEntry_continues (place : Option Holder) (shared : Bool) :
    Continues reserved st (fillEntry st place shared) := by
  rcases fillEntry_cases place shared with ⟨-, unchanged⟩ | ⟨holder, -, live, vacant, fills⟩
  · rw [unchanged]
    exact ⟨inv, id⟩
  · exact fills.continues inv live vacant

/-- Every operation of the paging layer keeps the ownership invariant. -/
theorem pagingStep_continues (op : PagingOp) : Continues reserved st (pagingStep st op) := by
  have unmoved : ∀ {next}, next = st → Continues reserved st next := by
    rintro _ rfl
    exact ⟨inv, fun failed => failed⟩
  cases op with
  | create => exact pagingCreateUserAddressSpace_continues inv
  | clone parent => exact pagingCloneAddressSpace_continues inv parent
  | map space vaddr =>
    rw [pagingStep, pagingMapUserPage_eq]
    exact fillEntry_continues inv ..
  | unmap space vaddr =>
    rcases pagingUnmapUserPage_cases st space vaddr with
      ⟨-, unchanged⟩ | ⟨holder, frame, -, points, result⟩
    · exact unmoved unchanged
    · rw [pagingStep, result]
      exact ⟨inv.release points rfl, (releaseFrame_released points rfl).outOfMemory.trans⟩
  | share vaddr =>
    rw [pagingStep, pagingSharePage_eq]
    exact fillEntry_continues inv ..
  | destroy space => exact pagingDestroyUserAddressSpace_continues inv space
  | activate space =>
    rw [pagingStep, pagingActivateAddressSpace_eq]
    exact ⟨{ inv with }, fun failed => failed⟩
  | cowFault vaddr =>
    rcases pagingTryCow_cases st vaddr with
      ⟨-, unchanged⟩ | ⟨holder, frame, -, points, readOnly, breaks, -⟩
    · exact unmoved (congrArg Prod.snd unchanged)
    · exact breaks.continues inv points readOnly
  | store vaddr byte =>
    rcases userStore_cases st vaddr byte with ⟨-, unchanged⟩ | ⟨holder, frame, -, -, -, stored⟩ |
      ⟨holder, frame, broken, -, points, readOnly, breaks, failed | stored⟩
    · exact unmoved unchanged
    · rw [pagingStep, stored]
      exact ⟨{ inv with }, fun failed => failed⟩
    · rw [pagingStep, failed]
      exact ⟨{ inv with }, fun _ => rfl⟩
    · rw [pagingStep, stored]
      have broke := breaks.continues inv points readOnly
      exact ⟨{ broke.1 with }, broke.2⟩

theorem live_of_create {id : SpaceId} (live : (pagingCreateUserAddressSpace st).2.Live id) :
    st.Live id ∨ id = st.nextSpace := by
  obtain ⟨result, created, resultEq, -, ⟨-, -, same⟩ | ⟨-, -, opened⟩⟩ :=
    pagingCreateUserAddressSpace_spec inv
  · rw [resultEq] at live
    exact .inl (by simpa [Live, same.spaces] using live)
  · obtain ⟨space, -, spacesEq⟩ := opened.spaces
    rw [resultEq] at live
    by_cases new : id = st.nextSpace
    · exact .inr new
    · exact .inl (by simpa [Live, spacesEq, update_of_ne new] using live)

theorem live_of_clone {id : SpaceId} {parent : SpacePtr}
    (live : (pagingCloneAddressSpace st parent).2.Live id) : st.Live id ∨ id = st.nextSpace := by
  rcases pagingCloneAddressSpace_cases st parent with
    ⟨unchanged, -⟩ | ⟨-, empty⟩ | ⟨source, -, -, cloned⟩
  · rw [unchanged] at live
    exact .inl live
  · rw [empty] at live
    exact live_of_create inv live
  · obtain ⟨result, created, resultEq, createdInv, outcome⟩ := pagingCreateUserAddressSpace_spec inv
    rw [cloned result created resultEq] at live
    refine live_of_create inv ?_
    rw [resultEq]
    rcases outcome with ⟨rfl, -, -⟩ | ⟨rfl, -, opened⟩
    · exact live
    · have looped := cowClone_foldl_spec source st.nextSpace (fun (_ : Unit) _ => ())
        (fun later _ => later.Live id → created.Live id)
        (fun _ _ _ _ before copied => before ∘ (copied.live id).mp) allSlots allSlots_nodup
        createdInv opened.live_child (fun slot _ => opened.frameOf_child slot) () (fun live => live)
      dsimp only at live
      exact looped.2 live

theorem live_of_destroy {id other : SpaceId}
    (live : (pagingDestroyUserAddressSpace st (.user other)).Live id) :
    st.Live id ∧ id ≠ other := by
  rcases pagingDestroyUserAddressSpace_cases st (.user other) with
    ⟨dead, unchanged⟩ | ⟨place, space, isUser, -, result⟩
  · rw [unchanged] at live
    exact ⟨live, fun same => dead other rfl (same ▸ live)⟩
  · obtain rfl := SpacePtr.user.inj isUser
    have start : FrameInv reserved
        { st with active := if .user other = st.active then .kernel else st.active } :=
      { inv with }
    obtain ⟨-, emptied⟩ := destroy_foldl_spec other allSlots start
    rw [result] at live
    obtain ⟨alive, different⟩ := live_of_freeSpace live
    exact ⟨(emptied.live id).mp alive, different⟩

/-- Only `create` and `clone` open a space, and no space outlives its destruction. -/
theorem live_of_pagingStep {id : SpaceId} {op : PagingOp} (live : (pagingStep st op).Live id) :
    st.Live id ∧ op ≠ .destroy (.user id) ∨
      id = st.nextSpace ∧ (op = .create ∨ ∃ parent, op = .clone parent) := by
  cases op with
  | create => exact (live_of_create inv live).imp (⟨·, by simp⟩) (⟨·, .inl rfl⟩)
  | clone parent => exact (live_of_clone inv live).imp (⟨·, by simp⟩) (⟨·, .inr ⟨parent, rfl⟩⟩)
  | map space vaddr =>
    rw [pagingStep, pagingMapUserPage_eq] at live
    exact .inl ⟨live_of_fillEntry live, by simp⟩
  | unmap space vaddr =>
    refine .inl ⟨?_, by simp⟩
    rcases pagingUnmapUserPage_cases st space vaddr with
      ⟨-, unchanged⟩ | ⟨holder, frame, -, points, result⟩
    · rwa [pagingStep, unchanged] at live
    · rw [pagingStep, result] at live
      exact ((releaseFrame_released points rfl).live id).mp live
  | share vaddr =>
    rw [pagingStep, pagingSharePage_eq] at live
    exact .inl ⟨live_of_fillEntry live, by simp⟩
  | destroy space =>
    cases space with
    | null | kernel => exact .inl ⟨live, by simp⟩
    | user other =>
      obtain ⟨before, different⟩ := live_of_destroy inv live
      exact .inl ⟨before, by simpa using different.symm⟩
  | activate space =>
    rw [pagingStep, pagingActivateAddressSpace_eq] at live
    exact .inl ⟨live, by simp⟩
  | cowFault vaddr =>
    refine .inl ⟨?_, by simp⟩
    rcases pagingTryCow_cases st vaddr with ⟨-, unchanged⟩ | ⟨holder, frame, -, -, -, breaks, -⟩
    · rwa [pagingStep, unchanged] at live
    · exact breaks.live live
  | store vaddr byte =>
    refine .inl ⟨?_, by simp⟩
    rcases userStore_cases st vaddr byte with ⟨-, unchanged⟩ | ⟨holder, frame, -, -, -, stored⟩ |
      ⟨holder, frame, broken, -, points, readOnly, breaks, failed | stored⟩
    · rwa [pagingStep, unchanged] at live
    · rw [pagingStep, stored] at live
      exact live
    · rw [pagingStep, failed] at live
      exact live
    · rw [pagingStep, stored] at live
      exact breaks.live live

omit inv

theorem pagingInstall_inv {pmm : Pmm} {heap : Heap} {mem : Nat → Nat → UInt8}
    (bounded : pmm.maxBlocks ≤ pmmMaxBlocks)
    (heapPages : ∀ frame ∈ heap.granted, Allocated pmm frame) :
    FrameInv {frame | Allocated pmm frame} (pagingInstall pmm heap mem) := by
  have unmapped : ∀ holder, (pagingInstall pmm heap mem).frameOf holder = none :=
    fun holder => frameOf_eq_none_of_not_live (by simp [Live, pagingInstall])
  have noTable : ∀ owner, (pagingInstall pmm heap mem).tableFrame owner = none :=
    fun owner => by simp [tableFrame, pagingInstall]
  exact {
    maxBlocks_le := bounded
    live_lt := fun id live => by simp [Live, pagingInstall] at live
    refs := fun frame => by
      rw [holderCount_eq_zero fun holder => by simp [unmapped holder]]
      rfl
    mapped := fun holder frame points => by simp [unmapped holder] at points
    tables := fun owner frame owned => by simp [noTable owner] at owned
    tables_unique := fun owner other frame owned => by simp [noTable owner] at owned
    tables_unmapped := fun owner holder frame owned => by simp [noTable owner] at owned
    aliases := fun holder other frame _ points => by simp [unmapped holder] at points
    shared_rw := fun holder frame points => by simp [unmapped holder] at points
    kept := by
      rintro frame (member | member)
      · exact member
      · exact heapPages frame member
    accounted := fun frame allocated => Or.inl allocated
    freed := fun event logged => by simp [pagingInstall] at logged }

/-- What the paging layer owes to the physical memory manager, in a state `st`
reached from the state `start` in which it was installed. -/
structure FramesAccounted (start st : PagingState) : Prop where
  /-- Only numbers below `nextSpace` are in use, so `mapCount` counts all user
  entries of live spaces. -/
  counted : ∀ id, st.Live id → id < st.nextSpace
  shared : ∀ frame, 0 < st.mapCount frame →
    st.pageRef frame + 1 = st.mapCount frame ∧ Allocated st.pmm frame
  unshared : ∀ frame, st.mapCount frame = 0 → st.pageRef frame = 0
  writable : ∀ holder other frame, st.frameOf holder = some frame →
    (st.entry holder.1 holder.2).rw = true → (st.entry holder.1 holder.2).shared = false →
    st.frameOf other = some frame → other = holder
  tables : ∀ owner frame, st.tableFrame owner = some frame →
    Allocated st.pmm frame ∧ (∀ other, st.tableFrame other = some frame → other = owner) ∧
      st.mapCount frame = 0
  freed : ∀ event ∈ st.freeLog, event.allocated = true ∧ event.mappings = 0
  returned : (∀ id, ¬ st.Live id) →
    ∀ frame, Allocated st.pmm frame ↔ Allocated start.pmm frame ∨ frame ∈ st.heap.granted

theorem FrameInv.framesAccounted {start : PagingState}
    (inv : FrameInv {frame | Allocated start.pmm frame} st) : FramesAccounted start st where
  counted := inv.live_lt
  shared := by
    intro frame positive
    rw [inv.mapCount_eq] at positive ⊢
    have count := inv.refs frame
    have nonempty : holderCount st.frameOf frame ≠ 0 := by omega
    have held : ∃ holder, st.frameOf holder = some frame := by
      by_contra unheld
      push Not at unheld
      exact nonempty (holderCount_eq_zero unheld)
    obtain ⟨holder, points⟩ := held
    exact ⟨by omega, (inv.mapped holder frame points).allocated⟩
  unshared := by
    intro frame zero
    rw [inv.mapCount_eq] at zero
    rw [inv.refs frame, zero]
  writable := by
    intro holder other frame points rw notShared otherPoints
    by_contra different
    obtain ⟨-, common⟩ := inv.aliases holder other frame (Ne.symm different) points otherPoints
    simp [common.readOnly rw] at notShared
  tables := by
    intro owner frame owned
    refine ⟨(inv.tables owner frame owned).allocated,
      fun other alsoOwned => inv.tables_unique other owner frame alsoOwned owned, ?_⟩
    rw [inv.mapCount_eq]
    exact holderCount_eq_zero fun holder => inv.tables_unmapped owner holder frame owned
  freed := inv.freed
  returned := by
    intro empty frame
    constructor
    · intro allocated
      rcases inv.accounted frame allocated with before | granted | ⟨owner, owned⟩ |
        ⟨holder, points⟩
      · exact Or.inl before
      · exact Or.inr granted
      · exact (empty owner.1 (live_of_tableFrame owned)).elim
      · exact (empty holder.1 (live_of_frameOf points)).elim
    · exact fun owner => inv.kept frame owner

/-- Every run of paging operations, with or without failing allocations, keeps
the frames accounted for. -/
theorem run_framesAccounted (pmm : Pmm) (heap : Heap) (mem : Nat → Nat → UInt8)
    (bounded : pmm.maxBlocks ≤ pmmMaxBlocks)
    (heapPages : ∀ frame ∈ heap.granted, Allocated pmm frame) (ops : List PagingOp) :
    FramesAccounted (pagingInstall pmm heap mem)
      (Machine.run pagingStep (pagingInstall pmm heap mem) ops) :=
  FrameInv.framesAccounted
    (Machine.run_invariant (FrameInv {frame | Allocated pmm frame})
      (fun _ op inv => (pagingStep_continues inv op).1) (pagingInstall_inv bounded heapPages) ops)

def smallMemory : Pmm where
  memoryMap := fun frame => frame == 0
  maxBlocks := 64
  usedBlocks := 1

def emptyHeap : Heap where
  blocks := []
  pages := 0
  granted := []

/-- A page is shared with a clone and copied, and both spaces are destroyed. -/
def forkAndExit : List PagingOp :=
  [.create, .map (.user 0) 0x300000, .clone (.user 0), .activate (.user 1), .store 0x300000 7,
    .destroy (.user 0), .destroy (.user 1)]

/-- Every frame but the first is free again or belongs to the heap. -/
theorem run_framesAccounted_forkAndExit :
    let st := Machine.run pagingStep (pagingInstall smallMemory emptyHeap fun _ _ => 0) forkAndExit
    FramesAccounted (pagingInstall smallMemory emptyHeap fun _ _ => 0) st ∧ (∀ id, ¬ st.Live id) ∧
      ∀ frame, Allocated st.pmm frame ↔ frame = 0 ∨ frame ∈ st.heap.granted := by
  intro st
  have accounted : FramesAccounted (pagingInstall smallMemory emptyHeap fun _ _ => 0) st :=
    run_framesAccounted smallMemory emptyHeap _ (by decide) (by simp [emptyHeap]) forkAndExit
  have kept : ∀ ops, FrameInv {frame | Allocated smallMemory frame}
      (Machine.run pagingStep (pagingInstall smallMemory emptyHeap fun _ _ => 0) ops) :=
    Machine.run_invariant (FrameInv {frame | Allocated smallMemory frame})
      (fun _ op inv => (pagingStep_continues inv op).1)
      (pagingInstall_inv (by decide) (by simp [emptyHeap]))
  have back : ∀ ops {op id}, (Machine.run pagingStep _ (ops ++ [op])).Live id → _ :=
    fun ops {op id} live => live_of_pagingStep (kept ops) (Machine.run_concat .. ▸ live)
  have empty : ∀ id, ¬ st.Live id := by
    intro id live
    obtain ⟨live, notOne⟩ := (back (forkAndExit.take 6) live).resolve_right (by simp)
    obtain ⟨live, notZero⟩ := (back (forkAndExit.take 5) live).resolve_right (by simp)
    have live := ((back (forkAndExit.take 4) live).resolve_right (by simp)).1
    have live := ((back (forkAndExit.take 3) live).resolve_right (by simp)).1
    obtain ⟨live, -⟩ | ⟨isOne, -⟩ := back (forkAndExit.take 2) live
    · have live := ((back (forkAndExit.take 1) live).resolve_right (by simp)).1
      obtain ⟨live, -⟩ | ⟨isZero, -⟩ := back (forkAndExit.take 0) live
      · cases live
      · exact notZero (by rw [isZero]; rfl)
    · exact notOne (by rw [isOne]; rfl)
  exact ⟨accounted, empty, fun frame => by
    simpa [pagingInstall, smallMemory, Allocated] using accounted.returned empty frame⟩

end MiniOS.Paging
