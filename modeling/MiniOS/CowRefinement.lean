import MiniOS.EagerFork
import MiniOS.PagingFrameRun

/-!
# Copy-on-write fork refines eager fork

The reference page behind an entry can be computed from the paging state: a
private entry stands for the present contents of its frame, a shared entry for
the cell that its frame implements.  Every operation of the paging layer moves
this view in the way the reference machine moves its pages, provided that its
allocations succeed.
-/

namespace MiniOS.Paging

open Function PhysicalMemory KernelHeap PagingState

variable {reserved : Set Nat} {st st' : PagingState} {ref ref' : EagerState}
  {cellOf : Nat → Nat}

/-- The page that an entry stands for, when the shared frame `frame` implements
the cell `cellOf frame`. -/
def pageView (cellOf : Nat → Nat) (st : PagingState) (holder : Holder) : Option EagerPage :=
  (st.frameOf holder).map fun frame =>
    if (st.entry holder.1 holder.2).shared then .shared (cellOf frame) else .own (st.mem frame)

def SharedFrame (st : PagingState) (frame : Nat) : Prop :=
  ∃ holder : Holder, st.frameOf holder = some frame ∧ (st.entry holder.1 holder.2).shared = true

structure Simulates (cellOf : Nat → Nat) (st : PagingState) (ref : EagerState) : Prop where
  live : ∀ id, ref.live id = true ↔ st.Live id
  nextSpace : ref.nextSpace = st.nextSpace
  active : ref.active = st.active
  pages : ref.pages = pageView cellOf st
  cells : ∀ frame, SharedFrame st frame → ref.cells (cellOf frame) = st.mem frame
  cell_lt : ∀ frame, SharedFrame st frame → cellOf frame < ref.nextCell
  cell_injective : ∀ frame other, SharedFrame st frame → SharedFrame st other →
    cellOf frame = cellOf other → frame = other

variable {holder : Holder} {frame : Nat}

theorem pageView_eq_none : pageView cellOf st holder = none ↔ st.frameOf holder = none := by
  simp [pageView]

theorem pageView_congr {cellOf' : Nat → Nat} (sameFrame : st'.frameOf holder = st.frameOf holder)
    (sameShared : (st'.entry holder.1 holder.2).shared = (st.entry holder.1 holder.2).shared)
    (sameBytes : ∀ frame, st.frameOf holder = some frame →
      st'.mem frame = st.mem frame ∧ cellOf' frame = cellOf frame) :
    pageView cellOf' st' holder = pageView cellOf st holder := by
  unfold pageView
  rw [sameFrame, sameShared]
  cases points : st.frameOf holder with
  | none => rfl
  | some frame => simp [sameBytes frame points]

variable (sim : Simulates cellOf st ref)

include sim

/-- The relation is kept when the pages move together and no frame becomes
shared or changes while it is shared. -/
theorem Simulates.transport (live : ∀ id, ref'.live id = true ↔ st'.Live id)
    (nextSpace : ref'.nextSpace = st'.nextSpace) (active : ref'.active = st'.active)
    (pages : ref'.pages = pageView cellOf st')
    (shared : ∀ frame, SharedFrame st' frame → SharedFrame st frame ∧ st'.mem frame = st.mem frame)
    (cells : ref'.cells = ref.cells) (nextCell : ref'.nextCell = ref.nextCell) :
    Simulates cellOf st' ref' where
  live := live
  nextSpace := nextSpace
  active := active
  pages := pages
  cells := by
    intro frame isShared
    obtain ⟨before, same⟩ := shared frame isShared
    rw [cells, same, sim.cells frame before]
  cell_lt := by
    intro frame isShared
    rw [nextCell]
    exact sim.cell_lt frame (shared frame isShared).1
  cell_injective := fun frame other isShared otherShared =>
    sim.cell_injective frame other (shared frame isShared).1 (shared other otherShared).1

/-- The relation is kept when both machines change only the entries that are
`touched`, none of which is shared afterwards. -/
theorem Simulates.move (touched : Holder → Prop)
    (live : ∀ id, ref'.live id = true ↔ st'.Live id)
    (nextSpace : ref'.nextSpace = st'.nextSpace) (active : ref'.active = st'.active)
    (entries : ∀ holder, ¬ touched holder →
      st'.entry holder.1 holder.2 = st.entry holder.1 holder.2)
    (bytes : ∀ holder used, ¬ touched holder → st.frameOf holder = some used →
      st'.mem used = st.mem used)
    (unshared : ∀ holder, touched holder → st'.frameOf holder ≠ none →
      (st'.entry holder.1 holder.2).shared = false)
    (here : ∀ holder, touched holder → ref'.pages holder = pageView cellOf st' holder)
    (elsewhere : ∀ holder, ¬ touched holder → ref'.pages holder = ref.pages holder)
    (cells : ref'.cells = ref.cells) (nextCell : ref'.nextCell = ref.nextCell) :
    Simulates cellOf st' ref' := by
  have frames : ∀ {holder}, ¬ touched holder → st'.frameOf holder = st.frameOf holder :=
    fun other => congrArg PageEntry.userFrame (entries _ other)
  refine sim.transport live nextSpace active ?_ ?_ cells nextCell
  · funext holder
    by_cases hit : touched holder
    · exact here holder hit
    · rw [elsewhere holder hit, sim.pages]
      exact (pageView_congr (frames hit) (by rw [entries holder hit])
        fun used held => ⟨bytes holder used hit held, rfl⟩).symm
  · rintro used ⟨holder, held, isShared⟩
    have missed : ¬ touched holder := fun hit => by
      simp [unshared holder hit (by simp [held])] at isShared
    rw [frames missed] at held
    rw [entries holder missed] at isShared
    exact ⟨⟨holder, held, isShared⟩, bytes holder used missed held⟩

/-- The entries that the two machines consider vacant are the same. -/
theorem Simulates.wants_iff (holder : Holder) :
    ref.wants holder = true ↔ st.Live holder.1 ∧ st.frameOf holder = none := by
  rw [EagerState.wants, Bool.and_eq_true, sim.live, sim.pages, Option.isNone_iff_eq_none,
    pageView_eq_none]

omit sim in
/-- An operation that finds its entry occupied is refused by both machines. -/
theorem Simulates.refused (sim : Simulates cellOf st ref) {place : Option Holder}
    (next : Holder → EagerState) :
    (∀ holder, place = some holder → st.Live holder.1 → st.frameOf holder ≠ none) →
      Simulates cellOf st
        (match place with
          | none => ref
          | some holder => if ref.wants holder then next holder else ref) := by
  intro occupied
  cases place with
  | none => exact sim
  | some holder =>
    have refused : ¬ ref.wants holder = true := fun wanted =>
      occupied holder rfl ((sim.wants_iff holder).mp wanted).1 ((sim.wants_iff holder).mp wanted).2
    simpa only [if_neg refused] using sim

theorem eagerLoad_eq (id : SpaceId) (vaddr : Nat) :
    userLoad st id vaddr = ref.load id vaddr := by
  unfold userLoad EagerState.load
  cases userPte vaddr with
  | none => rfl
  | some slot =>
    rw [sim.pages]
    cases points : st.frameOf (id, slot) with
    | none => simp [pageView, points]
    | some frame =>
      cases isShared : (st.entry id slot).shared with
      | false => simp [pageView, points, isShared]
      | true =>
        have cell := sim.cells frame ⟨(id, slot), points, isShared⟩
        simp [pageView, points, isShared, cell]

omit sim in
/-- A frame that nobody maps differs from every frame somebody maps. -/
theorem Filled.ne_of_frameOf {other : Holder} {used : Nat} {shared : Bool}
    (filled : Filled holder frame shared st st') (points : st.frameOf other = some used) :
    used ≠ frame := by
  rintro rfl
  exact filled.fresh other points

omit sim in
theorem Filled.pageView_of_ne (cell : Nat) {other : Holder}
    {shared : Bool} (filled : Filled holder frame shared st st') (different : other ≠ holder) :
    pageView (update cellOf frame cell) st' other = pageView cellOf st other := by
  refine pageView_congr ?_ ?_ ?_
  · rw [filled.frames, update_of_ne different]
  · rw [filled.entries other different]
  · intro used points
    have fresh := filled.ne_of_frameOf points
    rw [filled.mem, update_of_ne fresh, update_of_ne fresh]
    exact ⟨rfl, rfl⟩

/-- Mapping a page gives both machines a page of zeros. -/
theorem Simulates.map {holder : Holder} {frame : Nat} (filled : Filled holder frame false st st') :
    Simulates cellOf st'
      { ref with pages := update ref.pages holder (some (.own fun _ => 0)) } := by
  refine sim.move (· = holder) (fun id => (sim.live id).trans (filled.live id).symm)
    (sim.nextSpace.trans filled.nextSpace.symm) (sim.active.trans filled.active.symm)
    filled.entries ?_ ?_ ?_ (fun other different => update_of_ne different ..) rfl rfl
  · intro other used _ points
    rw [filled.mem, update_of_ne (filled.ne_of_frameOf points)]
  · rintro _ rfl -
    rw [filled.entry]
    rfl
  · rintro _ rfl
    simp [pageView, filled.frames, filled.entry, mappedEntry, filled.mem]

/-- Opening a shared region makes the new frame implement the new cell. -/
theorem Simulates.share (filled : Filled holder frame true st st') :
    Simulates (update cellOf frame ref.nextCell) st'
      { ref with
        pages := update ref.pages holder (some (.shared ref.nextCell))
        cells := update ref.cells ref.nextCell fun _ => 0
        nextCell := ref.nextCell + 1 } := by
  have cases : ∀ used, SharedFrame st' used →
      used = frame ∨ used ≠ frame ∧ SharedFrame st used := by
    rintro used ⟨other, points, isShared⟩
    by_cases same : other = holder
    · subst other
      left
      rw [filled.frames, update_self] at points
      exact (Option.some.inj points).symm
    · right
      rw [filled.frames, update_of_ne same] at points
      rw [filled.entries other same] at isShared
      exact ⟨filled.ne_of_frameOf points, other, points, isShared⟩
  exact {
    live := fun id => (sim.live id).trans (filled.live id).symm
    nextSpace := sim.nextSpace.trans filled.nextSpace.symm
    active := sim.active.trans filled.active.symm
    pages := by
      funext other
      by_cases same : other = holder
      · subst other
        simp [pageView, filled.frames, filled.entry, mappedEntry]
      · rw [filled.pageView_of_ne ref.nextCell same]
        simp [update_of_ne same, sim.pages]
    cells := by
      intro used isShared
      rcases cases used isShared with rfl | ⟨different, before⟩
      · simp [filled.mem]
      · have older : cellOf used ≠ ref.nextCell := Nat.ne_of_lt (sim.cell_lt used before)
        simp [filled.mem, different, older, sim.cells used before]
    cell_lt := by
      intro used isShared
      rcases cases used isShared with rfl | ⟨different, before⟩
      · simp
      · rw [update_of_ne different]
        exact Nat.lt_succ_of_lt (sim.cell_lt used before)
    cell_injective := by
      intro used other isShared otherShared same
      rcases cases used isShared with rfl | ⟨different, before⟩ <;>
        rcases cases other otherShared with rfl | ⟨different', before'⟩
      · rfl
      · rw [update_self, update_of_ne different'] at same
        exact (Nat.ne_of_lt (sim.cell_lt other before') same.symm).elim
      · rw [update_self, update_of_ne different] at same
        exact (Nat.ne_of_lt (sim.cell_lt used before) same).elim
      · rw [update_of_ne different, update_of_ne different'] at same
        exact sim.cell_injective used other before before' same }

theorem Simulates.unmap (released : Released holder st st') :
    Simulates cellOf st' { ref with pages := update ref.pages holder none } := by
  refine sim.move (· = holder) (fun id => (sim.live id).trans (released.live id).symm)
    (sim.nextSpace.trans released.nextSpace.symm) (sim.active.trans released.active.symm)
    released.entries (fun _ _ _ _ => by rw [released.mem]) ?_ ?_
    (fun other different => update_of_ne different ..) rfl rfl
  · rintro _ rfl mapped
    simp [released.frames] at mapped
  · rintro _ rfl
    simp [pageView, released.frames]

/-- The reference machine does not notice a copy-on-write break: the page has
the same contents as before. -/
theorem Simulates.broken {copy : Nat} (points : st.frameOf holder = some frame)
    (notShared : (st.entry holder.1 holder.2).shared = false)
    (broken : Broken holder frame copy st st') : Simulates cellOf st' ref := by
  refine sim.move (· = holder) (fun id => (sim.live id).trans (broken.live id).symm)
    (sim.nextSpace.trans broken.nextSpace.symm) (sim.active.trans broken.active.symm)
    broken.entries (fun other used _ => broken.others other used) ?_ ?_ (fun _ _ => rfl) rfl rfl
  · rintro _ rfl -
    rw [broken.shared, notShared]
  · rintro _ rfl
    simp [sim.pages, pageView, broken.frames, broken.shared, points, notShared, broken.bytes]

/-- One turn of the clone loop copies one page of the reference machine. -/
theorem Simulates.copyPage {parent child : SpaceId} {slot : Slot}
    (copied : Copied parent child slot st st') :
    Simulates cellOf st' (ref.copyPage parent child slot) := by
  refine sim.transport ?_ ?_ ?_ ?_ ?_ rfl rfl
  · exact fun id => (sim.live id).trans (copied.live id).symm
  · exact sim.nextSpace.trans copied.nextSpace.symm
  · exact sim.active.trans copied.active.symm
  · funext other
    simp only [EagerState.copyPage, sim.pages]
    by_cases same : other = (child, slot)
    · subst other
      rw [update_self]
      unfold pageView
      rw [copied.frames, update_self]
      cases points : st.frameOf (parent, slot) with
      | none => rfl
      | some frame => simp [copied.sharedChild (by simp [points]), copied.mem]
    · rw [update_of_ne same]
      refine (pageView_congr ?_ (copied.shared other same) ?_).symm
      · rw [copied.frames, update_of_ne same]
      · exact fun used _ => ⟨by rw [copied.mem], rfl⟩
  · rintro used ⟨other, points, isShared⟩
    refine ⟨?_, by rw [copied.mem]⟩
    by_cases same : other = (child, slot)
    · subst other
      rw [copied.frames, update_self] at points
      rw [copied.sharedChild (by simp [points])] at isShared
      exact ⟨(parent, slot), points, isShared⟩
    · rw [copied.frames, update_of_ne same] at points
      rw [copied.shared other same] at isShared
      exact ⟨other, points, isShared⟩

omit sim in
theorem Simulates.create (inv : FrameInv reserved st) (sim : Simulates cellOf st ref)
    (opened : Opened st st') : Simulates cellOf st' ref.create := by
  have dead : ¬ st.Live st.nextSpace := fun live =>
    Nat.lt_irrefl _ (inv.live_lt st.nextSpace live)
  refine sim.move (·.1 = st.nextSpace) ?_ ?_ (sim.active.trans opened.active.symm)
    (fun holder different => opened.entry_of_ne different holder.2)
    (fun _ _ _ _ => by rw [opened.mem]) ?_ ?_ (fun _ _ => rfl) rfl rfl
  · intro id
    obtain ⟨space, -, spacesEq⟩ := opened.spaces
    simp only [EagerState.create, sim.nextSpace]
    by_cases same : id = st.nextSpace
    · subst id
      simp [Live, spacesEq]
    · rw [update_of_ne same, sim.live id]
      simp [Live, spacesEq, update_of_ne same]
  · rw [opened.nextSpace, EagerState.create, sim.nextSpace]
  · rintro ⟨_, slot⟩ rfl mapped
    exact (mapped (opened.frameOf_child slot)).elim
  · rintro ⟨_, slot⟩ rfl
    rw [pageView_eq_none.mpr (opened.frameOf_child slot)]
    change ref.pages _ = none
    rw [sim.pages]
    exact pageView_eq_none.mpr (frameOf_eq_none_of_not_live dead)

theorem Simulates.activate (ptr : SpacePtr) :
    Simulates cellOf (pagingActivateAddressSpace st ptr) (ref.activate ptr) := by
  have selected : (ref.activate ptr).active = (pagingActivateAddressSpace st ptr).active := by
    rw [pagingActivateAddressSpace_eq]
    cases ptr with
    | null | kernel => rfl
    | user id =>
      by_cases live : st.Live id
      · have present : ¬ (st.spaces id).isNone = true := not_isNone_iff_live.mpr live
        simp only [EagerState.activate, (sim.live id).mpr live, if_true, present]
        rfl
      · have absent : (st.spaces id).isNone = true := by
          by_contra present
          exact live (not_isNone_iff_live.mp present)
        have dead : ¬ ref.live id = true := fun alive => live ((sim.live id).mp alive)
        simp only [EagerState.activate, dead, absent, if_true]
        rfl
  have unchanged : ref.activate ptr = { ref with active := (ref.activate ptr).active } := by
    cases ptr <;> rfl
  rw [unchanged, selected, pagingActivateAddressSpace_eq]
  refine sim.transport sim.live sim.nextSpace rfl sim.pages ?_ rfl rfl
  exact fun used isShared => ⟨isShared, rfl⟩

/-- Destruction removes the pages of one space and keeps all others. -/
theorem Simulates.destroy {id : SpaceId} {space : AddressSpace} {emptied : PagingState}
    {selected : SpacePtr}
    (emptying : Emptied id allSlots { st with active := selected } emptied)
    (selectedEq : selected = if SpacePtr.user id = st.active then .kernel else st.active) :
    Simulates cellOf (freeSpace id space emptied)
      { ref with
        live := update ref.live id false
        active := if .user id = ref.active then .kernel else ref.active
        pages := fun holder => if holder.1 = id then none else ref.pages holder } := by
  have entries : ∀ {other : SpaceId}, other ≠ id → ∀ slot,
      (freeSpace id space emptied).entry other slot = st.entry other slot := by
    intro other different slot
    have kept := emptying.others (other, slot) fun same => (different same).elim
    refine Eq.trans ?_ kept
    simp [freeSpace, freeBlock, freeObject, PagingState.entry, update_of_ne different]
  have gone : ∀ slot, (freeSpace id space emptied).frameOf (id, slot) = none :=
    fun slot => frameOf_eq_none_of_not_live (by simp [Live, freeSpace])
  refine sim.move (·.1 = id) ?_ (sim.nextSpace.trans emptying.nextSpace.symm) ?_
    (fun holder different => entries different holder.2)
    (fun _ used _ _ => congrFun emptying.mem used) (fun holder same mapped => ?_)
    (fun holder same => ?_) (fun holder different => if_neg different) rfl rfl
  · intro other
    by_cases same : other = id
    · subst other
      simp [Live, freeSpace]
    · have alive : emptied.Live other ↔ st.Live other := emptying.live other
      simp only [update_of_ne same, sim.live other, ← alive]
      simp [Live, freeSpace, freeBlock, freeObject, update_of_ne same]
  · have current : (freeSpace id space emptied).active = selected := emptying.active
    rw [current, selectedEq, sim.active]
  · obtain ⟨_, slot⟩ := holder
    subst same
    exact (mapped (gone slot)).elim
  · obtain ⟨_, slot⟩ := holder
    subst same
    rw [pageView_eq_none.mpr (gone slot)]
    exact if_pos rfl

omit sim

/-- A store through a writable entry.  A private frame has no other holder; a
shared frame is the cell that all its holders see. -/
theorem Simulates.write {holder : Holder} {frame offset : Nat} {byte : UInt8}
    (inv : FrameInv reserved st) (sim : Simulates cellOf st ref)
    (points : st.frameOf holder = some frame) (writable : (st.entry holder.1 holder.2).rw = true) :
    Simulates cellOf (st.storeByte frame offset byte) (ref.write holder offset byte) := by
  have page : ref.pages holder = pageView cellOf st holder := by rw [sim.pages]
  cases isShared : (st.entry holder.1 holder.2).shared with
  | false =>
    have sole : ∀ other used, other ≠ holder → st.frameOf other = some used → used ≠ frame := by
      rintro other used different held rfl
      have common := (inv.aliases holder other used (Ne.symm different) points held).2
      simp [common.readOnly writable] at isShared
    have bytes : ∀ other used, other ≠ holder → st.frameOf other = some used →
        (st.storeByte frame offset byte).mem used = st.mem used :=
      fun other used different held => by
        rw [storeByte_mem, update_of_ne (sole other used different held)]
    have view : ref.pages holder = some (.own (st.mem frame)) := by
      rw [page]
      simp [pageView, points, isShared]
    simp only [EagerState.write, view]
    refine sim.move (· = holder) sim.live sim.nextSpace sim.active (fun _ _ => by rw [entry_storeByte])
      bytes ?_ ?_ (fun other different => update_of_ne different ..) rfl rfl
    · rintro _ rfl -
      rw [entry_storeByte, isShared]
    · rintro _ rfl
      simp [pageView, points, isShared, storeByte_mem]
  | true =>
    have here : SharedFrame st frame := ⟨holder, points, isShared⟩
    have view : ref.pages holder = some (.shared (cellOf frame)) := by
      rw [page]
      simp [pageView, points, isShared]
    have before : ∀ used, SharedFrame (st.storeByte frame offset byte) used →
        SharedFrame st used := fun used isShared => isShared
    simp only [EagerState.write, view]
    exact {
      live := sim.live
      nextSpace := sim.nextSpace
      active := sim.active
      pages := by
        rw [sim.pages]
        funext other
        unfold pageView
        rw [frameOf_storeByte, entry_storeByte]
        cases held : st.frameOf other with
        | none => rfl
        | some used =>
          cases otherShared : (st.entry other.1 other.2).shared with
          | true => simp
          | false =>
            have different : used ≠ frame := by
              rintro rfl
              have distinct : holder ≠ other := by
                rintro rfl
                simp [isShared] at otherShared
              have common := (inv.aliases holder other used distinct points held).2
              simp [← common.shared, isShared] at otherShared
            simp [storeByte_mem, update_of_ne different]
      cells := by
        intro used usedShared
        by_cases same : used = frame
        · subst used
          simp [storeByte_mem, sim.cells frame here]
        · have other : cellOf used ≠ cellOf frame := fun equal =>
            same (sim.cell_injective used frame (before used usedShared) here equal)
          simp [storeByte_mem, update_of_ne same, update_of_ne other,
            sim.cells used (before used usedShared)]
      cell_lt := fun used usedShared => sim.cell_lt used (before used usedShared)
      cell_injective := fun used other usedShared otherShared =>
        sim.cell_injective used other (before used usedShared) (before other otherShared) }

theorem Simulates.clone (inv : FrameInv reserved st) (sim : Simulates cellOf st ref)
    (parent : SpacePtr) (succeeded : (pagingCloneAddressSpace st parent).2.outOfMemory = false) :
    Simulates cellOf (pagingCloneAddressSpace st parent).2 (ref.clone parent) := by
  obtain ⟨result, created, resultEq, createdInv, outcome⟩ :=
    pagingCreateUserAddressSpace_spec inv
  rcases pagingCloneAddressSpace_cases st parent with
    ⟨unchanged, notKernel, dead⟩ | ⟨rfl, empty⟩ | ⟨id, rfl, live, cloned⟩
  · rw [unchanged]
    cases parent with
    | null => exact sim
    | kernel => exact (notKernel rfl).elim
    | user id =>
      have absent : ¬ ref.live id = true := fun alive => dead id rfl ((sim.live id).mp alive)
      rw [EagerState.clone, if_neg absent]
      exact sim
  · rw [empty, resultEq] at succeeded ⊢
    rcases outcome with ⟨rfl, failed, -⟩ | ⟨rfl, -, opened⟩
    · simp [failed] at succeeded
    · exact sim.create inv opened
  · rw [cloned result created resultEq] at succeeded ⊢
    rcases outcome with ⟨rfl, failed, -⟩ | ⟨rfl, -, opened⟩
    · simp [failed] at succeeded
    · have distinct : id ≠ st.nextSpace := Nat.ne_of_lt (inv.live_lt id live)
      have looped := cowClone_foldl_spec id st.nextSpace (EagerState.copyPage id st.nextSpace)
        (Simulates cellOf) (fun _ _ _ _ sim copied => sim.copyPage copied) allSlots
        allSlots_nodup createdInv opened.live_child (fun slot _ => opened.frameOf_child slot)
        ref.create (sim.create inv opened)
      dsimp only
      rw [EagerState.clone, if_pos ((sim.live id).mpr live), sim.nextSpace,
        EagerState.copyPages_eq_foldl distinct]
      exact looped.2

/-- Every operation that obtains the memory it asks for is matched by the
reference machine. -/
theorem pagingStep_simulates (inv : FrameInv reserved st) (sim : Simulates cellOf st ref)
    (op : PagingOp) (succeeded : (pagingStep st op).outOfMemory = false) :
    ∃ cellOf, Simulates cellOf (pagingStep st op) (eagerStep ref op) := by
  cases op with
  | create =>
    obtain ⟨result, created, resultEq, -, outcome⟩ := pagingCreateUserAddressSpace_spec inv
    rw [pagingStep, resultEq] at succeeded ⊢
    rcases outcome with ⟨-, failed, -⟩ | ⟨-, -, opened⟩
    · simp [failed] at succeeded
    · exact ⟨cellOf, sim.create inv opened⟩
  | clone parent => exact ⟨cellOf, sim.clone inv parent succeeded⟩
  | map space vaddr =>
    rw [eagerStep, EagerState.map]
    rw [pagingStep, pagingMapUserPage_eq] at succeeded ⊢
    rcases fillEntry_cases (target space vaddr) false with
      ⟨occupied, unchanged⟩ | ⟨holder, found, live, vacant, fills⟩
    · rw [unchanged]
      exact ⟨cellOf, sim.refused _ occupied⟩
    · simp only [found, (sim.wants_iff holder).mpr ⟨live, vacant⟩, if_true] at fills ⊢
      rcases fills.effect inv live with failed | ⟨frame, filled⟩
      · simp [found, failed] at succeeded
      · exact ⟨cellOf, sim.map filled⟩
  | unmap space vaddr =>
    rw [eagerStep, EagerState.unmap]
    rcases pagingUnmapUserPage_cases st space vaddr with
      ⟨vacant, unchanged⟩ | ⟨holder, frame, found, points, result⟩
    · rw [pagingStep, unchanged]
      cases place : target space vaddr with
      | none => exact ⟨cellOf, sim⟩
      | some holder =>
        have nothing : ref.pages holder = none := by
          rw [sim.pages]
          exact pageView_eq_none.mpr (vacant holder place)
        refine ⟨cellOf, ?_⟩
        have same : update ref.pages holder none = ref.pages := by
          rw [← nothing, update_eq_self]
        simp only [same]
        exact sim
    · simp only [found]
      rw [pagingStep, result]
      exact ⟨cellOf, sim.unmap (releaseFrame_released points rfl)⟩
  | share vaddr =>
    rw [eagerStep, EagerState.share]
    rw [pagingStep, pagingSharePage_eq, ← sim.active] at succeeded ⊢
    rcases fillEntry_cases (shareTarget ref.active vaddr) true with
      ⟨occupied, unchanged⟩ | ⟨holder, found, live, vacant, fills⟩
    · rw [unchanged]
      exact ⟨cellOf, sim.refused _ occupied⟩
    · simp only [found, (sim.wants_iff holder).mpr ⟨live, vacant⟩, if_true] at fills ⊢
      rcases fills.effect inv live with failed | ⟨frame, filled⟩
      · simp [found, failed] at succeeded
      · exact ⟨_, sim.share filled⟩
  | destroy space =>
    rw [eagerStep]
    rcases pagingDestroyUserAddressSpace_cases st space with
      ⟨dead, unchanged⟩ | ⟨id, structures, rfl, present, result⟩
    · rw [pagingStep, unchanged]
      refine ⟨cellOf, ?_⟩
      cases space with
      | null | kernel => exact sim
      | user id =>
        have absent : ¬ ref.live id = true := fun alive =>
          dead id rfl ((sim.live id).mp alive)
        rw [EagerState.destroy, if_neg absent]
        exact sim
    · have live : st.Live id := by simp [Live, present]
      have start : FrameInv reserved
          { st with active := if SpacePtr.user id = st.active then .kernel else st.active } :=
        { inv with }
      have emptied := (destroy_foldl_spec id allSlots start).2
      rw [pagingStep, result, EagerState.destroy, if_pos ((sim.live id).mpr live)]
      exact ⟨cellOf, sim.destroy emptied rfl⟩
  | activate space => exact ⟨cellOf, sim.activate space⟩
  | cowFault vaddr =>
    rw [eagerStep]
    rcases pagingTryCow_cases st vaddr with
      ⟨-, unchanged⟩ | ⟨holder, frame, -, points, readOnly, breaks, -⟩
    · rw [pagingStep, unchanged]
      exact ⟨cellOf, sim⟩
    · rcases breaks.effect inv points with failed | ⟨copy, broken⟩
      · rw [pagingStep, failed] at succeeded
        simp at succeeded
      · exact ⟨cellOf, sim.broken points (inv.notShared_of_readOnly points readOnly) broken⟩
  | store vaddr byte =>
    rw [eagerStep, EagerState.store]
    have cases := userStore_cases st vaddr byte
    rw [← sim.active] at cases
    rcases cases with ⟨vacant, unchanged⟩ | ⟨holder, frame, found, points, writable, stored⟩ |
      ⟨holder, frame, next, found, points, readOnly, breaks, outcome⟩
    · rw [pagingStep, unchanged]
      cases place : target ref.active vaddr with
      | none => exact ⟨cellOf, sim⟩
      | some holder =>
        have nothing : ref.pages holder = none := by
          rw [sim.pages]
          exact pageView_eq_none.mpr (vacant holder place)
        exact ⟨cellOf, by simpa only [EagerState.write, nothing] using sim⟩
    · rw [pagingStep, stored, found]
      exact ⟨cellOf, sim.write inv points writable⟩
    · rw [pagingStep] at succeeded
      rcases outcome with failed | stored
      · simp [failed] at succeeded
      · rcases breaks.effect inv points with failed | ⟨copy, broken⟩
        · simp [stored, failed, storeByte] at succeeded
        · -- The store goes to the frame that the break left in the entry.
          have here : next.frameOf holder = some copy := by
            rw [broken.frames, update_self]
          have frameEq : (next.entry holder.1 holder.2).frame = copy :=
            (PageEntry.userFrame_eq_some.mp here).2.2
          have nextSim := sim.broken points (inv.notShared_of_readOnly points readOnly) broken
          have nextInv := (breaks.continues inv points readOnly).1
          rw [pagingStep, stored, found, frameEq]
          exact ⟨cellOf, nextSim.write nextInv here broken.writable⟩

/-- Cloning a live space asks for no memory beyond the one for the new space. -/
theorem pagingCloneAddressSpace_outOfMemory {parent child : SpaceId} {created : PagingState}
    (live : st.Live parent) (result : pagingCreateUserAddressSpace st = (some child, created)) :
    (pagingCloneAddressSpace st (.user parent)).2.outOfMemory = created.outOfMemory := by
  rcases pagingCloneAddressSpace_cases st (.user parent) with
    ⟨-, -, dead⟩ | ⟨isKernel, -⟩ | ⟨id, -, -, cloned⟩
  · exact (dead parent rfl live).elim
  · simp at isKernel
  · rw [cloned _ _ result]
    dsimp only
    rw [cowClone_foldl_outOfMemory]

theorem pagingInstall_simulates (pmm : Pmm) (heap : Heap) (mem : Nat → Nat → UInt8) :
    Simulates id (pagingInstall pmm heap mem) .initial := by
  have unmapped : ∀ holder, (pagingInstall pmm heap mem).frameOf holder = none :=
    fun holder => frameOf_eq_none_of_not_live (by simp [Live, pagingInstall])
  have unshared : ∀ frame, ¬ SharedFrame (pagingInstall pmm heap mem) frame := by
    rintro frame ⟨holder, points, -⟩
    simp [unmapped holder] at points
  exact {
    live := fun id => by simp [EagerState.initial, Live, pagingInstall]
    nextSpace := rfl
    active := rfl
    pages := funext fun holder => (pageView_eq_none.mpr (unmapped holder)).symm
    cells := fun frame isShared => (unshared frame isShared).elim
    cell_lt := fun frame isShared => (unshared frame isShared).elim
    cell_injective := fun frame _ isShared => (unshared frame isShared).elim }

/-- In every run in which no allocation fails, every space reads the same bytes
as in the reference machine, which copies all private pages at the fork. -/
theorem userLoad_run_eq_eager (pmm : Pmm) (heap : Heap) (mem : Nat → Nat → UInt8)
    (bounded : pmm.maxBlocks ≤ pmmMaxBlocks)
    (heapPages : ∀ frame ∈ heap.granted, Allocated pmm frame) (ops : List PagingOp) (succeeded :
      (Machine.run pagingStep (pagingInstall pmm heap mem) ops).outOfMemory = false)
    (id : SpaceId) (vaddr : Nat) :
    userLoad (Machine.run pagingStep (pagingInstall pmm heap mem) ops) id vaddr =
      (Machine.run eagerStep .initial ops).load id vaddr := by
  have related : ∃ cellOf, Simulates cellOf
      (Machine.run pagingStep (pagingInstall pmm heap mem) ops)
      (Machine.run eagerStep .initial ops) := by
    refine Machine.run_simulation (FrameInv {frame | Allocated pmm frame})
      (fun st => st.outOfMemory = true) (fun st ref => ∃ cellOf, Simulates cellOf st ref)
      (fun st op inv => (pagingStep_continues inv op).1)
      (fun st op inv => (pagingStep_continues inv op).2) ?_
      (pagingInstall_inv bounded heapPages) ⟨_, pagingInstall_simulates pmm heap mem⟩
      (by simp [succeeded])
    rintro st ref op inv ⟨cellOf, sim⟩ fine
    exact pagingStep_simulates inv sim op (by simpa using fine)
  obtain ⟨cellOf, sim⟩ := related
  exact eagerLoad_eq sim id vaddr

def afterWrite : PagingState :=
  Machine.run pagingStep (pagingInstall smallMemory emptyHeap fun _ _ => 0)
    [.create, .map (.user 0) 0x300000, .activate (.user 0), .store 0x300000 7]

theorem userLoad_forked_child :
    userLoad (Machine.run pagingStep (pagingInstall smallMemory emptyHeap fun _ _ => 0)
      ([.create, .map (.user 0) 0x300000, .activate (.user 0), .store 0x300000 7] ++
        [.clone (.user 0)])) 1 0x300000 = some 7 := by
  have live : (afterWrite.spaces 0).isSome = true := by decide +kernel
  have child : (pagingCreateUserAddressSpace afterWrite).1 = some 1 := by decide +kernel
  have fine : (pagingCreateUserAddressSpace afterWrite).2.outOfMemory = false := by
    decide +kernel
  have cloned : (pagingCloneAddressSpace afterWrite (.user 0)).2.outOfMemory = false :=
    (pagingCloneAddressSpace_outOfMemory live (Prod.ext child rfl)).trans fine
  rw [userLoad_run_eq_eager smallMemory emptyHeap _ (by decide) (by simp [emptyHeap]) _
    (by rw [Machine.run_concat]; exact cloned)]
  decide +kernel

end MiniOS.Paging
