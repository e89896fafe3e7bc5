import MiniOS.PagingFrameOwnership

/-!
# How frames change owners

Every operation of the paging layer is put together from a few moves: a frame
is granted by the physical memory manager, entered into a table, shared with a
second table, taken out of a table, or given back.  Each move keeps the
ownership invariant.
-/

namespace MiniOS.Paging

open Function PhysicalMemory KernelHeap HolderCount PagingState

variable {reserved : Set Nat} {st : PagingState} {id : SpaceId} {slot : Slot}
  {frame : Nat}

/-- A frame that nobody uses, apart from whoever reserved it. -/
structure Unowned (st : PagingState) (frame : Nat) : Prop where
  positive : 1 ≤ frame
  bounded : frame < st.pmm.maxBlocks
  notGranted : frame ∉ st.heap.granted
  unmapped : ∀ holder, st.frameOf holder ≠ some frame
  notTable : ∀ owner, st.tableFrame owner ≠ some frame

variable {entry : PageEntry}

theorem Unowned.setEntry (unowned : Unowned st frame)
    (live : st.Live id) (elsewhere : entry.userFrame ≠ some frame) :
    Unowned (st.setEntry id slot entry) frame where
  positive := unowned.positive
  bounded := unowned.bounded
  notGranted := unowned.notGranted
  unmapped := by
    intro holder held
    rcases frameOf_setEntry_cases live held with ⟨-, here⟩ | ⟨-, before⟩
    · exact elsewhere here
    · exact unowned.unmapped holder before
  notTable := by
    rw [tableFrame_setEntry]
    exact unowned.notTable

namespace FrameInv

variable (inv : FrameInv reserved st)

include inv

/-- A block that is still free belongs to nobody. -/
theorem unowned_of_free (positive : 1 ≤ frame) (bounded : frame < st.pmm.maxBlocks)
    (free : st.pmm.memoryMap frame = false) : frame ∉ reserved ∧ Unowned st frame := by
  have notAllocated : ¬ Allocated st.pmm frame := by simp [Allocated, free]
  exact ⟨fun member => notAllocated (inv.kept frame (Or.inl member)),
    { positive := positive
      bounded := bounded
      notGranted := fun member => notAllocated (inv.kept frame (Or.inr member))
      unmapped := fun holder points =>
        notAllocated (inv.mapped holder frame points).allocated
      notTable := fun owner owned =>
        notAllocated (inv.tables owner frame owned).allocated }⟩

/-- The tables stay as they are, and a frame whose allocation changes was free or kept before
and is free or kept afterwards. -/
theorem reallocate {reserved' : Set Nat} {pmm : Pmm} {heap : Heap} {log : List FreeEvent}
    (sameMax : pmm.maxBlocks = st.pmm.maxBlocks)
    (changes : ∀ other, (Allocated pmm other ↔ Allocated st.pmm other) ∧ (other ∈ reserved' ∨ other ∈ heap.granted ↔ other ∈ reserved ∨ other ∈ st.heap.granted) ∨ (Allocated st.pmm other → other ∈ reserved ∨ other ∈ st.heap.granted) ∧ (Allocated pmm other ↔ other ∈ reserved' ∨ other ∈ heap.granted))
    (freed : ∀ event ∈ log, event.allocated = true ∧ event.mappings = 0) :
    FrameInv reserved' { st with pmm := pmm, heap := heap, freeLog := log } := by
  have pool : ∀ other, PoolFrame reserved st.pmm st.heap other → PoolFrame reserved' pmm heap other := by
    intro other owned
    have unkept : ¬ (other ∈ reserved ∨ other ∈ st.heap.granted) :=
      fun kept => kept.elim owned.notReserved owned.notGranted
    obtain ⟨bit, same⟩ := (changes other).resolve_right fun changed =>
      unkept (changed.1 owned.allocated)
    rw [← same, not_or] at unkept
    exact ⟨owned.positive, sameMax ▸ owned.bounded, bit.mpr owned.allocated, unkept.1, unkept.2⟩
  exact { inv with
    maxBlocks_le := sameMax ▸ inv.maxBlocks_le
    mapped := fun holder other points => pool other (inv.mapped holder other points)
    tables := fun owner other owned => pool other (inv.tables owner other owned)
    kept := by
      intro other kept
      rcases changes other with ⟨bit, same⟩ | ⟨-, bit⟩
      · exact bit.mpr (inv.kept other (same.mp kept))
      · exact bit.mpr kept
    accounted := by
      intro other allocated
      rw [← or_assoc]
      rcases changes other with ⟨bit, same⟩ | ⟨-, bit⟩
      · rw [same, or_assoc]
        exact inv.accounted other (bit.mp allocated)
      · exact Or.inl (bit.mp allocated)
    freed := freed }

theorem of_sameGrants (heap : Heap) (log : List FreeEvent)
    (sameGrants : heap.granted = st.heap.granted) (sameLog : log = st.freeLog) :
    FrameInv reserved { st with heap := heap, freeLog := log } :=
  inv.reallocate rfl (fun other => Or.inl ⟨Iff.rfl, by rw [sameGrants]⟩) (sameLog ▸ inv.freed)

/-- The manager grants a block: it is reserved until it is put to use. -/
theorem grant {pmm : Pmm} (granted : Grants st.pmm 1 frame pmm) :
    FrameInv (insert frame reserved) { st with pmm := pmm } ∧
      frame ∉ reserved ∧ Unowned { st with pmm := pmm } frame := by
  have positive := granted.positive
  have bounded := granted.bounded
  have free := granted.free frame (Nat.le_refl frame) (Nat.lt_succ_self frame)
  obtain ⟨notReserved, unowned⟩ := inv.unowned_of_free positive (by omega) free
  refine ⟨inv.reallocate granted.sameMax (fun other => ?_) inv.freed, notReserved,
    { unowned with bounded := by simpa [granted.sameMax] using unowned.bounded }⟩
  by_cases same : other = frame
  · subst same
    exact Or.inr ⟨by simp [Allocated, free], by simp [Allocated, granted.map_one]⟩
  · exact Or.inl (by simp [Allocated, granted.map_one, same])

theorem takes {pmm : Pmm} {heap : Heap} {taken : List Nat}
    (grown : Takes st.pmm st.heap taken pmm heap) :
    FrameInv reserved { st with pmm := pmm, heap := heap } := by
  refine inv.reallocate grown.sameMax (fun other => ?_) inv.freed
  by_cases late : other ∈ taken
  · have free := (grown.fresh other late).2.2
    exact Or.inr ⟨by simp [Allocated, free], by simp [Allocated, grown.map, grown.granted, late]⟩
  · exact Or.inl (by simp [Allocated, grown.map, grown.granted, late])

omit inv

/-- A reserved frame that nobody uses is given back. -/
theorem giveBack (inv : FrameInv (insert frame reserved) st) (notReserved : frame ∉ reserved)
    (unowned : Unowned st frame) : FrameInv reserved (freeBlock st frame 0) := by
  have allocated : Allocated st.pmm frame := inv.kept frame (Or.inl (Or.inl rfl))
  obtain ⟨mapEq, maxEq⟩ :=
    pmmFreeBlock_allocated unowned.positive unowned.bounded allocated
  refine inv.reallocate maxEq (fun other => ?_) (fun event logged => ?_)
  · by_cases same : other = frame
    · subst same
      exact Or.inr ⟨by simp, by simp [Allocated, mapEq, notReserved, unowned.notGranted]⟩
    · exact Or.inl (by simp [Allocated, mapEq, same])
  · rcases List.mem_append.mp logged with early | late
    · exact inv.freed event early
    · rw [List.mem_singleton] at late
      subst event
      refine ⟨allocated, ?_⟩
      simp only [inv.mapCount_eq frame, holderCount_eq_zero unowned.unmapped]

/-- The frame behind an entry may be put there: it is a page, and its other holders agree
with the entry. -/
structure Admits (reserved : Set Nat) (st : PagingState) (holder : Holder) (entry : PageEntry)
    (frame : Nat) : Prop where
  pool : PoolFrame reserved st.pmm st.heap frame
  notTable : ∀ owner, st.tableFrame owner ≠ some frame
  joins : ∀ other, other ≠ holder → st.frameOf other = some frame → other.2 = holder.2 ∧
    Aliases (st.entry other.1 other.2) entry ∧ (entry.rw = true → entry.shared = true)
  sharedRw : entry.shared = true → entry.rw = true

variable (inv : FrameInv reserved st)

include inv

/-- One entry changes, and the reserved frames with it. -/
theorem exchange {reserved' : Set Nat} {ref : Nat → Nat}
    (live : st.Live id) (refs : ∀ other, ref other =
      holderCount (update st.frameOf (id, slot) entry.userFrame) other - 1)
    (admits : ∀ frame, entry.userFrame = some frame → Admits reserved' st (id, slot) entry frame)
    (added : ∀ other ∈ reserved', other ∉ reserved → Allocated st.pmm other ∧
      (∀ owner, st.tableFrame owner ≠ some other) ∧
      ∀ holder, holder ≠ (id, slot) → st.frameOf holder ≠ some other)
    (rest : ∀ other, other ∈ reserved ∨ st.frameOf (id, slot) = some other →
      other ∈ reserved' ∨ entry.userFrame = some other ∨
        ∃ holder, holder ≠ (id, slot) ∧ st.frameOf holder = some other) :
    FrameInv reserved' ({ st with pageRef := ref }.setEntry id slot entry) := by
  have live : PagingState.Live { st with pageRef := ref } id := live
  exact {
    maxBlocks_le := inv.maxBlocks_le
    live_lt := fun other alive => inv.live_lt other (live_setEntry.mp alive)
    refs := by
      rw [frameOf_setEntry live]
      exact refs
    mapped := by
      intro holder other held
      rcases frameOf_setEntry_cases live held with ⟨-, here⟩ | ⟨different, before⟩
      · exact (admits other here).pool
      · have owned := inv.mapped holder other before
        exact { owned with notReserved := fun member =>
          (added other member owned.notReserved).2.2 holder different before }
    tables := by
      intro owner other table
      rw [tableFrame_setEntry] at table
      have owned := inv.tables owner other table
      exact { owned with notReserved := fun member =>
        (added other member owned.notReserved).2.1 owner table }
    tables_unique := by
      rw [tableFrame_setEntry]
      exact inv.tables_unique
    tables_unmapped := by
      intro owner holder other table held
      rw [tableFrame_setEntry] at table
      rcases frameOf_setEntry_cases live held with ⟨-, here⟩ | ⟨-, before⟩
      · exact (admits other here).notTable owner table
      · exact inv.tables_unmapped owner holder other table before
    aliases := by
      intro holder second other distinct held alsoHeld
      rcases frameOf_setEntry_cases live held with ⟨rfl, here⟩ | ⟨different, before⟩ <;>
        rcases frameOf_setEntry_cases live alsoHeld with ⟨rfl, there⟩ | ⟨different', before'⟩
      · exact (distinct rfl).elim
      · rw [entry_setEntry_self live, entry_setEntry_of_ne live different']
        obtain ⟨sameSlot, common, readOnly⟩ := (admits other here).joins second different' before'
        exact ⟨sameSlot.symm, common.shared.symm, readOnly⟩
      · rw [entry_setEntry_of_ne live different, entry_setEntry_self live]
        obtain ⟨sameSlot, common, -⟩ := (admits other there).joins holder different before
        exact ⟨sameSlot, common⟩
      · rw [entry_setEntry_of_ne live different, entry_setEntry_of_ne live different']
        exact inv.aliases holder second other distinct before before'
    shared_rw := by
      intro holder other held shared
      rcases frameOf_setEntry_cases live held with ⟨rfl, here⟩ | ⟨different, before⟩
      · rw [entry_setEntry_self live] at shared ⊢
        exact (admits other here).sharedRw shared
      · rw [entry_setEntry_of_ne live different] at shared ⊢
        exact inv.shared_rw holder other before shared
    kept := by
      rintro other (member | member)
      · by_cases known : other ∈ reserved
        · exact inv.kept other (Or.inl known)
        · exact (added other member known).1
      · exact inv.kept other (Or.inr member)
    accounted := by
      intro other allocated
      rw [tableFrame_setEntry]
      have stays : ∀ holder, holder ≠ (id, slot) → st.frameOf holder = some other →
          ∃ holder, ({ st with pageRef := ref }.setEntry id slot entry).frameOf holder =
            some other := fun holder different before =>
        ⟨holder, (frameOf_setEntry_of_ne live different).trans before⟩
      by_cases touched : other ∈ reserved ∨ st.frameOf (id, slot) = some other
      · rcases rest other touched with member | here | ⟨holder, different, before⟩
        · exact Or.inl member
        · exact Or.inr (Or.inr (Or.inr ⟨(id, slot), (frameOf_setEntry_self live).trans here⟩))
        · exact Or.inr (Or.inr (Or.inr (stays holder different before)))
      · rw [not_or] at touched
        rcases inv.accounted other allocated with member | used | table | ⟨holder, before⟩
        · exact absurd member touched.1
        · exact Or.inr (Or.inl used)
        · exact Or.inr (Or.inr (Or.inl table))
        · refine Or.inr (Or.inr (Or.inr (stays holder ?_ before)))
          rintro rfl
          exact touched.2 before
    freed := inv.freed }

omit inv in
/-- A reserved frame is entered, writable, into a vacant entry. -/
theorem attach (entry : PageEntry) (inv : FrameInv (insert frame reserved) st)
    (notReserved : frame ∉ reserved) (unowned : Unowned st frame) (live : st.Live id)
    (vacant : st.frameOf (id, slot) = none) (points : entry.userFrame = some frame)
    (writable : entry.rw = true) : FrameInv reserved (st.setEntry id slot entry) := by
  have allocated : Allocated st.pmm frame := inv.kept frame (Or.inl (Or.inl rfl))
  refine inv.exchange live (fun other => ?_) (fun other here => ?_)
    (fun other member outside => (outside (Or.inr member)).elim) ?_
  · rw [points, inv.refs other]
    by_cases same : other = frame
    · subst other
      rw [holderCount_update_gain inv.finite (by simp [vacant]),
        holderCount_eq_zero unowned.unmapped]
    · rw [holderCount_update_of_ne (by simp [vacant]) (by simpa using Ne.symm same)]
  · obtain rfl : frame = other := by simpa [points] using here
    exact ⟨⟨unowned.positive, unowned.bounded, allocated, notReserved, unowned.notGranted⟩,
      unowned.notTable, fun other _ held => (unowned.unmapped other held).elim, fun _ => writable⟩
  · rintro other ((rfl | member) | held)
    · exact Or.inr (Or.inl points)
    · exact Or.inl member
    · simp [vacant] at held

theorem releaseFrame_of_shared (bounded : frame < st.pmm.maxBlocks)
    (shared : 0 < st.pageRef frame) :
    releaseFrame st frame =
      { st with pageRef := update st.pageRef frame (st.pageRef frame - 1) } := by
  have covered : frame < frameCount := Nat.lt_of_lt_of_le bounded inv.maxBlocks_le
  simp [releaseFrame, cowRefRelease, covered, shared]

/-- Unmapping one page: the last holder frees the frame, any other only takes
itself off the counter. -/
theorem release (points : st.frameOf (id, slot) = some frame) (gone : entry.userFrame = none) :
    FrameInv reserved ((releaseFrame st frame).setEntry id slot entry) := by
  have owned := inv.mapped (id, slot) frame points
  have live := live_of_frameOf points
  have count := inv.refs frame
  have vacated : ∀ {larger} other, entry.userFrame = some other →
      Admits larger st (id, slot) entry other := fun other here => by simp [gone] at here
  have notTable : ∀ owner, st.tableFrame owner ≠ some frame := fun owner table =>
    inv.tables_unmapped owner (id, slot) frame table points
  have loss : holderCount (update st.frameOf (id, slot) none) frame + 1 =
      holderCount st.frameOf frame :=
    holderCount_update_loss inv.finite points (by simp)
  have others : ∀ other, other ≠ frame →
      holderCount (update st.frameOf (id, slot) none) other = holderCount st.frameOf other := by
    intro other different
    refine holderCount_update_of_ne ?_ (by simp)
    rw [points]
    simpa using Ne.symm different
  by_cases shared : 0 < st.pageRef frame
  · rw [inv.releaseFrame_of_shared owned.bounded shared]
    refine inv.exchange live (fun other => ?_) vacated
      (fun other member notReserved => (notReserved member).elim) ?_
    · rw [gone]
      by_cases same : other = frame
      · subst other
        rw [update_self]
        omega
      · rw [update_of_ne same, others other same, inv.refs other]
    · rintro other (member | held)
      · exact Or.inl member
      · obtain rfl : frame = other := by simpa [points] using held
        refine Or.inr (Or.inr ?_)
        by_contra sole
        push Not at sole
        have single := holderCount_eq_one points fun other held => by
          by_contra different
          exact sole other different held
        omega
  · have zero : st.pageRef frame = 0 := by omega
    have result : releaseFrame st frame = freeBlock st frame 1 := by
      simp [releaseFrame, cowRefRelease, zero]
    have sole : ∀ holder, st.frameOf holder = some frame → holder = (id, slot) :=
      fun holder held => inv.sole_holder points zero held
    have detached : FrameInv (insert frame reserved) (st.setEntry id slot entry) := by
      refine inv.exchange live (fun other => ?_) vacated ?_ ?_
      · rw [gone]
        by_cases same : other = frame
        · subst other
          omega
        · rw [others other same, inv.refs other]
      · rintro other (rfl | member) notReserved
        · exact ⟨owned.allocated, notTable, fun holder different held =>
            different (sole holder held)⟩
        · exact (notReserved member).elim
      · rintro other (member | held)
        · exact Or.inl (Or.inr member)
        · exact Or.inl (Or.inl (by simpa [points] using held.symm))
    have unowned : Unowned (st.setEntry id slot entry) frame :=
      { positive := owned.positive
        bounded := owned.bounded
        notGranted := owned.notGranted
        unmapped := by
          intro holder held
          rcases frameOf_setEntry_cases live held with ⟨-, here⟩ | ⟨different, before⟩
          · simp [gone] at here
          · exact different (sole holder before)
        notTable := by
          rw [tableFrame_setEntry]
          exact notTable }
    have given := detached.giveBack owned.notReserved unowned
    rw [result]
    -- The entry still counts when the frame is freed, so the log differs from
    -- the one of the state that gives the frame back after detaching.
    exact { given with
      freed := by
        intro event logged
        rcases List.mem_append.mp logged with early | late
        · exact inv.freed event early
        · rw [List.mem_singleton] at late
          subst event
          refine ⟨owned.allocated, ?_⟩
          simp only [inv.mapCount_eq frame]
          omega }

/-- The flags of a mapped entry change.  The page stays in its shared region or
outside it, and becomes writable outside one only for a sole holder. -/
theorem retag (points : st.frameOf (id, slot) = some frame) (kept : entry.userFrame = some frame)
    (sameShared : entry.shared = (st.entry id slot).shared)
    (sharedRw : entry.shared = true → entry.rw = true)
    (unique : entry.rw = true → entry.shared = false → ∀ holder, st.frameOf holder = some frame → holder = (id, slot)) :
    FrameInv reserved (st.setEntry id slot entry) := by
  refine inv.exchange (live_of_frameOf points) (fun other => ?_) (fun other here => ?_)
    (fun other member outside => (outside member).elim) ?_
  · rw [kept, ← points, update_eq_self]
    exact inv.refs other
  · obtain rfl : frame = other := by simpa [kept] using here
    refine ⟨inv.mapped _ _ points, fun owner table => inv.tables_unmapped _ _ _ table points,
      fun other different held => ?_, sharedRw⟩
    obtain ⟨sameSlot, common⟩ := inv.aliases other (id, slot) frame different held points
    refine ⟨sameSlot, ⟨common.shared.trans sameShared.symm, common.readOnly⟩, fun writable => ?_⟩
    by_contra notShared
    exact different (unique writable (by simpa using notShared) other held)
  · exact fun other used => used.imp_right fun held => Or.inl (kept.trans (points.symm.trans held))

/-- A vacant entry of another space joins the holders of a frame that is
read-only or belongs to a shared region. -/
theorem join {parent child : SpaceId} (points : st.frameOf (parent, slot) = some frame)
    (shareable : (st.entry parent slot).rw = true → (st.entry parent slot).shared = true)
    (live : st.Live child) (vacant : st.frameOf (child, slot) = none) :
    FrameInv reserved (cowRefInc (st.setEntry child slot (st.entry parent slot)) frame) := by
  have owned := inv.mapped (parent, slot) frame points
  have bounded : frame < frameCount := Nat.lt_of_lt_of_le owned.bounded inv.maxBlocks_le
  have result : cowRefInc (st.setEntry child slot (st.entry parent slot)) frame =
      { st with
        pageRef := update st.pageRef frame
          ((st.pageRef frame + 1) % 2 ^ 16) }.setEntry child slot (st.entry parent slot) := by
    simp only [cowRefInc, bounded, if_true]
    rfl
  rw [result]
  refine inv.exchange live (fun other => ?_) (fun other here => ?_)
    (fun other member outside => (outside member).elim) ?_
  · rw [show (st.entry parent slot).userFrame = some frame from points]
    by_cases same : other = frame
    · subst other
      have count := inv.refs frame
      have positive := holderCount_pos inv.finite points
      have small := inv.holderCount_le frame
      have limit : frameCount = 8192 := by decide
      rw [update_self, holderCount_update_gain inv.finite (by simp [vacant]),
        Nat.mod_eq_of_lt (by omega)]
      omega
    · rw [update_of_ne same, inv.refs other,
        holderCount_update_of_ne (by simp [vacant]) (by simpa using Ne.symm same)]
  · obtain rfl : frame = other := Option.some.inj (points.symm.trans here)
    refine ⟨owned, fun owner table => inv.tables_unmapped _ _ _ table points,
      fun other different held => ?_, inv.shared_rw (parent, slot) frame points⟩
    by_cases same : other = (parent, slot)
    · subst other
      exact ⟨rfl, ⟨rfl, shareable⟩, shareable⟩
    · obtain ⟨sameSlot, common⟩ := inv.aliases other (parent, slot) frame same held points
      exact ⟨sameSlot, common, shareable⟩
  · exact fun other used => used.imp_right fun held => by simp [vacant] at held

/-- A space without user pages appears or disappears, and the reserved frames change with
its own. -/
theorem setSpace {reserved' : Set Nat} {target : Option AddressSpace} {next count : Nat}
    (vacant : ∀ slot, st.frameOf (id, slot) = none)
    (empty : ∀ space ∈ target, ∀ slot, (space.pte slot).userFrame = none)
    (later : st.nextSpace ≤ next) (below : target.isSome → id < next)
    (distinct : ∀ space ∈ target, Injective space.table)
    (tables : ∀ space ∈ target, ∀ kind, PoolFrame reserved' st.pmm st.heap (space.table kind) ∧
      Unowned st (space.table kind))
    (added : ∀ other ∈ reserved', other ∉ reserved → Allocated st.pmm other ∧
      (∀ owner, st.tableFrame owner = some other → owner.1 = id) ∧
      ∀ holder, st.frameOf holder ≠ some other)
    (rest : ∀ other, other ∈ reserved ∨ (∃ kind, st.tableFrame (id, kind) = some other) →
      other ∈ reserved' ∨ ∃ space ∈ target, ∃ kind, space.table kind = other) :
    FrameInv reserved'
      { st with
        spaces := update st.spaces id target
        nextSpace := next
        userSpaceCount := count } := by
  have frames : PagingState.frameOf { st with spaces := update st.spaces id target } =
      st.frameOf := frameOf_update_spaces vacant empty
  have entries : ∀ {holder : Holder} {other}, st.frameOf holder = some other →
      PagingState.entry { st with spaces := update st.spaces id target }
        holder.1 holder.2 = st.entry holder.1 holder.2 := by
    intro holder other held
    have different : holder.1 ≠ id := by
      rintro rfl
      simp [vacant holder.2] at held
    simp [PagingState.entry, update_of_ne different]
  have owners : ∀ {owner : SpaceId × TableKind} {other}, PagingState.tableFrame
      { st with spaces := update st.spaces id target } owner = some other →
      owner.1 = id ∧ (∃ space ∈ target, space.table owner.2 = other) ∨
        owner.1 ≠ id ∧ st.tableFrame owner = some other := by
    intro owner other table
    by_cases same : owner.1 = id
    · exact Or.inl ⟨same, by simpa [tableFrame, same] using table⟩
    · exact Or.inr ⟨same, by simpa [tableFrame, update_of_ne same] using table⟩
  exact {
    maxBlocks_le := inv.maxBlocks_le
    live_lt := by
      intro other live
      by_cases same : other = id
      · subst other
        exact below (by simpa [Live] using live)
      · exact (inv.live_lt other (by simpa [Live, update_of_ne same] using live)).trans_le later
    refs := fun other => frames ▸ inv.refs other
    mapped := by
      intro holder other held
      have held : st.frameOf holder = some other := frames ▸ held
      have owned := inv.mapped holder other held
      exact { owned with notReserved := fun member =>
        (added other member owned.notReserved).2.2 holder held }
    tables := by
      intro owner other table
      rcases owners table with ⟨-, space, isTarget, rfl⟩ | ⟨different, before⟩
      · exact (tables space isTarget _).1
      · have owned := inv.tables owner other before
        exact { owned with
          notReserved := fun member =>
            different ((added other member owned.notReserved).2.1 owner before) }
    tables_unique := by
      intro owner second other table alsoTable
      rcases owners table with ⟨same, space, isTarget, rfl⟩ | ⟨-, before⟩ <;>
        rcases owners alsoTable with ⟨same', space', isTarget', equal⟩ | ⟨-, before'⟩
      · obtain rfl : space = space' := Option.mem_unique isTarget isTarget'
        exact Prod.ext (same.trans same'.symm) (distinct space isTarget equal.symm)
      · exact ((tables space isTarget _).2.notTable second before').elim
      · exact ((tables space' isTarget' _).2.notTable owner (equal ▸ before)).elim
      · exact inv.tables_unique owner second other before before'
    tables_unmapped := by
      intro owner holder other table held
      have held : st.frameOf holder = some other := frames ▸ held
      rcases owners table with ⟨-, space, isTarget, rfl⟩ | ⟨-, before⟩
      · exact (tables space isTarget _).2.unmapped holder held
      · exact inv.tables_unmapped owner holder other before held
    aliases := by
      intro holder second other different held alsoHeld
      have held : st.frameOf holder = some other := frames ▸ held
      have alsoHeld : st.frameOf second = some other := frames ▸ alsoHeld
      have common := inv.aliases holder second other different held alsoHeld
      rw [← entries held, ← entries alsoHeld] at common
      exact common
    shared_rw := by
      intro holder other held shared
      have held : st.frameOf holder = some other := frames ▸ held
      have implied := inv.shared_rw holder other held
      rw [← entries held] at implied
      exact implied shared
    kept := by
      rintro other (member | member)
      · by_cases known : other ∈ reserved
        · exact inv.kept other (Or.inl known)
        · exact (added other member known).1
      · exact inv.kept other (Or.inr member)
    accounted := by
      intro other allocated
      by_cases touched : other ∈ reserved ∨ ∃ kind, st.tableFrame (id, kind) = some other
      · refine (rest other touched).imp_right ?_
        rintro ⟨space, isTarget, kind, same⟩
        refine Or.inr (Or.inl ⟨(id, kind), ?_⟩)
        simp [tableFrame, Option.mem_def.mp isTarget, same]
      · rw [not_or, not_exists] at touched
        rcases inv.accounted other allocated with
          member | used | ⟨⟨owner, kind⟩, table⟩ | ⟨holder, held⟩
        · exact absurd member touched.1
        · exact Or.inr (Or.inl used)
        · have different : owner ≠ id := by
            rintro rfl
            exact touched.2 kind table
          exact Or.inr (Or.inr (Or.inl ⟨(owner, kind), by
            simpa [tableFrame, update_of_ne different] using table⟩))
        · exact Or.inr (Or.inr (Or.inr ⟨holder, (congrFun frames holder).trans held⟩))
    freed := inv.freed }

omit inv in
/-- A new space without user pages takes over three reserved frames. -/
theorem openSpace {space : AddressSpace} {count : Nat}
    (inv : FrameInv (reserved ∪ Set.range space.table) st)
    (outside : ∀ kind, space.table kind ∉ reserved)
    (unowned : ∀ kind, Unowned st (space.table kind)) (distinct : Function.Injective space.table)
    (empty : ∀ slot, (space.pte slot).userFrame = none) :
    FrameInv reserved
      { st with
        spaces := update st.spaces st.nextSpace (some space)
        nextSpace := st.nextSpace + 1
        userSpaceCount := count } := by
  have dead : ¬ st.Live st.nextSpace := fun live =>
    Nat.lt_irrefl _ (inv.live_lt st.nextSpace live)
  refine inv.setSpace (fun slot => frameOf_eq_none_of_not_live dead) ?_ (Nat.le_succ _)
    (fun _ => Nat.lt_succ_self _) ?_ ?_ (fun other member known => (known (Or.inl member)).elim) ?_
  · rintro _ ⟨⟩ slot
    exact empty slot
  · rintro _ ⟨⟩
    exact distinct
  · rintro _ ⟨⟩ kind
    exact ⟨⟨(unowned kind).positive, (unowned kind).bounded,
      inv.kept _ (Or.inl (Or.inr ⟨kind, rfl⟩)), outside kind, (unowned kind).notGranted⟩,
      unowned kind⟩
  · rintro other ((member | ⟨kind, rfl⟩) | ⟨kind, table⟩)
    · exact Or.inl member
    · exact Or.inr ⟨space, rfl, kind, rfl⟩
    · exact (dead (live_of_tableFrame table)).elim

/-- A space without user pages disappears; its three frames are reserved until
they are given back. -/
theorem closeSpace {space : AddressSpace} {count : Nat}
    (table : ∀ kind, st.tableFrame (id, kind) = some (space.table kind))
    (vacant : ∀ slot, st.frameOf (id, slot) = none) :
    FrameInv (reserved ∪ Set.range space.table)
      { st with
        spaces := update st.spaces id none
        userSpaceCount := count } := by
  refine inv.setSpace vacant (by simp) le_rfl (by simp) (by simp) (by simp) ?_ ?_
  · rintro other (member | ⟨kind, rfl⟩) known
    · exact (known member).elim
    · exact ⟨(inv.tables _ _ (table kind)).allocated,
        fun owner owned => congrArg Prod.fst (inv.tables_unique owner _ _ owned (table kind)),
        fun holder => inv.tables_unmapped _ holder _ (table kind)⟩
  · rintro other (member | ⟨kind, owned⟩)
    · exact Or.inl (Or.inl member)
    · exact Or.inl (Or.inr ⟨kind, Option.some.inj ((table kind).symm.trans owned)⟩)

end FrameInv

end MiniOS.Paging
