import MiniOS.PagingFrames
import MiniOS.RunInvariant

/-!
# Frame ownership

Every allocated frame has one owner: it is a page mapped by the user entries
of some spaces, the directory or a table of one space, a page of the kernel
heap, or a frame that belonged to somebody else before the run started.  The
counters of `page_ref` agree with the number of entries behind each frame.

`FrameInv reserved st` states this with `reserved` the set of frames that
belong to somebody else.  A frame in transit inside an operation, allocated
but not yet entered into a table, is added to `reserved` until it is.
-/

namespace MiniOS.Paging

open PhysicalMemory KernelHeap HolderCount PagingState

/-- The frames that the paging layer may own: managed, allocated, and neither
reserved nor kept by the heap. -/
structure PoolFrame (reserved : Set Nat) (pmm : Pmm) (heap : Heap) (frame : Nat) : Prop where
  positive : 1 ≤ frame
  bounded : frame < pmm.maxBlocks
  allocated : Allocated pmm frame
  notReserved : frame ∉ reserved
  notGranted : frame ∉ heap.granted

/-- What two entries with one frame behind them have in common: both or neither
belong to a shared region, and outside a shared region the frame is read-only. -/
structure Aliases (entry other : PageEntry) : Prop where
  shared : entry.shared = other.shared
  readOnly : entry.rw = true → entry.shared = true

structure FrameInv (reserved : Set Nat) (st : PagingState) : Prop where
  maxBlocks_le : st.pmm.maxBlocks ≤ frameCount
  live_lt : ∀ id, st.Live id → id < st.nextSpace
  refs : ∀ frame, st.pageRef frame = holderCount st.frameOf frame - 1
  mapped : ∀ holder frame, st.frameOf holder = some frame → PoolFrame reserved st.pmm st.heap frame
  tables : ∀ owner frame, st.tableFrame owner = some frame → PoolFrame reserved st.pmm st.heap frame
  tables_unique : ∀ owner other frame, st.tableFrame owner = some frame →
    st.tableFrame other = some frame → owner = other
  tables_unmapped : ∀ owner holder frame, st.tableFrame owner = some frame →
    st.frameOf holder ≠ some frame
  aliases : ∀ holder other frame, holder ≠ other → st.frameOf holder = some frame →
    st.frameOf other = some frame →
    holder.2 = other.2 ∧ Aliases (st.entry holder.1 holder.2) (st.entry other.1 other.2)
  shared_rw : ∀ holder frame, st.frameOf holder = some frame →
    (st.entry holder.1 holder.2).shared = true →
    (st.entry holder.1 holder.2).rw = true
  kept : ∀ frame, frame ∈ reserved ∨ frame ∈ st.heap.granted → Allocated st.pmm frame
  accounted : ∀ frame, Allocated st.pmm frame →
    frame ∈ reserved ∨ frame ∈ st.heap.granted ∨
      (∃ owner, st.tableFrame owner = some frame) ∨
      ∃ holder, st.frameOf holder = some frame
  freed : ∀ event ∈ st.freeLog, event.allocated = true ∧ event.mappings = 0

namespace FrameInv

variable {reserved : Set Nat} {st : PagingState} (inv : FrameInv reserved st)

include inv

variable {holder other : Holder} {frame : Nat}

theorem same_slot (points : st.frameOf holder = some frame)
    (otherPoints : st.frameOf other = some frame) : holder.2 = other.2 := by
  by_cases same : holder = other
  · rw [same]
  · exact (inv.aliases holder other frame same points otherPoints).1

/-- A read-only entry does not belong to a shared region. -/
theorem notShared_of_readOnly (points : st.frameOf holder = some frame)
    (readOnly : (st.entry holder.1 holder.2).rw = false) :
    (st.entry holder.1 holder.2).shared = false := by
  by_contra shared
  rw [Bool.not_eq_false] at shared
  simp [inv.shared_rw holder frame points shared] at readOnly

/-- Only finitely many entries map a frame: they sit in spaces below
`nextSpace`. -/
theorem finite : FiniteSupport st.frameOf := by
  refine Set.Finite.subset
    (Set.Finite.prod (Set.finite_lt_nat st.nextSpace) (Set.finite_univ (α := Slot))) ?_
  rintro ⟨id, slot⟩ points
  have points : st.frameOf (id, slot) ≠ none := points
  obtain ⟨frame, mapped⟩ := Option.ne_none_iff_exists'.mp points
  exact ⟨inv.live_lt id (live_of_frameOf mapped), trivial⟩

/-- The computed number of mappings is the number of holders. -/
theorem mapCount_eq (frame : Nat) : st.mapCount frame = holderCount st.frameOf frame := by
  rw [mapCount, holderCount, ← Set.ncard_coe_finset]
  congr 1
  ext ⟨id, slot⟩
  simp only [Finset.coe_filter, Finset.mem_product, Finset.mem_range, Finset.mem_univ,
    and_true, mem_holders]
  constructor
  · exact fun points => points.2
  · exact fun points => ⟨inv.live_lt id (live_of_frameOf points), points⟩

/-- Each space maps a frame at most once and owns a directory of its own, so
no frame has more mappings than there are frames.  The 16-bit counters are far
from wrapping. -/
theorem holderCount_le (frame : Nat) : holderCount st.frameOf frame ≤ frameCount := by
  refine holderCount_le_of_injOn
    (fun holder => (st.tableFrame (holder.1, .directory)).getD 0) frameCount ?_ ?_
  · rintro ⟨id, slot⟩ points
    obtain ⟨space, present⟩ := Option.isSome_iff_exists.mp (live_of_frameOf points)
    have owned : st.tableFrame (id, .directory) = some space.directory := by
      simp [tableFrame, present, AddressSpace.table]
    have := (inv.tables _ _ owned).bounded
    have := inv.maxBlocks_le
    simp only [owned, Option.getD_some]
    omega
  · rintro ⟨id, slot⟩ points ⟨id', slot'⟩ points' sameDirectory
    have points : st.frameOf (id, slot) = some frame := points
    have points' : st.frameOf (id', slot') = some frame := points'
    obtain ⟨space, present⟩ := Option.isSome_iff_exists.mp (live_of_frameOf points)
    obtain ⟨space', present'⟩ := Option.isSome_iff_exists.mp (live_of_frameOf points')
    have owned : st.tableFrame (id, .directory) = some space.directory := by
      simp [tableFrame, present, AddressSpace.table]
    have owned' : st.tableFrame (id', .directory) = some space'.directory := by
      simp [tableFrame, present', AddressSpace.table]
    simp only [owned, owned', Option.getD_some] at sameDirectory
    rw [← sameDirectory] at owned'
    have sameOwner := inv.tables_unique _ _ _ owned owned'
    have sameSlot := inv.same_slot points points'
    simp only [Prod.mk.injEq, and_true] at sameOwner
    simp only at sameSlot
    rw [sameOwner, sameSlot]

/-- A mapped frame whose counter is zero has a single holder. -/
theorem sole_holder (points : st.frameOf holder = some frame) (zero : st.pageRef frame = 0)
    (otherPoints : st.frameOf other = some frame) : other = holder := by
  have count := inv.refs frame
  exact eq_of_holderCount_le_one inv.finite (by omega) otherPoints points

end FrameInv

end MiniOS.Paging
