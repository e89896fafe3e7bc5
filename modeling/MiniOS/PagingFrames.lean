import MiniOS.HolderCount
import MiniOS.PagingModel

/-!
# Frames behind page-table entries

How the elementary updates of the paging state move the map from page-table
entries to frames.  Entries are the holders of the generic counting library
and frames its resources.
-/

namespace MiniOS.Paging

open Function PhysicalMemory KernelHeap HolderCount

abbrev Holder := SpaceId × Slot

/-- The three frames that a space owns for its own structures. -/
inductive TableKind
  | directory
  | firstTable
  | extTable
deriving DecidableEq, Repr

def AddressSpace.table (space : AddressSpace) : TableKind → Nat
  | .directory => space.directory
  | .firstTable => space.firstTable
  | .extTable => space.extTable

variable {frame : Nat}

namespace PagingState

variable {st : PagingState} {id other : SpaceId} {slot position : Slot}
  {entry : PageEntry}

def tableFrame (st : PagingState) (owner : SpaceId × TableKind) : Option Nat :=
  (st.spaces owner.1).map fun space => space.table owner.2

def Live (st : PagingState) (id : SpaceId) : Prop := (st.spaces id).isSome

theorem not_isNone_iff_live : ¬ (st.spaces id).isNone = true ↔ st.Live id := by
  unfold Live
  cases st.spaces id <;> simp

variable {offset : Nat} {byte : UInt8}

@[simp] theorem entry_storeByte : (st.storeByte frame offset byte).entry = st.entry := rfl
@[simp] theorem frameOf_storeByte : (st.storeByte frame offset byte).frameOf = st.frameOf := rfl
theorem storeByte_mem : (st.storeByte frame offset byte).mem =
      update st.mem frame (update (st.mem frame) offset byte) := rfl

theorem setEntry_spaces_isSome :
    ((st.setEntry id slot entry).spaces other).isSome = (st.spaces other).isSome := by
  by_cases same : other = id
  · subst other
    simp [setEntry]
  · simp [setEntry, update_of_ne same]

@[simp]
theorem live_setEntry : (st.setEntry id slot entry).Live other ↔ st.Live other := by
  simp only [Live, setEntry_spaces_isSome]

@[simp]
theorem tableFrame_setEntry : (st.setEntry id slot entry).tableFrame = st.tableFrame := by
  funext owner
  by_cases same : owner.1 = id
  · subst id
    cases present : st.spaces owner.1 with
    | none => simp [tableFrame, setEntry, present]
    | some space =>
      cases kind : owner.2 <;>
        simp [tableFrame, setEntry, present, kind, AddressSpace.table]
  · simp [tableFrame, setEntry, update_of_ne same]

variable (live : st.Live id)

include live

theorem entry_setEntry : (st.setEntry id slot entry).entry other position =
      if other = id ∧ position = slot then entry else st.entry other position := by
  obtain ⟨space, present⟩ := Option.isSome_iff_exists.mp live
  by_cases same : other = id
  · subst other
    by_cases here : position = slot
    · subst position
      simp [PagingState.entry, setEntry, present]
    · simp [PagingState.entry, setEntry, present, here]
  · simp [PagingState.entry, setEntry, same]

@[simp]
theorem entry_setEntry_self : (st.setEntry id slot entry).entry id slot = entry := by
  rw [entry_setEntry live, if_pos ⟨rfl, rfl⟩]

theorem entry_setEntry_of_ne (different : (other, position) ≠ (id, slot)) :
    (st.setEntry id slot entry).entry other position = st.entry other position := by
  rw [entry_setEntry live, if_neg]
  rintro ⟨rfl, rfl⟩
  exact different rfl

theorem frameOf_setEntry :
    (st.setEntry id slot entry).frameOf = update st.frameOf (id, slot) entry.userFrame := by
  funext holder
  by_cases same : holder = (id, slot)
  · subst holder
    simp [frameOf, live]
  · rw [update_of_ne same, frameOf, frameOf, entry_setEntry_of_ne live same]

variable {holder : Holder}

/-- A holder after a store is either the stored entry or one that was there
before. -/
theorem frameOf_setEntry_cases (points : (st.setEntry id slot entry).frameOf holder = some frame) :
    holder = (id, slot) ∧ entry.userFrame = some frame ∨
      holder ≠ (id, slot) ∧ st.frameOf holder = some frame := by
  rw [frameOf_setEntry live] at points
  by_cases same : holder = (id, slot)
  · subst holder
    rw [update_self] at points
    exact Or.inl ⟨rfl, points⟩
  · rw [update_of_ne same] at points
    exact Or.inr ⟨same, points⟩

theorem frameOf_setEntry_of_ne (different : holder ≠ (id, slot)) :
    (st.setEntry id slot entry).frameOf holder = st.frameOf holder := by
  rw [frameOf_setEntry live, update_of_ne different]

theorem frameOf_setEntry_self :
    (st.setEntry id slot entry).frameOf (id, slot) = entry.userFrame := by
  rw [frameOf_setEntry live, update_self]

omit live

theorem setEntry_setEntry (first second : PageEntry) :
    (st.setEntry id slot first).setEntry id slot second = st.setEntry id slot second := by
  unfold setEntry
  cases st.spaces id <;> simp

theorem live_of_frameOf (mapped : st.frameOf holder = some frame) : st.Live holder.1 := by
  unfold frameOf PagingState.entry at mapped
  cases present : st.spaces holder.1 with
  | none => simp [present, PageEntry.userFrame, PageEntry.absent] at mapped
  | some space => simp [Live, present]

theorem frameOf_eq_none_of_not_live (dead : ¬ st.Live id) : st.frameOf (id, slot) = none := by
  cases mapped : st.frameOf (id, slot) with
  | none => rfl
  | some frame => exact (dead (live_of_frameOf mapped)).elim

/-- Exchanging one space for another, or for none, redirects no holder as long
as neither maps a page for the user. -/
theorem frameOf_update_spaces {target : Option AddressSpace}
    (vacant : ∀ slot, st.frameOf (id, slot) = none)
    (empty : ∀ space ∈ target, ∀ slot, (space.pte slot).userFrame = none) :
    PagingState.frameOf { st with spaces := update st.spaces id target } = st.frameOf := by
  funext ⟨other, slot⟩
  by_cases same : other = id
  · subst other
    rw [vacant slot]
    cases target with
    | none => simp [frameOf, PagingState.entry, PageEntry.userFrame, PageEntry.absent]
    | some space => simpa [frameOf, PagingState.entry] using empty space rfl slot
  · simp [frameOf, PagingState.entry, update_of_ne same]

theorem live_of_tableFrame {owner : SpaceId × TableKind}
    (owned : st.tableFrame owner = some frame) : st.Live owner.1 := by
  unfold tableFrame at owned
  cases present : st.spaces owner.1 with
  | none => simp [present] at owned
  | some space => simp [Live, present]

end PagingState

variable {entry : PageEntry}

theorem PageEntry.userFrame_eq_some : entry.userFrame = some frame ↔
      entry.present = true ∧ entry.user = true ∧ entry.frame = frame := by
  unfold PageEntry.userFrame
  cases entry.present <;> cases entry.user <;> simp

theorem PageEntry.userFrame_of_mapped (mapped : (entry.present && entry.user) = true) :
    entry.userFrame = some entry.frame := by
  simp [PageEntry.userFrame, mapped]

theorem PageEntry.userFrame_of_unmapped (unmapped : (entry.present && entry.user) ≠ true) :
    entry.userFrame = none := by
  simp [PageEntry.userFrame, unmapped]

@[simp]
theorem freshTables_userFrame (slot : Slot) : (freshTables slot).userFrame = none := by
  obtain ⟨table, index⟩ := slot
  cases table <;> rfl

open PagingState

/-- Either the manager refuses a block, or it grants one free block. -/
theorem allocBlock_cases (st : PagingState) :
    allocBlock st = (none, { st with outOfMemory := true }) ∨
      ∃ frame pmm, allocBlock st = (some (frame * pmmBlockSize), { st with pmm := pmm }) ∧
        Grants st.pmm 1 frame pmm := by
  unfold allocBlock pmmAllocBlock
  rcases pmmAllocBlocks_cases st.pmm 1 with refused | ⟨frame, pmm, granted, grant⟩
  · left
    rw [refused]
  · right
    exact ⟨frame, pmm, by rw [granted], grant⟩

@[simp]
theorem blockNumber_mul (frame : Nat) : frame * pmmBlockSize / pmmBlockSize = frame :=
  Nat.mul_div_cancel frame (by decide)

end MiniOS.Paging
