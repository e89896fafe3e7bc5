import MiniOS.Fat16Directories

/-!
# Changing one slot of a volume

Every operation that changes a volume fills, rewrites or deletes the entry in
one slot, together with clusters that were free or belonged to that entry.
Everything else on the volume stays as it was.
-/

namespace MiniOS.Fat16

open TracedAccess Traced

variable {l : Layout} {img img' : Bytes} {slot : Nat} {old new clusters : List Nat}

/-- The entry in `slot`, whose chain was `old`, now has the chain `clusters`, taken
from `old` and the free clusters `new`.  The chain of an entry that is not live
counts as empty. -/
structure SlotUpdate (l : Layout) (img img' : Bytes) (slot : Nat) (old new clusters : List Nat) :
    Prop where
  isSlot : Slot l img slot
  wasFile : Live img slot → FileAt l img slot old
  wasNothing : ¬ Live img slot → old = []
  free : ∀ cluster ∈ new, l.Usable cluster ∧ fatEntry l img cluster = 0
  frame : ∀ index, Avoids l (old ++ new) index → index < slot ∨ slot + 32 ≤ index →
    img' index = img index
  isFile : Live img' slot → ¬ IsDirectory img' slot ∧
    FileChain l img' (firstCluster img' slot) clusters ∧
    fileLength img' slot ≤ clusters.length * l.bytesPerCluster
  isNothing : ¬ Live img' slot → clusters = []
  within : clusters ⊆ old ++ new
  freed : ∀ cluster ∈ old ++ new, cluster ∉ clusters → fatEntry l img' cluster = 0
  marked : img' slot ≠ 0
  firstStop : img slot = 0 → ∀ directory i j e, Directory l img directory → j < i →
    slotAt l img directory i = some slot → slotAt l img directory j = some e → img e ≠ 0

namespace SlotUpdate

variable (update : SlotUpdate l img img' slot old new clusters) (wellFormed : WellFormed l img)

include update

theorem usable : ∀ cluster ∈ old ++ new, l.Usable cluster := by
  intro cluster member
  rcases List.mem_append.mp member with inOld | inNew
  · by_cases live : Live img slot
    · exact (update.wasFile live).chain.usable cluster inOld
    · rw [update.wasNothing live] at inOld
      simp at inOld
  · exact (update.free cluster inNew).1

include wellFormed

theorem apart : Apart l img slot (old ++ new) := by
  have old_apart : Apart l img slot old := by
    refine wellFormed.apart update.isSlot fun nonempty => update.wasFile ?_
    by_contra notLive
    exact nonempty (update.wasNothing notLive)
  refine ⟨old_apart.above, old_apart.inside, fun cluster usable owned => ?_⟩
  refine old_apart.apart cluster usable ?_
  rcases owned with member | free
  · exact (List.mem_append.mp member).imp_right fun inNew => (update.free cluster inNew).2
  · exact Or.inr free

variable {e : Nat} {others : List Nat}

/-- The chains of the other entries contain none of the clusters involved. -/
theorem not_mem_of_other {cluster : Nat} (entry : Entry l img e)
    (other : e ≠ slot) (chain : FileChain l img (firstCluster img e) others)
    (member : cluster ∈ others) : cluster ∉ old ++ new := by
  intro involved
  rcases List.mem_append.mp involved with inOld | inNew
  · have live : Live img slot := by
      by_contra notLive
      rw [update.wasNothing notLive] at inOld
      simp at inOld
    have file := update.wasFile live
    exact wellFormed.disjoint e slot _ _ entry file.entry other chain file.chain member inOld
  · exact chain.entry_ne_zero member (update.free cluster inNew).2

theorem fatEntry_eq {cluster : Nat} (usable : l.Usable cluster) (other : cluster ∉ old ++ new) :
    fatEntry l img' cluster = fatEntry l img cluster := by
  have above := (update.apart wellFormed).above
  exact fatEntry_of_avoids (fun index below avoids => update.frame index avoids (by omega))
    usable other

/-- The chains of the other entries are as before. -/
theorem chain_of_other (entry : Entry l img e) (other : e ≠ slot)
    (chain : FileChain l img (firstCluster img e) others) :
    FileChain l img' (firstCluster img e) others :=
  chain.congr fun cluster member => update.fatEntry_eq wellFormed (chain.usable cluster member)
    (update.not_mem_of_other wellFormed entry other chain member)

theorem slotAt_eq {directory : Nat} (reached : Directory l img directory) (index : Nat) :
    slotAt l img' directory index = slotAt l img directory index := by
  rcases wellFormed.directory_cases reached with rfl | ⟨owner, others, entry, isDirectory, rfl, chain⟩
  · rw [slotAt_root, slotAt_root]
  · have other : owner ≠ slot := by
      rintro rfl
      exact (update.wasFile entry.2).notDirectory isDirectory
    have two := chain.first_usable.1
    have kept := update.chain_of_other wellFormed entry other (Or.inr chain)
    rcases kept with ⟨zero, -⟩ | kept
    · omega
    · rw [slotAt_chain chain, slotAt_chain kept]

variable (isSlot : Slot l img e)

include isSlot

variable (other : e ≠ slot)

include other

theorem bytes_of_other {index : Nat}
    (low : e ≤ index) (high : index < e + 32) : img' index = img index := by
  have aligned := wellFormed.slot_mod isSlot
  have slotAligned := wellFormed.slot_mod update.isSlot
  refine update.frame index (fun cluster involved => ?_) (by omega)
  have usable := update.usable cluster involved
  have regions := rootStart_le_dataStart l
  cases wellFormed.slotPlace isSlot with
  | root above below =>
    refine ⟨fun inTable => ?_, fun inCluster => ?_⟩
    · have small := inTable_lt usable inTable
      omega
    · have large := le_of_inCluster inCluster
      omega
  | @sub owner home homes entry isDirectory chain member above below =>
    have dataAbove := l.dataStart_le_clusterStart home
    have ownerOther : owner ≠ slot := by
      rintro rfl
      exact (update.wasFile entry.2).notDirectory isDirectory
    refine ⟨fun inTable => ?_, fun inCluster => ?_⟩
    · have small := inTable_lt usable inTable
      omega
    · have same : cluster = home :=
        inCluster_unique usable (chain.usable home member) inCluster ⟨by omega, by omega⟩
      subst same
      exact update.not_mem_of_other wellFormed entry ownerOther chain member involved

theorem live_iff_of_other : Live img' e ↔ Live img e :=
  live_congr (update.bytes_of_other wellFormed isSlot other (by omega) (by omega))
    (update.bytes_of_other wellFormed isSlot other (by omega) (by omega))

theorem isDirectory_iff_of_other : IsDirectory img' e ↔ IsDirectory img e := by
  rw [IsDirectory, update.bytes_of_other wellFormed isSlot other (by omega) (by omega), IsDirectory]

theorem firstCluster_of_other : firstCluster img' e = firstCluster img e :=
  field_congr fun k below =>
    update.bytes_of_other wellFormed isSlot other (by omega) (by omega)

theorem fileLength_of_other : fileLength img' e = fileLength img e :=
  field_congr fun k below =>
    update.bytes_of_other wellFormed isSlot other (by omega) (by omega)

omit other

omit isSlot

theorem directory_iff {directory : Nat} :
    Directory l img' directory ↔ Directory l img directory := by
  constructor
  · intro reached
    induction reached with
    | root => exact .root
    | @sub parent index e _ slotFound live isDirectory ih =>
      rw [update.slotAt_eq wellFormed ih] at slotFound
      have isSlot : Slot l img e := ⟨parent, index, ih, slotFound⟩
      have other : e ≠ slot := by
        rintro rfl
        exact (update.isFile live).1 isDirectory
      rw [update.firstCluster_of_other wellFormed isSlot other]
      exact .sub ih slotFound ((update.live_iff_of_other wellFormed isSlot other).mp live)
        ((update.isDirectory_iff_of_other wellFormed isSlot other).mp isDirectory)
  · intro reached
    induction reached with
    | root => exact .root
    | @sub parent index e parentReached slotFound live isDirectory ih =>
      have isSlot : Slot l img e := ⟨parent, index, parentReached, slotFound⟩
      have other : e ≠ slot := by
        rintro rfl
        exact (update.wasFile live).notDirectory isDirectory
      rw [← update.slotAt_eq wellFormed parentReached] at slotFound
      rw [← update.firstCluster_of_other wellFormed isSlot other]
      exact .sub ih slotFound ((update.live_iff_of_other wellFormed isSlot other).mpr live)
        ((update.isDirectory_iff_of_other wellFormed isSlot other).mpr isDirectory)

theorem slot_iff : Slot l img' e ↔ Slot l img e := by
  constructor
  · rintro ⟨directory, index, reached, found⟩
    rw [update.directory_iff wellFormed] at reached
    rw [update.slotAt_eq wellFormed reached] at found
    exact ⟨directory, index, reached, found⟩
  · rintro ⟨directory, index, reached, found⟩
    rw [← update.slotAt_eq wellFormed reached] at found
    exact ⟨directory, index, (update.directory_iff wellFormed).mpr reached, found⟩

theorem entry_iff_of_other (other : e ≠ slot) : Entry l img' e ↔ Entry l img e := by
  rw [Entry, update.slot_iff wellFormed, Entry]
  exact and_congr_right fun isSlot => update.live_iff_of_other wellFormed isSlot other

/-- The chain of an entry after the change. -/
theorem chain_cases (entry : Entry l img' e)
    (chain : FileChain l img' (firstCluster img' e) others) :
    e = slot ∧ others = clusters ∨ e ≠ slot ∧ Entry l img e ∧
      FileChain l img (firstCluster img e) others := by
  by_cases same : e = slot
  · subst same
    exact Or.inl ⟨rfl, chain.unique (update.isFile entry.2).2.1⟩
  · have before := (update.entry_iff_of_other wellFormed same).mp entry
    obtain ⟨others', chain', -⟩ := wellFormed.chains e before
    have kept := update.chain_of_other wellFormed before same chain'
    rw [← update.firstCluster_of_other wellFormed before.1 same] at kept
    rw [chain.unique kept]
    exact Or.inr ⟨same, before, chain'⟩

/-- A volume stays well-formed when one slot changes. -/
theorem keeps_wellFormed : WellFormed l img' where
  chains := by
    intro e entry
    by_cases same : e = slot
    · subst same
      obtain ⟨notDirectory, chain, length⟩ := update.isFile entry.2
      exact ⟨clusters, chain, fun isDirectory => absurd isDirectory notDirectory, fun _ => length⟩
    · have before := (update.entry_iff_of_other wellFormed same).mp entry
      obtain ⟨others, chain, nonempty, length⟩ := wellFormed.chains e before
      have kept := update.chain_of_other wellFormed before same chain
      rw [← update.firstCluster_of_other wellFormed before.1 same] at kept
      refine ⟨others, kept, ?_, ?_⟩
      · rwa [update.isDirectory_iff_of_other wellFormed before.1 same]
      · rwa [update.isDirectory_iff_of_other wellFormed before.1 same,
          update.fileLength_of_other wellFormed before.1 same]
  disjoint := by
    intro e e' others others' entry entry' different chain chain'
    rcases update.chain_cases wellFormed entry chain with ⟨rfl, rfl⟩ | ⟨notSlot, before, beforeChain⟩
    · rcases update.chain_cases wellFormed entry' chain' with ⟨rfl, -⟩ | ⟨notSlot', before', beforeChain'⟩
      · exact absurd rfl different
      · exact fun cluster member member' => update.not_mem_of_other wellFormed before' notSlot'
          beforeChain' member' (update.within member)
    · rcases update.chain_cases wellFormed entry' chain' with ⟨rfl, rfl⟩ | ⟨notSlot', before', beforeChain'⟩
      · exact fun cluster member member' => update.not_mem_of_other wellFormed before notSlot
          beforeChain member (update.within member')
      · exact wellFormed.disjoint e e' _ _ before before' different beforeChain beforeChain'
  covered := by
    intro cluster usable nonzero notBad
    by_cases involved : cluster ∈ old ++ new
    · have member : cluster ∈ clusters := by
        by_contra outside
        exact nonzero (update.freed cluster involved outside)
      have live : Live img' slot := by
        by_contra notLive
        rw [update.isNothing notLive] at member
        simp at member
      exact ⟨slot, clusters, ⟨(update.slot_iff wellFormed).mpr update.isSlot, live⟩,
        (update.isFile live).2.1, member⟩
    · rw [update.fatEntry_eq wellFormed usable involved] at nonzero notBad
      obtain ⟨e, others, entry, chain, member⟩ := wellFormed.covered cluster usable nonzero notBad
      have other : e ≠ slot := by
        rintro rfl
        rw [chain.unique (update.wasFile entry.2).chain] at member
        exact involved (List.mem_append_left new member)
      refine ⟨e, others, (update.entry_iff_of_other wellFormed other).mpr entry, ?_, member⟩
      rw [update.firstCluster_of_other wellFormed entry.1 other]
      exact update.chain_of_other wellFormed entry other chain
  stops := by
    intro directory i j e e' reached less found found' zero
    rw [update.directory_iff wellFormed] at reached
    rw [update.slotAt_eq wellFormed reached] at found found'
    have isSlot : Slot l img e := ⟨directory, i, reached, found⟩
    have isSlot' : Slot l img e' := ⟨directory, j, reached, found'⟩
    have other : e ≠ slot := by
      rintro rfl
      exact update.marked zero
    rw [update.bytes_of_other wellFormed isSlot other (by omega) (by omega)] at zero
    have zero' := wellFormed.stops directory i j e e' reached less found found' zero
    have other' : e' ≠ slot := by
      rintro rfl
      exact update.firstStop zero' directory j i e reached less found' found zero
    rwa [update.bytes_of_other wellFormed isSlot' other' (by omega) (by omega)]

end SlotUpdate

end MiniOS.Fat16
