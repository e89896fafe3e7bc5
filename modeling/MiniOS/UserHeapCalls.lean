import MiniOS.UserHeapMalloc

/-!
# Payloads

The program writes into the payloads of its blocks, and so do `calloc` and `realloc`.  No
header lies in a payload, so the allocator is not disturbed.
-/

namespace MiniOS.UserHeap

open Function ByteMemory LinkedRing MiniOS.Span

variable {base p nbytes : Nat} {h h' : Heap} {block : Span} {free live others : List Span}

def InPayload (live : List Span) (address : Nat) : Prop :=
  ∃ block ∈ live, block.start + headerSize ≤ address ∧ address < block.stop

instance : Std.Symm Separate := ⟨fun _ _ => Separate.symm⟩

theorem Laid.not_inPayload (laid : Laid base h (free ++ live)) {q place : Nat}
    (member : q ∈ base :: (free ++ live).map Span.start) (inHeader : place < 8) :
    ¬ InPayload live (q + place) := by
  rintro ⟨block, inLive, lower, upper⟩
  have inBlocks : block ∈ free ++ live := List.mem_append_right _ inLive
  unfold headerSize at lower
  rcases List.mem_cons.mp member with rfl | later
  · have within := laid.within inBlocks
    omega
  · obtain ⟨other, otherIn, rfl⟩ := List.mem_map.mp later
    by_cases same : other = block
    · subst same
      omega
    · have separate := laid.separate.forall otherIn inBlocks same
      have long := (laid.headed other otherIn).eight_le
      unfold Separate stop at separate
      unfold stop at upper
      omega

/-- Writes into payloads leave the allocator as it is. -/
theorem Sound.of_payload_writes (sound : Sound base h free live) {mem : Region}
    (only : ∀ address, ¬ InPayload live address → mem address = h.mem address) :
    Sound base { h with mem } free live := by
  have laid := sound.laid
  have sizes : ∀ q ∈ base :: (free ++ live).map Span.start,
      Heap.size { h with mem } q = h.size q := fun q member =>
    load32_congr fun place inside => by
      rw [Nat.add_assoc]
      exact only _ (laid.not_inPayload member (by omega))
  have nexts : ∀ q ∈ base :: (free ++ live).map Span.start,
      Heap.next { h with mem } q = h.next q := fun q member =>
    load32_congr fun place inside => only _ (laid.not_inPayload member (by omega))
  refine ⟨⟨(sizes base (.head _)).trans laid.baseEmpty, fun block member => ?_, laid.tiled,
    laid.once, laid.above⟩, sound.ring.congr fun q member => nexts q (mem_headers live member),
    sound.gaps, sound.current⟩
  refine ⟨(laid.headed block member).nonempty, ?_⟩
  rw [sizes _ (.tail _ (List.mem_map_of_mem member)), (laid.headed block member).sized]

theorem Sound.perm_live (sound : Sound base h free live) (perm : live.Perm others) :
    Sound base h free others :=
  ⟨sound.laid.perm (perm.append_left free), sound.ring, sound.gaps, sound.current⟩

section Loops

variable {np ap count : Nat}

theorem clear_eq (fits : p + count ≤ 2 ^ 32) : clear h p count =
    { h with mem := fun address =>
        if p ≤ address ∧ address < p + count then 0 else h.mem address } := by
  induction count with
  | zero =>
    have outside : ∀ address, ¬ (p ≤ address ∧ address < p + 0) := by omega
    simp only [clear, if_neg (outside _)]
  | succ count ih =>
    rw [clear, Heap.setByte, Nat.mod_eq_of_lt (by omega), ih (by omega)]
    congr 1
    funext address
    simp only [update_apply]
    split_ifs <;> first | rfl | omega

theorem copy_eq (fits : np + count ≤ 2 ^ 32) (sourceFits : ap + count ≤ 2 ^ 32)
    (apart : np + count ≤ ap ∨ ap + count ≤ np) : copy h np ap count =
      { h with mem := fun address =>
          if np ≤ address ∧ address < np + count then h.mem (ap + (address - np))
          else h.mem address } := by
  induction count with
  | zero =>
    have outside : ∀ address, ¬ (np ≤ address ∧ address < np + 0) := by omega
    simp only [copy, if_neg (outside _)]
  | succ count ih =>
    rw [copy, Heap.setByte, Nat.mod_eq_of_lt (by omega), Nat.mod_eq_of_lt (by omega),
      ih (by omega) (by omega) (by omega)]
    congr 1
    funext address
    simp only [update_apply]
    split_ifs <;> first | rfl | omega | (congr 1; omega)

end Loops

/-- The bytes of a request can be rounded up to units. -/
theorem unitsFor_covers (fits : nbytes + 7 < 2 ^ 32) :
    nbytes + headerSize ≤ headerSize * unitsFor nbytes := by
  unfold unitsFor headerSize
  omega

theorem Sound.usable_eq (sound : Sound base h free live) (member : block ∈ live) :
    usable h (block.start + headerSize) = block.length - headerSize := by
  have inBlocks : block ∈ free ++ live := List.mem_append_right _ member
  have within := sound.laid.within inBlocks
  have long := (sound.laid.headed block inBlocks).eight_le
  have sized := (sound.laid.headed block inBlocks).sized
  unfold stop at within
  rw [usable, headerOf_payload (by omega)]
  unfold headerSize
  omega

/-- A new block of the program with room for some bytes. -/
structure Given (base : Nat) (live : List Span) (nbytes : Nat) (h : Heap) (p : Nat) (block : Span) :
    Prop where
  payload : p = block.start + headerSize
  room : nbytes + headerSize ≤ block.length
  sound : ∃ free, Sound base h free (block :: live)

theorem Malloced.given (malloced : Malloced base live nbytes h h' p) (fits : nbytes + 7 < 2 ^ 32) :
    (p = 0 ∧ Ready base h' live) ∨ ∃ block, Given base live nbytes h' p block := by
  refine malloced.outcome.imp_right ?_
  rintro ⟨free, block, payload, length, sound⟩
  exact ⟨block, payload, length ▸ unitsFor_covers fits, free, sound⟩

variable (given : Given base live nbytes h p block)

include given

theorem Given.ne_zero : p ≠ 0 := by
  have payload := given.payload
  unfold headerSize at payload
  omega

/-- Writes into the payload of the new block. -/
theorem Given.written {mem : Region}
    (only : ∀ address, address < p ∨ p + nbytes ≤ address → mem address = h.mem address) :
    Given base live nbytes { h with mem } p block ∧ Kept base live h { h with mem } := by
  obtain ⟨payload, room, free, sound⟩ := given
  have inBlocks : block ∈ free ++ block :: live := by simp
  refine ⟨⟨payload, room, free, sound.of_payload_writes fun address outside => ?_⟩, ?_⟩
  · refine only address ?_
    by_contra inside
    refine outside ⟨block, .head _, ?_⟩
    unfold stop
    omega
  · intro address _ spared
    refine only address ?_
    by_contra inside
    have covers : block.Covers address := by
      unfold Covers stop
      omega
    rcases spared with ⟨other, inLive, otherCovers⟩ | unclaimed
    · have separate := (List.pairwise_cons.mp (List.pairwise_append.mp sound.laid.separate).2.1).1
        other inLive
      unfold Separate at separate
      unfold Covers at covers otherCovers
      omega
    · obtain ⟨arena, inArenas, inArena⟩ := sound.laid.obtained inBlocks covers
      exact unclaimed arena inArenas inArena

theorem Given.fits : p + nbytes < 2 ^ 32 := by
  obtain ⟨payload, room, free, sound⟩ := given
  have within := sound.laid.within (List.mem_append_right free (.head _))
  unfold stop at within
  omega

omit given

/-- `calloc` returns.  A product that does not fit 32 bits is noticed. -/
theorem Ready.calloc (ready : Ready base h live) {sbrk : Sbrk} (fresh : SbrkFresh base sbrk)
    (basePos : 0 < base) (baseFits : base < 2 ^ 32) {count size : Nat}
    (fits : count * size + 7 < 2 ^ 32 ∨ 2 ^ 32 ≤ count * size) :
    ∃ enough h' p, (∀ turns, enough ≤ turns → calloc base sbrk turns h count size = some (h', p)) ∧
      ((p = 0 ∧ Ready base h' live) ∨ ∃ block, Given base live (count * size) h' p block ∧
        ∀ place < count * size, h'.mem (p + place) = 0) ∧ Kept base live h h' := by
  by_cases overflow : 2 ^ 32 ≤ count * size
  · have noticed : count ≠ 0 ∧ count * size % 2 ^ 32 / count ≠ size := by
      have positive : 0 < count := Nat.pos_of_ne_zero fun zero => by
        rw [zero, Nat.zero_mul] at overflow
        exact absurd overflow (by decide)
      refine ⟨Nat.ne_of_gt positive, fun same => ?_⟩
      have atLeast := Nat.div_mul_le_self (count * size % 2 ^ 32) count
      rw [same, Nat.mul_comm] at atLeast
      have below : count * size % 2 ^ 32 < 2 ^ 32 := Nat.mod_lt _ (by decide)
      omega
    exact ⟨0, h, 0, fun turns _ => if_pos noticed, .inl ⟨rfl, ready⟩, fun _ _ _ => rfl⟩
  · have exactProduct : count * size % 2 ^ 32 = count * size := Nat.mod_eq_of_lt (by omega)
    have accepted : ¬ (count ≠ 0 ∧ count * size / count ≠ size) := fun refused =>
      refused.2 (Nat.mul_div_cancel_left _ (Nat.pos_of_ne_zero refused.1))
    obtain ⟨enough, h₁, p, returns, malloced⟩ := ready.malloc fresh basePos baseFits (count * size)
    have called : ∀ turns, enough ≤ turns → UserHeap.calloc base sbrk turns h count size =
        some (if p = 0 then (h₁, 0) else (clear h₁ p (count * size), p)) := by
      intro turns isEnough
      rw [UserHeap.calloc, exactProduct]
      dsimp only
      rw [if_neg accepted, returns turns isEnough]
      rfl
    rcases malloced.given (by omega) with ⟨rfl, readyAfter⟩ | ⟨block, given⟩
    · exact ⟨enough, h₁, 0, called, .inl ⟨rfl, readyAfter⟩, malloced.kept⟩
    · rw [clear_eq (Nat.le_of_lt given.fits)] at called
      obtain ⟨givenAfter, kept⟩ := given.written fun address outside =>
        if_neg (by omega : ¬ (p ≤ address ∧ address < p + count * size))
      refine ⟨enough, _, p, fun turns isEnough => ?_,
        .inr ⟨block, givenAfter, fun place inside => if_pos (by omega)⟩,
        malloced.kept.trans kept (List.Subset.refl _)⟩
      rw [called turns isEnough, if_neg given.ne_zero]

theorem Kept.of_cons (kept : Kept base (block :: live) h h') : Kept base live h h' :=
  fun address outside spared => kept address outside
    (spared.imp_left fun ⟨other, member, covers⟩ => ⟨other, .tail _ member, covers⟩)

/-- The bytes of a block that stays with the program. -/
theorem Kept.payload (kept : Kept base live h h') (member : block ∈ live)
    (above : base + 8 ≤ block.start) {address : Nat} (covers : block.Covers address) :
    h'.mem address = h.mem address := by
  refine kept address (.inr ?_) (.inl ⟨block, member, covers⟩)
  unfold Covers at covers
  omega

theorem Ready.sound_of_live (ready : Ready base h (block :: live)) :
    ∃ free, Sound base h free (block :: live) := by
  rcases ready with ⟨-, -, none⟩ | sound
  · exact nomatch none
  · exact sound

/-- What `realloc` has done with a block when it returns `p`. -/
inductive Realloced (base : Nat) (live : List Span) (block : Span) (nbytes : Nat) (h h' : Heap) :
    (p : Nat) → Prop
  | freed (none : nbytes = 0) (ready : Ready base h' live) : Realloced base live block nbytes h h' 0
  | failed (ready : Ready base h' (block :: live)) (some : nbytes ≠ 0) :
      Realloced base live block nbytes h h' 0
  | moved {p : Nat} {given : Span} (isGiven : Given base live nbytes h' p given)
      (same : ∀ place < min (block.length - headerSize) nbytes,
        h'.mem (p + place) = h.mem (block.start + headerSize + place)) :
      Realloced base live block nbytes h h' p

/-- The second half of `realloc`: the contents move to a new block, and the old one is
given back. -/
theorem Given.move {given : Span} (isGiven : Given base (block :: live) nbytes h p given)
    (smaller : block.length - headerSize ≤ nbytes) :
    ∃ enough h', (∀ turns, enough ≤ turns →
        UserHeap.free turns (copy h p (block.start + headerSize) (block.length - headerSize))
          (block.start + headerSize) = some h') ∧
      Given base live nbytes h' p given ∧
      (∀ place < block.length - headerSize,
        h'.mem (p + place) = h.mem (block.start + headerSize + place)) ∧
      h'.obtained = h.obtained ∧ Kept base live h h' := by
  have fits := isGiven.fits
  obtain ⟨payload, room, free, sound⟩ := isGiven
  have blockMember : block ∈ free ++ given :: block :: live := by simp
  have givenMember : given ∈ free ++ given :: block :: live := by simp
  have within := sound.laid.within blockMember
  have givenWithin := sound.laid.within givenMember
  have long := (sound.laid.headed block blockMember).eight_le
  have separate : Separate given block :=
    (List.pairwise_cons.mp (List.pairwise_append.mp sound.laid.separate).2.1).1 block (.head _)
  unfold Separate stop at separate
  unfold stop at within
  have copied : copy h p (block.start + headerSize) (block.length - headerSize) = _ :=
    copy_eq (by omega) (by unfold headerSize at *; omega) (by unfold headerSize at *; omega)
  obtain ⟨⟨-, -, free₁, sound₁⟩, keptCopy⟩ :=
    (Given.mk payload room ⟨free, sound⟩).written fun address outside =>
      if_neg (by omega : ¬ (p ≤ address ∧ address < p + (block.length - headerSize)))
  obtain ⟨h', free', returns, soundAfter, -, obtained, keptFree⟩ :=
    (sound₁.perm_live (.swap _ _ _)).free_block
  refine ⟨free₁.length + 1, h', fun turns enough => copied ▸ returns turns enough,
    ⟨payload, room, free', soundAfter⟩, fun place inside => ?_, obtained, ?_⟩
  · have covers : given.Covers (p + place) := by
      unfold Covers stop
      omega
    rw [keptFree.payload (.head _) givenWithin.1 covers]
    dsimp only
    rw [if_pos (by omega), Nat.add_sub_cancel_left]
  · refine keptCopy.of_cons.trans keptFree.of_cons ?_
    rw [obtained]
    exact List.Subset.refl _

theorem Ready.realloc (ready : Ready base h (block :: live)) {sbrk : Sbrk}
    (fresh : SbrkFresh base sbrk) (basePos : 0 < base) (baseFits : base < 2 ^ 32)
    (fits : nbytes + 7 < 2 ^ 32) :
    ∃ enough h' p, (∀ turns, enough ≤ turns →
        realloc base sbrk turns h (block.start + headerSize) nbytes = some (h', p)) ∧
      Realloced base live block nbytes h h' p ∧ Kept base live h h' := by
  obtain ⟨free, sound⟩ := ready.sound_of_live
  have inBlocks : block ∈ free ++ block :: live := by simp
  have within := sound.laid.within inBlocks
  have long := (sound.laid.headed block inBlocks).eight_le
  have usableEq := sound.usable_eq (.head _)
  have nonzero : block.start + headerSize ≠ 0 := by
    unfold headerSize
    omega
  by_cases none : nbytes = 0
  · obtain ⟨h', free', returns, soundAfter, -, -, kept⟩ := sound.free_block
    refine ⟨free.length + 1, h', 0, fun turns enough => ?_, .freed none (.inr ⟨free', soundAfter⟩), kept⟩
    rw [UserHeap.realloc, if_neg nonzero, if_pos none, returns turns enough]
    rfl
  · by_cases enoughRoom : nbytes ≤ usable h (block.start + headerSize)
    · refine ⟨0, h, block.start + headerSize, fun turns _ => ?_,
        .moved ⟨rfl, ?_, free, sound⟩ fun _ _ => rfl, fun _ _ _ => rfl⟩
      · rw [UserHeap.realloc, if_neg nonzero, if_neg none]
        exact if_pos enoughRoom
      · rw [usableEq] at enoughRoom
        unfold headerSize at *
        omega
    · obtain ⟨enough, h₁, p, returns, malloced⟩ := ready.malloc fresh basePos baseFits nbytes
      have called : ∀ turns, enough ≤ turns →
          UserHeap.realloc base sbrk turns h (block.start + headerSize) nbytes =
            if p = 0 then some (h₁, 0)
            else (UserHeap.free turns (copy h₁ p (block.start + headerSize)
              (block.length - headerSize)) (block.start + headerSize)).map fun h => (h, p) := by
        intro turns isEnough
        rw [UserHeap.realloc, if_neg nonzero, if_neg none]
        dsimp only
        rw [if_neg enoughRoom, returns turns isEnough, usableEq]
      rcases malloced.given fits with ⟨rfl, readyAfter⟩ | ⟨given, isGiven⟩
      · exact ⟨enough, h₁, 0, fun turns isEnough => (called turns isEnough).trans (if_pos rfl),
          .failed readyAfter none, malloced.kept.of_cons⟩
      · obtain ⟨more, h₂, frees, givenAfter, same, obtained, kept⟩ :=
          isGiven.move (by rw [← usableEq]; omega)
        refine ⟨enough + more, h₂, p, fun turns isEnough => ?_,
          .moved givenAfter fun place inside => ?_,
          malloced.kept.of_cons.trans kept (obtained ▸ List.Subset.refl _)⟩
        · rw [called turns (by omega), if_neg isGiven.ne_zero, frees turns (by omega)]
          rfl
        · have covers : block.Covers (block.start + headerSize + place) := by
            unfold Covers stop
            omega
          rw [same place (by omega), malloced.kept.payload (.head _) within.1 covers]

end MiniOS.UserHeap
