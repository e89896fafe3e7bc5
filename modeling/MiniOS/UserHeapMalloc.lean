import MiniOS.UserHeapFree

/-!
# Taking a block

The loop of `malloc` looks at every block of the ring once, from the one behind
`umalloc_freep` on.  It takes the first one that is large enough, as a whole or its upper
part.  If there is none, the kernel is asked for more memory, which is then given back like
a block of the program; the loop starts again and finds it.
-/

namespace MiniOS.UserHeap

open ByteMemory LinkedRing MiniOS.Span

variable {base p q nunits : Nat} {h h' : Heap} {block : Span} {free live others : List Span}

section Rings

variable (sound : Sound base h free live)

include sound

theorem Sound.freep_ne_zero (basePos : 0 < base) : h.freep ≠ 0 := by
  rcases List.mem_cons.mp sound.current with atBase | inFree
  · omega
  · obtain ⟨block, member, start⟩ := List.mem_map.mp inFree
    have within := sound.laid.within (List.mem_append_left _ member)
    omega

theorem Sound.nodup : (base :: free.map Span.start).Nodup := by
  have distinct := sound.laid.nodup
  rw [headers_append] at distinct
  exact distinct.of_append_left

/-- A header of the list with a size is that of a free block, and its only predecessor in the
list is the last header in front of it. -/
theorem Sound.found (inRing : q ∈ base :: free.map Span.start)
    (positive : 0 < h.size (h.next q)) :
    ∃ front block back before, free = front ++ block :: back ∧ h.next q = block.start ∧
      base :: front.map Span.start = before ++ [q] := by
  have successor := sound.ring.next_mem inRing
  rcases List.mem_cons.mp successor with atBase | inFree
  · rw [atBase, sound.laid.baseEmpty] at positive
    exact absurd positive (lt_irrefl 0)
  · obtain ⟨block, member, start⟩ := List.mem_map.mp inFree
    obtain ⟨front, back, rfl⟩ := List.append_of_mem member
    obtain ⟨before, final, last⟩ : ∃ before final, base :: front.map Span.start = before ++ [final] :=
      ⟨_, _, (List.dropLast_append_getLast (List.cons_ne_nil base _)).symm⟩
    have leads : h.next final = block.start := (linked_cons_cons.mp (sound.cut_ring last).2).1
    have finalMember : final ∈ base :: (front ++ block :: back).map Span.start := by
      rw [headers_append, last]
      simp
    have same : q = final :=
      sound.ring.eq_of_next sound.nodup inRing finalMember (start.symm.trans leads.symm)
    exact ⟨front, block, back, before, rfl, start.symm, same ▸ last⟩

end Rings

variable {front back : List Span}

theorem Sound.unlink {before : List Nat}
    (sound : Sound base h (front ++ block :: back) live)
    (last : base :: front.map Span.start = before ++ [q]) :
    Sound base { h.setNext q (h.next block.start) with freep := q } (front ++ back)
    (block :: live) := by
  have laid := sound.laid
  rw [List.append_assoc] at laid
  obtain ⟨header, kept⟩ := laid.last_header last
  have keptAfter := kept _ (setNext_only : OnlyHeader q h (h.setNext q (h.next block.start)))
  rw [List.map_append] at keptAfter
  have nextEq : (h.setNext q (h.next block.start)).next q = h.next block.start := by
    rw [next_setNext, Nat.mod_eq_of_lt (next_lt ..)]
  obtain ⟨lower, upper⟩ := sound.cut_ring last
  rw [List.map_cons, List.cons_append] at upper
  have order : (front ++ (block :: back ++ live)).Perm (front ++ back ++ block :: live) := by
    rw [List.append_assoc]
    exact List.perm_middle.symm.append_left front
  refine ((laid.relink header setNext_only size_setNext rfl).perm order).sound_at
    ?_ (lower.congr ?_) (upper.tail.replace_head nextEq ?_) ?_
  · rw [headers_append, last, List.append_assoc, List.singleton_append]
  · rw [List.dropLast_concat]
    exact fun p member => keptAfter p (.inl member)
  · rw [List.dropLast_concat]
    exact fun p member => keptAfter p (.inr (List.mem_append_left _ (.tail _ member)))
  · exact sound.gaps.sublist (List.Sublist.append_left (List.sublist_cons_self _ _) _)

/-- The heap after a block has been cut: the lower part keeps its header, the upper part gets
one of its own. -/
def cutHeap (h : Heap) (start rest nunits : Nat) : Heap :=
  (h.setSize start rest).setSize (start + 8 * rest) nunits

section Cuts

variable {start rest : Nat}

theorem cutHeap_size_upper (small : nunits < 2 ^ 32) :
    (cutHeap h start rest nunits).size (start + 8 * rest) = nunits := by
  rw [cutHeap, size_setSize, Nat.mod_eq_of_lt small]

variable (restPos : 0 < rest)

include restPos

theorem cutHeap_size_lower (small : rest < 2 ^ 32) :
    (cutHeap h start rest nunits).size start = rest := by
  have upper : OnlyHeader (start + 8 * rest) (h.setSize start rest) (cutHeap h start rest nunits) :=
    setSize_only
  rw [upper.size (.inl (by omega)), size_setSize, Nat.mod_eq_of_lt small]

variable (unitsPos : 0 < nunits)

include unitsPos

theorem cutHeap_outside {address : Nat}
    (outside : address < start ∨ start + 8 * (rest + nunits) ≤ address) :
    (cutHeap h start rest nunits).mem address = h.mem address := by
  have upper : OnlyHeader (start + 8 * rest) (h.setSize start rest) (cutHeap h start rest nunits) :=
    setSize_only
  have lower : OnlyHeader start h (h.setSize start rest) := setSize_only
  rw [upper address (by omega), lower address (by omega)]

theorem cutHeap_size (outside : q + 8 ≤ start ∨ start + 8 * (rest + nunits) ≤ q) :
    (cutHeap h start rest nunits).size q = h.size q :=
  load32_congr fun _ _ => cutHeap_outside restPos unitsPos (by omega)

theorem cutHeap_next (outside : q + 8 ≤ start ∨ start + 8 * (rest + nunits) ≤ q ∨ q = start) :
    (cutHeap h start rest nunits).next q = h.next q := by
  have upper : OnlyHeader (start + 8 * rest) (h.setSize start rest) (cutHeap h start rest nunits) :=
    setSize_only
  have lower : OnlyHeader start h (h.setSize start rest) := setSize_only
  rw [upper.next (by unfold Apart; omega)]
  rcases outside with below | above | rfl
  · exact lower.next (.inl below)
  · exact lower.next (.inr (by omega))
  · exact next_setSize

variable (parts : 8 * (rest + nunits) = block.length)

include parts

theorem Laid.cut (laid : Laid base h (block :: others)) :
    Laid base (cutHeap h block.start rest nunits)
      (⟨block.start, 8 * rest⟩ :: ⟨block.start + 8 * rest, 8 * nunits⟩ :: others) := by
  have within := laid.within (.head _)
  have separate := (List.pairwise_cons.mp laid.separate).1
  unfold stop at within
  exact
    { baseEmpty := by
        rw [cutHeap_size restPos unitsPos (.inl within.1)]
        exact laid.baseEmpty
      headed := by
        intro other member
        rw [List.mem_cons, List.mem_cons] at member
        rcases member with rfl | rfl | later
        · exact ⟨by dsimp only; omega, by rw [cutHeap_size_lower restPos (by omega)]⟩
        · exact ⟨by dsimp only; omega, by rw [cutHeap_size_upper (by omega)]⟩
        · have headed := laid.headed other (.tail _ later)
          have apart := separate other later
          have long := headed.eight_le
          unfold Separate stop at apart
          exact ⟨headed.nonempty, by rw [cutHeap_size restPos unitsPos (by omega), headed.sized]⟩
      tiled := fun address => by
        have covered := laid.tiled address
        have joined : (if Covers ⟨block.start, 8 * rest⟩ address then 1 else 0) +
            (if Covers ⟨block.start + 8 * rest, 8 * nunits⟩ address then 1 else 0) =
              if block.Covers address then 1 else 0 := by
          rw [cover_join, ← Nat.mul_add, parts]
        simp only [cover_cons] at covered ⊢
        rw [← Nat.add_assoc, joined]
        exact covered
      once := laid.once
      above := laid.above }

/-- The program gets the upper part of a block. -/
theorem Sound.split (sound : Sound base h (front ++ block :: back) live)
    (inRing : q ∈ base :: (front ++ block :: back).map Span.start) :
    Sound base { cutHeap h block.start rest nunits with freep := q }
      (front ++ ⟨block.start, 8 * rest⟩ :: back)
      (⟨block.start + 8 * rest, 8 * nunits⟩ :: live) := by
  have laid := sound.laid
  rw [List.append_assoc, List.cons_append] at laid
  have order : (⟨block.start, 8 * rest⟩ :: ⟨block.start + 8 * rest, 8 * nunits⟩ ::
      (front ++ (back ++ live))).Perm (front ++ ⟨block.start, 8 * rest⟩ :: back ++
        ⟨block.start + 8 * rest, 8 * nunits⟩ :: live) := by
    rw [List.append_assoc, List.cons_append]
    refine .trans (.cons _ ?_) List.perm_middle.symm
    rw [← List.append_assoc, ← List.append_assoc]
    exact List.perm_middle.symm
  have sameStarts : (front ++ ⟨block.start, 8 * rest⟩ :: back).map Span.start =
      (front ++ block :: back).map Span.start := by simp
  have middle := laid.perm List.perm_middle
  refine ⟨((middle.cut restPos unitsPos parts).perm order).at_freep, ?_, ?_, sameStarts ▸ inRing⟩
  · rw [sameStarts]
    refine sound.ring.congr fun p member => cutHeap_next restPos unitsPos ?_
    rcases List.mem_cons.mp member with rfl | inFree
    · exact .inl (middle.within (.head _)).1
    · obtain ⟨other, inBlocks, rfl⟩ := List.mem_map.mp inFree
      rcases List.mem_cons.mp (List.perm_middle.mem_iff.mp inBlocks) with rfl | elsewhere
      · exact .inr (.inr rfl)
      · have inOthers : other ∈ front ++ (back ++ live) := by
          rw [← List.append_assoc]
          exact List.mem_append_left _ elsewhere
        have separate := (List.pairwise_cons.mp middle.separate).1 other inOthers
        have long := (middle.headed other (.tail _ inOthers)).eight_le
        unfold Separate stop at separate
        omega
  · obtain ⟨gapsFront, gapsBlock, crossing⟩ := List.pairwise_append.mp sound.gaps
    obtain ⟨beyond, gapsBack⟩ := List.pairwise_cons.mp gapsBlock
    refine List.pairwise_append.mpr ⟨gapsFront, List.pairwise_cons.mpr ⟨fun later inBack => ?_,
      gapsBack⟩, fun earlier inFront => List.forall_mem_cons.mpr
        ⟨crossing earlier inFront block (.head _),
          fun later inBack => crossing earlier inFront later (.tail _ inBack)⟩⟩
    have gap := beyond later inBack
    unfold Gap stop at *
    dsimp only
    omega

end Cuts

variable {rest cp nu : Nat}

theorem forward_eq {units : Nat} (fits : p + 8 * units < 2 ^ 32) : forward p units = p + 8 * units :=
  Nat.mod_eq_of_lt fits

theorem take_cut (parts : h.size p = rest + nunits) (restPos : 0 < rest)
    (fits : p + 8 * rest + 8 < 2 ^ 32) :
    take h nunits q p = ({ cutHeap h p rest nunits with freep := q }, p + 8 * rest + headerSize) := by
  have small : h.size p < 2 ^ 32 := load32_lt _ _
  have difference : (2 ^ 32 - nunits + h.size p) % 2 ^ 32 = rest := by omega
  have sizeLeft : (h.setSize p rest).size p = rest := by
    rw [size_setSize, Nat.mod_eq_of_lt (by omega)]
  rw [take, if_neg (by omega), difference]
  dsimp only
  rw [sizeLeft, forward_eq (by omega), forward_eq fits, headerSize, cutHeap]

/-- What an allocation of `nunits` units gives: a new block of the program, and the memory
that is not concerned is as before. -/
structure Allocated (base : Nat) (live : List Span) (nunits : Nat) (h h' : Heap) (p : Nat) : Prop where
  block : ∃ free block, p = block.start + headerSize ∧ block.length = headerSize * nunits ∧
    Sound base h' free (block :: live)
  more : h.obtained ⊆ h'.obtained
  kept : Kept base live h h'

variable (sound : Sound base h free live)

include sound

theorem Sound.take (inRing : q ∈ base :: free.map Span.start)
    (unitsPos : 0 < nunits) (fits : nunits ≤ h.size (h.next q)) :
    Allocated base live nunits h (take h nunits q (h.next q)).1 (take h nunits q (h.next q)).2 := by
  obtain ⟨front, block, back, before, rfl, leads, last⟩ :=
    sound.found inRing (Nat.lt_of_lt_of_le unitsPos fits)
  have member : block ∈ front ++ block :: back ++ live := by simp
  have sized := (sound.laid.headed block member).sized
  have within := sound.laid.within member
  unfold stop at within
  rw [leads] at fits ⊢
  obtain ⟨rest, parts⟩ : ∃ rest, h.size block.start = rest + nunits :=
    ⟨_, (Nat.sub_add_cancel fits).symm⟩
  rcases Nat.eq_zero_or_pos rest with rfl | restPos
  · rw [Nat.zero_add] at parts
    rw [take, if_pos parts, forward_eq (by omega), ← headerSize]
    refine ⟨⟨_, block, rfl, ?_, sound.unlink last⟩, List.Subset.refl _, ?_⟩
    · rw [← sized, parts, headerSize]
    · exact (sound.laid.kept_header inRing setNext_only (List.Subset.refl _)).at_freep
  · rw [take_cut parts restPos (by omega)]
    rw [parts] at sized
    have kept : Kept base live h (cutHeap h block.start rest nunits) := by
      refine sound.laid.kept (fun address _ uncovered => ?_) (List.Subset.refl _)
      refine cutHeap_outside restPos unitsPos ?_
      by_contra inside
      refine uncovered block (by simp) ?_
      unfold Covers stop
      omega
    exact ⟨⟨_, _, rfl, rfl, sound.split restPos unitsPos sized inRing⟩, List.Subset.refl _,
      kept.at_freep⟩

/-- The answer of the kernel is the start of memory that lies above `umalloc_base` and above
all memory handed out before.  The address behind it exists, as for every object of C; that
it is a multiple of eight is not needed. -/
structure Fresh (base : Nat) (obtained : List Span) (bytes cp : Nat) : Prop where
  aboveBase : base + 8 ≤ cp
  aboveAll : ∀ arena ∈ obtained, arena.stop ≤ cp
  ends : cp + bytes < 2 ^ 32

def SbrkFresh (base : Nat) (sbrk : Sbrk) : Prop :=
  ∀ obtained bytes cp, sbrk obtained bytes = some cp → Fresh base obtained bytes cp

def grown (h : Heap) (cp nu : Nat) : Heap :=
  ({ h with obtained := ⟨cp, nu * headerSize⟩ :: h.obtained }).setSize cp nu

omit sound in
theorem grown_only : OnlyHeader cp h (grown h cp nu) := fun address outside =>
  (setSize_only : OnlyHeader cp { h with obtained := _ } _) address outside

section Growth

variable (fresh : Fresh base h.obtained (nu * headerSize) cp) (positive : 0 < nu)

include fresh

theorem Sound.stop_le (member : block ∈ free ++ live) : block.stop ≤ cp := by
  obtain ⟨arena, inArenas, ends⟩ := sound.laid.ends member
  exact ends.trans (fresh.aboveAll arena inArenas)

include positive

/-- New memory is like a block of the program. -/
theorem Sound.grow :
    Sound base (grown h cp nu) free (⟨cp, nu * headerSize⟩ :: live) := by
  have laid := sound.laid
  have only : OnlyHeader cp h (grown h cp nu) := grown_only
  have apart : ∀ q ∈ base :: (free ++ live).map Span.start, Apart q cp := by
    intro q member
    rcases List.mem_cons.mp member with rfl | inBlocks
    · exact .inl fresh.aboveBase
    · obtain ⟨block, inside, rfl⟩ := List.mem_map.mp inBlocks
      have below := sound.stop_le fresh inside
      have long := (laid.headed block inside).eight_le
      unfold stop at below
      exact .inl (by omega)
  have ends := fresh.ends
  unfold headerSize at ends
  have laidGrown : Laid base (grown h cp nu) (⟨cp, nu * headerSize⟩ :: (free ++ live)) :=
    { baseEmpty := (only.size (apart base (.head _))).trans laid.baseEmpty
      headed := by
        intro block member
        rcases List.mem_cons.mp member with rfl | inBlocks
        · refine ⟨Nat.mul_pos positive (by decide), ?_⟩
          rw [grown, size_setSize, Nat.mod_eq_of_lt (by omega), Nat.mul_comm, headerSize]
        · have headed := laid.headed block inBlocks
          refine ⟨headed.nonempty, ?_⟩
          rw [only.size (apart _ (.tail _ (List.mem_map_of_mem inBlocks))), headed.sized]
      tiled := fun address => by
        change _ = cover (⟨cp, nu * headerSize⟩ :: h.obtained) address
        rw [cover_cons, cover_cons, laid.tiled]
      once := fun address => by
        change cover (⟨cp, nu * headerSize⟩ :: h.obtained) address ≤ 1
        rw [cover_cons]
        split
        · next covers =>
          have none : cover h.obtained address = 0 := by
            refine cover_eq_zero.mpr fun arena member inArena => ?_
            have below := fresh.aboveAll arena member
            unfold Covers at covers inArena
            dsimp only at covers
            omega
          omega
        · have once := laid.once address
          omega
      above := List.forall_mem_cons.mpr ⟨⟨fresh.aboveBase, fresh.ends⟩, laid.above⟩ }
  exact
    { laid := laidGrown.perm List.perm_middle.symm
      ring := sound.ring.congr fun q member => only.next (apart q (mem_headers live member))
      gaps := sound.gaps
      current := sound.current }

theorem Sound.kept_grown : Kept base live h (grown h cp nu) := by
  intro address _ spared
  apply grown_only
  by_contra inHeader
  rcases spared with ⟨block, member, covers⟩ | unclaimed
  · have below := sound.stop_le fresh (List.mem_append_right _ member)
    unfold Covers at covers
    omega
  · refine unclaimed ⟨cp, nu * headerSize⟩ (.head _) ?_
    unfold Covers stop headerSize
    dsimp only
    omega

end Growth

variable {sbrk : Sbrk}

/-- `umalloc_morecore` fails and changes nothing, or the list has a block that is large
enough. -/
theorem Sound.morecore (fresh : SbrkFresh base sbrk) :
    (∀ turns, morecore sbrk turns h nunits = some (h, 0)) ∨
      ∃ h' free', (∀ turns, free.length < turns →
          morecore sbrk turns h nunits = some (h', h'.freep)) ∧
        Sound base h' free' live ∧ (∃ block ∈ free', headerSize * nunits ≤ block.length) ∧
        h.obtained ⊆ h'.obtained ∧ Kept base live h h' := by
  have atLeast : nunits ≤ coreUnits nunits ∧ 0 < coreUnits nunits := by
    unfold coreUnits nalloc
    split <;> omega
  by_cases tooMany : 0x7FFFFFFF / headerSize < coreUnits nunits
  · exact .inl fun turns => if_pos tooMany
  · cases answer : sbrk h.obtained (coreUnits nunits * headerSize) with
    | none =>
      refine .inl fun turns => ?_
      rw [UserHeap.morecore, if_neg tooMany, answer]
    | some cp =>
      have isFresh := fresh _ _ _ answer
      have fits : cp + 8 * 1 < 2 ^ 32 := by
        have ends := isFresh.ends
        unfold headerSize at ends
        omega
      obtain ⟨h', free', returns, soundAfter, ⟨other, member, contains⟩, obtained, kept⟩ :=
        (sound.grow isFresh atLeast.2).free_block
      refine .inr ⟨h', free', fun turns enough => ?_, soundAfter, ⟨other, member, ?_⟩, ?_,
        (sound.kept_grown isFresh atLeast.2).trans kept (by rw [obtained]; exact List.Subset.refl _)⟩
      · have returned := returns turns enough
        rw [UserHeap.morecore, if_neg tooMany, answer]
        dsimp only
        rw [forward_eq fits]
        change (UserHeap.free turns (grown h cp (coreUnits nunits)) (cp + headerSize)).map _ = _
        rw [returned]
        rfl
      · refine le_trans ?_ contains
        rw [Nat.mul_comm]
        exact Nat.mul_le_mul_right _ atLeast.1
      · rw [obtained]
        exact List.subset_cons_self _ _

variable {turns : Nat}

/-- The places where the loop does not go on. -/
def halts (h : Heap) (nunits q : Nat) : Bool :=
  nunits ≤ h.size (h.next q) || h.next q = h.freep

omit sound in
/-- The loop searches for such a place. -/
theorem mallocLoop_search {start : Nat}
    (found : search h.next (halts h nunits) turns start = some q) :
    ∃ used, ∀ more, mallocLoop sbrk nunits (more + used) h start (h.next start) =
      mallocLoop sbrk nunits more h q (h.next q) := by
  induction turns generalizing start with
  | zero => exact nomatch found
  | succ turns ih =>
    rw [search] at found
    split at found
    · obtain rfl := Option.some.inj found
      exact ⟨0, fun more => rfl⟩
    · next goes =>
      obtain ⟨used, reaches⟩ := ih found
      simp only [halts, Bool.or_eq_true, decide_eq_true_eq, not_or] at goes
      refine ⟨used + 1, fun more => ?_⟩
      rw [← reaches, ← Nat.add_assoc, mallocLoop, if_neg goes.1, if_neg goes.2]

/-- The ring from `umalloc_freep` on. -/
theorem Sound.from_freep :
    ∃ others, Ring h.next h.freep others ∧ (h.freep :: others).Perm (base :: free.map Span.start) ∧
      (h.freep :: others).Nodup := by
  obtain ⟨others, ring, perm⟩ := sound.ring.start_at sound.current
  exact ⟨others, ring, perm, perm.nodup_iff.mpr sound.nodup⟩

/-- The loop halts in front of a block that is large enough, or there is none and it has
come around the list. -/
theorem Sound.loop_halts : ∃ q ∈ base :: free.map Span.start,
    (nunits ≤ h.size (h.next q) ∨
      h.next q = h.freep ∧ ∀ p ∈ base :: free.map Span.start, ¬ nunits ≤ h.size p) ∧
    ∃ used, ∀ more, mallocLoop sbrk nunits (more + used) h h.freep (h.next h.freep) =
      mallocLoop sbrk nunits more h q (h.next q) := by
  obtain ⟨others, ring, perm, distinct⟩ := sound.from_freep
  have previous : ∀ p ∈ h.freep :: others, ∃ q ∈ h.freep :: others, h.next q = p := by
    intro p member
    rw [← List.mem_map, ring.map_next]
    exact (List.perm_append_singleton _ _).mem_iff.mpr member
  obtain ⟨closing, inRing, leads⟩ := previous h.freep (.head _)
  have isSome : ((h.freep :: others).find? (halts h nunits)).isSome :=
    List.find?_isSome.mpr ⟨closing, inRing, by simp [halts, leads]⟩
  obtain ⟨q, found⟩ := Option.isSome_iff_exists.mp isSome
  obtain ⟨stops, before, behind, order, goes⟩ := List.find?_eq_some_iff_append.mp found
  refine ⟨q, perm.mem_iff.mp (List.mem_of_find?_eq_some found), ?_, mallocLoop_search
    (search_of_linked others _ _ ring.linked found (Nat.lt_succ_self _))⟩
  by_cases large : nunits ≤ h.size (h.next q)
  · exact .inl large
  · have around : h.next q = h.freep := by simpa [halts, large] using stops
    refine .inr ⟨around, fun p member fits => ?_⟩
    obtain ⟨r, visited, leads⟩ := previous p (perm.mem_iff.mpr member)
    rw [order, List.mem_append, List.mem_cons] at visited
    rcases visited with early | rfl | late
    · simpa [halts, leads, fits] using goes r early
    · exact large (leads ▸ fits)
    · -- the first one in the list is not a second time behind `q`
      obtain ⟨other, behind, rfl⟩ := List.exists_cons_of_ne_nil (List.ne_nil_of_mem late)
      have linked := ring.linked
      rw [order] at linked distinct
      obtain rfl : h.freep = other :=
        around.symm.trans (linked_cons_cons.mp (linked_split.mp linked).2).1
      cases before <;> simp_all

/-- The loop ends: with nothing done when the kernel has no memory left, or with a block. -/
theorem Sound.loop_returns (fresh : SbrkFresh base sbrk)
    (basePos : 0 < base) (unitsPos : 0 < nunits) :
    ∃ enough h' p, (∀ turns, enough ≤ turns →
        mallocLoop sbrk nunits turns h h.freep (h.next h.freep) = some (h', p)) ∧
      (h' = h ∧ p = 0 ∨ Allocated base live nunits h h' p) := by
  obtain ⟨q, inRing, fits | ⟨around, small⟩, used, reaches⟩ := sound.loop_halts
  · refine ⟨1 + used, _, _, fun turns enough => ?_, .inr (sound.take inRing unitsPos fits)⟩
    obtain ⟨left, rfl⟩ := Nat.exists_eq_add_of_le' enough
    rw [← Nat.add_assoc, reaches, mallocLoop, if_pos fits]
  · have grows : ∀ turns, mallocLoop sbrk nunits (turns + 1 + used) h h.freep (h.next h.freep) =
        (UserHeap.morecore sbrk turns h nunits).bind fun grown =>
          if grown.2 = 0 then some (grown.1, 0)
          else mallocLoop sbrk nunits turns grown.1 grown.2 (grown.1.next grown.2) := by
      intro turns
      rw [reaches, mallocLoop, around, if_neg (small _ sound.current), if_pos rfl]
      cases UserHeap.morecore sbrk turns h nunits <;> rfl
    rcases sound.morecore fresh with fails | ⟨h₁, free₁, returns, sound₁, ⟨block, member, long⟩, more, kept⟩
    · refine ⟨1 + used, h, 0, fun turns enough => ?_, .inl ⟨rfl, rfl⟩⟩
      obtain ⟨left, rfl⟩ := Nat.exists_eq_add_of_le' enough
      rw [← Nat.add_assoc, grows, fails]
      rfl
    · have sized := (sound₁.laid.headed block (List.mem_append_left _ member)).sized
      obtain ⟨q₁, inRing₁, result, used₁, reaches₁⟩ := sound₁.loop_halts
      have fits : nunits ≤ h₁.size (h₁.next q₁) := by
        refine result.resolve_right fun none => ?_
        refine none.2 block.start (.tail _ (List.mem_map_of_mem member)) ?_
        unfold headerSize at long
        omega
      obtain ⟨allocated, moreAfter, keptAfter⟩ := sound₁.take inRing₁ unitsPos fits
      refine ⟨free.length + 1 + used₁ + 1 + used, _, _, fun turns enough => ?_,
        .inr ⟨allocated, List.Subset.trans more moreAfter, kept.trans keptAfter moreAfter⟩⟩
      obtain ⟨left, rfl⟩ := Nat.exists_eq_add_of_le' enough
      rw [show left + (free.length + 1 + used₁ + 1 + used) =
        left + free.length + 1 + used₁ + 1 + used by omega, grows, returns _ (by omega)]
      rw [Option.bind_some, if_neg (sound₁.freep_ne_zero basePos), reaches₁, mallocLoop, if_pos fits]

omit sound

def Ready (base : Nat) (h : Heap) (live : List Span) : Prop :=
  (h.freep = 0 ∧ h.obtained = [] ∧ live = []) ∨ ∃ free, Sound base h free live

/-- What `malloc` has done when it returns `p`. -/
structure Malloced (base : Nat) (live : List Span) (nbytes : Nat) (h h' : Heap) (p : Nat) : Prop where
  outcome : (p = 0 ∧ Ready base h' live) ∨
    ∃ free block, p = block.start + headerSize ∧ block.length = headerSize * unitsFor nbytes ∧
      Sound base h' free (block :: live)
  listed : nbytes ≠ 0 → h'.freep ≠ 0
  more : h.obtained ⊆ h'.obtained
  kept : Kept base live h h'

theorem prepared_sound (untouched : h.freep = 0) (nothing : h.obtained = []) (fits : base < 2 ^ 32) :
    Sound base (prepared base h) [] [] ∧ OnlyHeader base h (prepared base h) ∧
      (prepared base h).obtained = h.obtained := by
  have linked : OnlyHeader base h { h.setNext base base with freep := base } :=
    fun address outside => setNext_only address outside
  rw [prepared, if_pos untouched]
  refine ⟨⟨⟨?_, fun _ member => (nomatch member), ?_, ?_, ?_⟩, ?_, .nil, .head _⟩,
    linked.trans setSize_only, rfl⟩
  · rw [size_setSize, Nat.zero_mod]
  · intro address
    change _ = cover h.obtained address
    rw [nothing]
    rfl
  · intro address
    change cover h.obtained address ≤ 1
    rw [nothing]
    exact Nat.zero_le 1
  · intro block member
    change block ∈ h.obtained at member
    rw [nothing] at member
    exact nomatch member
  · refine linked_cons_cons.mpr ⟨?_, List.isChain_singleton _⟩
    rw [next_setSize]
    change (h.setNext base base).next base = base
    rw [next_setNext, Nat.mod_eq_of_lt fits]

theorem prepared_of_sound (sound : Sound base h free live) (basePos : 0 < base) :
    prepared base h = h :=
  if_neg (sound.freep_ne_zero basePos)

/-- `malloc` returns, from every state of the allocator. -/
theorem Ready.malloc (ready : Ready base h live) (fresh : SbrkFresh base sbrk)
    (basePos : 0 < base) (baseFits : base < 2 ^ 32) (nbytes : Nat) :
    ∃ enough h' p, (∀ turns, enough ≤ turns → malloc base sbrk turns h nbytes = some (h', p)) ∧
      Malloced base live nbytes h h' p := by
  by_cases zero : nbytes = 0
  · exact ⟨0, h, 0, fun turns _ => if_pos zero, .inl ⟨rfl, ready⟩, fun nonzero => absurd zero nonzero,
      List.Subset.refl _, fun _ _ _ => rfl⟩
  · obtain ⟨free, sound, more, kept⟩ : ∃ free, Sound base (prepared base h) free live ∧
        h.obtained ⊆ (prepared base h).obtained ∧ Kept base live h (prepared base h) := by
      rcases ready with ⟨untouched, nothing, rfl⟩ | ⟨free, sound⟩
      · obtain ⟨sound, only, sameObtained⟩ := prepared_sound untouched nothing baseFits
        exact ⟨[], sound, sameObtained ▸ List.Subset.refl _, fun address outside _ => only address outside⟩
      · rw [prepared_of_sound sound basePos]
        exact ⟨free, sound, List.Subset.refl _, fun _ _ _ => rfl⟩
    obtain ⟨enough, h', p, returns, result⟩ :=
      sound.loop_returns fresh basePos (Nat.succ_pos _ : 0 < unitsFor nbytes)
    refine ⟨enough, h', p, fun turns isEnough => ?_, ?_⟩
    · rw [UserHeap.malloc, if_neg zero]
      exact returns turns isEnough
    · rcases result with ⟨rfl, rfl⟩ | ⟨⟨free', block, payload, length, soundAfter⟩, moreAfter, keptAfter⟩
      · exact ⟨.inl ⟨rfl, .inr ⟨free, sound⟩⟩, fun _ => sound.freep_ne_zero basePos, more, kept⟩
      · exact ⟨.inr ⟨free', block, payload, length, soundAfter⟩,
          fun _ => soundAfter.freep_ne_zero basePos, List.Subset.trans more moreAfter,
          kept.trans keptAfter moreAfter⟩

end MiniOS.UserHeap
