import MiniOS.UserHeapBlocks

/-!
# Giving a block back

The free blocks form a ring through `umalloc_base` in the order of their addresses.  The loop
of `free` ends at the predecessor of the block in this order, from wherever it starts.  The
block is then put behind it and joined with the neighbours that it touches.
-/

namespace MiniOS.UserHeap

open ByteMemory LinkedRing MiniOS.Span

/-- There is memory between the two blocks, which lie in this order. -/
def Gap (block other : Span) : Prop := block.stop < other.start

/-- The state of the allocator between two calls: the free blocks are a ring in the order
of their addresses without two that touch, and together with the blocks of the program they
are the memory handed out by the kernel. -/
structure Sound (base : Nat) (h : Heap) (free live : List Span) : Prop where
  laid : Laid base h (free ++ live)
  ring : Ring h.next base (free.map Span.start)
  gaps : free.Pairwise Gap
  current : h.freep ∈ base :: free.map Span.start

/-- The ring put together at the header where the next search starts. -/
theorem Laid.sound_at {base p : Nat} {h : Heap} {free live : List Span} {before rest : List Nat}
    (laid : Laid base h (free ++ live)) (nodes : base :: free.map Span.start = before ++ p :: rest)
    (lower : Linked h.next (before ++ [p])) (upper : Linked h.next (p :: (rest ++ [base])))
    (gaps : free.Pairwise Gap) : Sound base { h with freep := p } free live where
  laid := laid.at_freep
  ring := by
    rw [LinkedRing.Ring, ← List.cons_append, nodes, List.append_assoc, List.cons_append]
    exact linked_split.mpr ⟨lower, upper⟩
  gaps := gaps
  current := by simp [nodes]

/-- What both halves do with a header `p` and what lies behind it: `p` leads to `q`, or takes
it over. -/
def attached (h : Heap) (p q : Nat) : Heap :=
  if forward p (h.size p) = q then
    (h.setSize p (h.size p + h.size q)).setNext p (h.next q)
  else h.setNext p q

section Joins

variable {h : Heap} {bp p q : Nat}

theorem joinUpper_eq (apart : Apart p bp) (apartNext : Apart (h.next p) bp) :
    joinUpper h bp p = attached h bp (h.next p) := by
  have only : OnlyHeader bp h (h.setSize bp (h.size bp + h.size (h.next p))) := setSize_only
  rw [joinUpper, attached]
  dsimp only
  rw [only.next apart, only.next apartNext]

theorem joinLower_eq (apart : Apart bp p) : joinLower h bp p = attached h p bp := by
  have only : OnlyHeader p h (h.setSize p (h.size p + h.size bp)) := setSize_only
  rw [joinLower, attached]
  dsimp only
  rw [only.next apart]

theorem attached_only : OnlyHeader p h (attached h p q) := by
  unfold attached
  split
  · exact setSize_only.trans setNext_only
  · exact setNext_only

@[simp]
theorem attached_obtained : (attached h p q).obtained = h.obtained := by
  unfold attached
  split <;> rfl

variable {base : Nat} {block : Span} {back blocks others : List Span} {rest : List Nat}

theorem Laid.forward_size (laid : Laid base h blocks) (member : block ∈ blocks) :
    forward block.start (h.size block.start) = block.stop := by
  rw [forward, headerSize, (laid.headed block member).sized]
  exact Nat.mod_eq_of_lt (laid.within member).2

/-- A block in front of a list of free blocks above it is put at its head. -/
theorem Laid.attach (laid : Laid base h (block :: (back ++ others))) (small : q < 2 ^ 32)
    (nodes : back.map Span.start ++ [base] = q :: rest) (upper : Linked h.next (q :: rest))
    (gaps : back.Pairwise Gap) (beyond : ∀ other ∈ back, block.stop ≤ other.start) :
    ∃ merged back', merged.start = block.start ∧
      (∀ other ∈ block :: back, ∃ larger ∈ merged :: back', other.length ≤ larger.length) ∧
      Laid base (attached h block.start q) (merged :: (back' ++ others)) ∧
      Linked (attached h block.start q).next (merged.start :: (back'.map Span.start ++ [base])) ∧
      (merged :: back').Pairwise Gap := by
  have only : OnlyHeader block.start h (attached h block.start q) := attached_only
  have apart := laid.apart
  simp only [List.map_cons, List.pairwise_cons, List.forall_mem_cons] at apart
  obtain ⟨⟨baseApart, -⟩, blockApart, -⟩ := apart
  have kept : ∀ p ∈ q :: rest, (attached h block.start q).next p = h.next p := by
    intro p member
    rw [← nodes, List.mem_append, List.mem_singleton] at member
    rcases member with inBack | rfl
    · exact only.next (blockApart p (by simp [inBack])).symm
    · exact only.next baseApart
  have within := laid.within (.head _)
  have forwardEq := laid.forward_size (.head _)
  by_cases touches : block.stop = q
  · cases back with
    | nil =>
      obtain ⟨atBase, -⟩ := List.cons.inj nodes
      unfold stop at touches
      omega
    | cons other back =>
      obtain ⟨rfl, rfl⟩ := List.cons.inj nodes
      have blockSized := (laid.headed block (.head _)).sized
      have otherSized := (laid.headed other (.tail _ (.head _))).sized
      have otherWithin := laid.within (.tail _ (.head _))
      have fits : h.size block.start + h.size other.start < 2 ^ 32 := by
        unfold stop at touches otherWithin
        omega
      have attachedEq : attached h block.start other.start = _ := if_pos (forwardEq.trans touches)
      have joined := Laid.join laid touches only
        (by rw [attachedEq, size_setNext, size_setSize, Nat.mod_eq_of_lt fits]) attached_obtained
      have nextEq : (attached h block.start other.start).next block.start = h.next other.start := by
        rw [attachedEq, next_setNext, Nat.mod_eq_of_lt (next_lt ..)]
      refine ⟨⟨block.start, block.length + other.length⟩, back, rfl, ?_, joined,
        upper.replace_head nextEq fun p member =>
          kept p (.tail _ ((List.dropLast_sublist _).subset member)),
        List.pairwise_cons.mpr ⟨fun later member => ?_, (List.pairwise_cons.mp gaps).2⟩⟩
      · simp only [List.forall_mem_cons]
        exact ⟨⟨_, .head _, Nat.le_add_right ..⟩, ⟨_, .head _, Nat.le_add_left ..⟩,
          fun later member => ⟨later, .tail _ member, le_rfl⟩⟩
      · have gap := (List.pairwise_cons.mp gaps).1 later member
        unfold Gap stop at *
        dsimp only
        omega
  · have attachedEq : attached h block.start q = _ := if_neg (forwardEq.trans_ne touches)
    have nextEq : (attached h block.start q).next block.start = q := by
      rw [attachedEq, next_setNext, Nat.mod_eq_of_lt small]
    refine ⟨block, back, rfl, fun other member => ⟨other, member, le_rfl⟩,
      laid.relink (by simp) only (by rw [attachedEq, size_setNext]) attached_obtained, ?_,
      List.pairwise_cons.mpr ⟨?_, gaps⟩⟩
    · rw [nodes]
      exact linked_cons_cons.mpr ⟨nextEq, upper.congr fun p member =>
        kept p ((List.dropLast_sublist _).subset member)⟩
    · -- a block that does not touch the first one behind it touches none of them
      cases back with
      | nil => simp
      | cons other back =>
        obtain ⟨rfl, rfl⟩ := List.cons.inj nodes
        rw [List.forall_mem_cons] at beyond ⊢
        refine ⟨lt_of_le_of_ne beyond.1 touches, fun later member => ?_⟩
        have gap := (List.pairwise_cons.mp gaps).1 later member
        unfold Gap stop at *
        omega

end Joins

/-- The block belongs between `front` and `back`, behind the header `p`. -/
structure Placed (base : Nat) (h : Heap) (front : List Span) (block : Span) (back live : List Span)
    (p : Nat) : Prop where
  laid : Laid base h (front ++ block :: back ++ live)
  last : ∃ before, base :: front.map Span.start = before ++ [p]
  lower : Linked h.next (base :: front.map Span.start)
  upper : Linked h.next (p :: (back.map Span.start ++ [base]))
  gapsFront : front.Pairwise Gap
  gapsBack : back.Pairwise Gap
  below : ∀ other ∈ front, other.stop ≤ block.start
  beyond : ∀ other ∈ back, block.stop ≤ other.start

section Places

variable {base p : Nat} {h : Heap} {block : Span} {free front back live : List Span}

theorem laid_middle : Laid base h (front ++ block :: back ++ live) ↔
    Laid base h (block :: (back ++ (live ++ front))) := by
  have order : (front ++ block :: back ++ live).Perm (block :: (back ++ (live ++ front))) := by
    rw [← List.append_assoc, ← List.cons_append, List.append_assoc]
    exact List.perm_append_comm
  exact ⟨fun laid => laid.perm order, fun laid => laid.perm order.symm⟩

variable {before : List Nat} (last : base :: front.map Span.start = before ++ [p])

include last

/-- The last header in front can be written without changing another link. -/
theorem Laid.last_header (laid : Laid base h (front ++ back)) :
    p ∈ base :: (front ++ back).map Span.start ∧ ∀ h', OnlyHeader p h h' →
      ∀ q, q ∈ before ∨ q ∈ back.map Span.start → h'.next q = h.next q := by
  have headers : base :: (front ++ back).map Span.start =
      before ++ p :: back.map Span.start := by
    rw [headers_append, last, List.append_assoc, List.singleton_append]
  have distinct := laid.nodup
  rw [headers, List.nodup_middle, List.nodup_cons, List.mem_append] at distinct
  have header : p ∈ base :: (front ++ back).map Span.start := by
    rw [headers]
    simp
  refine ⟨header, fun h' only q member => only.next (laid.apart_of_ne ?_ header ?_)⟩
  · rw [headers, List.mem_append, List.mem_cons]
    exact member.imp_right .inr
  · rintro rfl
    exact distinct.1 member

theorem Sound.cut_ring (sound : Sound base h (front ++ back) live) :
    Linked h.next (before ++ [p]) ∧ Linked h.next (p :: (back.map Span.start ++ [base])) := by
  have ring := sound.ring
  rw [LinkedRing.Ring, List.map_append, List.append_assoc, ← List.cons_append, last,
    List.append_assoc, List.singleton_append] at ring
  exact linked_split.mp ring

omit last

/-- A list in the order of the addresses is divided by the address of another block. -/
theorem exists_place (gaps : free.Pairwise Gap) (separate : ∀ other ∈ free, Separate block other) :
    ∃ front back, free = front ++ back ∧ (∀ other ∈ front, other.stop ≤ block.start) ∧
      ∀ other ∈ back, block.stop ≤ other.start := by
  induction free with
  | nil => exact ⟨[], [], rfl, by simp, by simp⟩
  | cons head free ih =>
    rw [List.pairwise_cons] at gaps
    rw [List.forall_mem_cons] at separate
    rcases separate.1 with before | behind
    · refine ⟨[], head :: free, rfl, by simp, List.forall_mem_cons.mpr
        ⟨before, fun other member => ?_⟩⟩
      have gap := gaps.1 other member
      unfold Gap at gap
      unfold stop at *
      omega
    · obtain ⟨front, back, rfl, below, beyond⟩ := ih gaps.2 separate.2
      exact ⟨head :: front, back, rfl, List.forall_mem_cons.mpr ⟨behind, below⟩, beyond⟩

theorem Sound.placed (sound : Sound base h free (block :: live)) :
    ∃ front back p, free = front ++ back ∧ Placed base h front block back live p := by
  have laid := sound.laid.perm List.perm_middle
  have separate := (List.pairwise_cons.mp laid.separate).1
  obtain ⟨front, back, rfl, below, beyond⟩ :=
    exists_place sound.gaps fun other member => separate other (List.mem_append_left _ member)
  obtain ⟨gapsFront, gapsBack, -⟩ := List.pairwise_append.mp sound.gaps
  obtain ⟨before, p, last⟩ : ∃ before p, base :: front.map Span.start = before ++ [p] :=
    ⟨_, _, (List.dropLast_append_getLast (List.cons_ne_nil base _)).symm⟩
  obtain ⟨lower, upper⟩ := sound.cut_ring last
  refine ⟨front, back, p, rfl, laid.perm ?_, ⟨before, last⟩, last ▸ lower, upper, gapsFront,
    gapsBack, below, beyond⟩
  rw [List.append_assoc, List.append_assoc]
  exact List.perm_middle.symm

theorem ascending_of_gaps (gaps : free.Pairwise Gap) : (free.map Span.start).Pairwise (· < ·) := by
  refine List.pairwise_map.mpr (gaps.imp fun {first second} gap => ?_)
  unfold Gap stop at gap
  omega

theorem Laid.ascending (laid : Laid base h free) (subset : front ⊆ free)
    (gaps : front.Pairwise Gap) : (base :: front.map Span.start).Pairwise (· < ·) := by
  refine List.pairwise_cons.mpr ⟨fun q member => ?_, ascending_of_gaps gaps⟩
  obtain ⟨other, inFront, rfl⟩ := List.mem_map.mp member
  have within := laid.within (subset inFront)
  omega

theorem Placed.block_mem (_placed : Placed base h front block back live p) :
    block ∈ front ++ block :: back ++ live := by
  simp

variable (placed : Placed base h front block back live p)

include placed

theorem Placed.header_mem : p ∈ base :: front.map Span.start := by
  obtain ⟨before, last⟩ := placed.last
  simp [last]

variable {q : Nat}

theorem Placed.lower_lt (member : q ∈ base :: front.map Span.start) : q < block.start := by
  rcases List.mem_cons.mp member with rfl | later
  · have within := placed.laid.within placed.block_mem
    omega
  · obtain ⟨other, inFront, rfl⟩ := List.mem_map.mp later
    have nonempty := (placed.laid.headed other (by simp [inFront])).nonempty
    have below := placed.below other inFront
    unfold stop at below
    omega

theorem Placed.upper_gt (member : q ∈ back.map Span.start) : block.start < q := by
  obtain ⟨other, inBack, rfl⟩ := List.mem_map.mp member
  have nonempty := (placed.laid.headed block placed.block_mem).nonempty
  have beyond := placed.beyond other inBack
  unfold stop at beyond
  omega

theorem Placed.base_le : base ≤ p := by
  rcases List.mem_cons.mp placed.header_mem with rfl | later
  · exact le_rfl
  · obtain ⟨other, inFront, rfl⟩ := List.mem_map.mp later
    have within := placed.laid.within (List.mem_append_left _ (List.mem_append_left _ inFront))
    omega

theorem Placed.mem_ring : p ∈ base :: (front ++ back).map Span.start :=
  mem_headers back placed.header_mem

/-- The loop of `free` stops at the predecessor of the block … -/
theorem Placed.stops : freeStop h block.start p = true := by
  have lower := placed.lower_lt placed.header_mem
  have baseLe := placed.base_le
  have upper := placed.upper
  unfold freeStop
  cases back with
  | nil =>
    have leads : h.next p = base := (linked_cons_cons.mp upper).1
    simp [leads, lower, baseLe]
  | cons other back =>
    have leads : h.next p = other.start := (linked_cons_cons.mp upper).1
    have above := placed.upper_gt (q := other.start) (by simp)
    simp [leads, lower, above]

theorem Placed.stops_only (member : q ∈ base :: (front ++ back).map Span.start)
    (stops : freeStop h block.start q = true) : q = p := by
  obtain ⟨before, last⟩ := placed.last
  have baseLt := placed.lower_lt (q := base) (by simp)
  rw [headers_append, List.mem_append] at member
  by_contra differs
  simp only [freeStop, Bool.or_eq_true, Bool.and_eq_true, decide_eq_true_eq] at stops
  rcases member with inLower | inUpper
  · -- all successors below the block are smaller than the block
    have inBefore : q ∈ before := by
      rw [last, List.mem_append, List.mem_singleton] at inLower
      exact inLower.resolve_right differs
    have ascending := placed.laid.ascending (fun _ => by simp +contextual) placed.gapsFront
    have lower := placed.lower
    rw [last] at ascending lower
    have successorLt : ∀ later ∈ before ++ [p], later < block.start := fun later inside =>
      placed.lower_lt (last ▸ inside)
    obtain ⟨beforeAscending, -, crossing⟩ := List.pairwise_append.mp ascending
    rcases lower.leads beforeAscending inBefore with ⟨inside, grows⟩ | final
    · have successor := successorLt _ (List.mem_append_left _ inside)
      omega
    · have grows := crossing q inBefore p (.head _)
      have successor := successorLt p (by simp)
      omega
  · -- above the block the addresses grow until the list returns to its base
    have above := placed.upper_gt inUpper
    rcases placed.upper.tail.leads (ascending_of_gaps placed.gapsBack) inUpper with
      ⟨inside, grows⟩ | final
    · omega
    · omega

theorem Placed.search (ring : Ring h.next base ((front ++ back).map Span.start))
    {start turns : Nat} (startMember : start ∈ base :: (front ++ back).map Span.start)
    (enough : (front ++ back).length < turns) :
    search h.next (freeStop h block.start) turns start = some p :=
  ring.search_unique startMember placed.mem_ring placed.stops
    (fun _ inRing stops => placed.stops_only inRing stops) (by rwa [List.length_map])

omit placed in
/-- The last header in front of a block that leads to what lies behind it is put before it. -/
theorem Laid.attach_front {before : List Nat} (laid : Laid base h (front ++ block :: back ++ live))
    (last : base :: front.map Span.start = before ++ [p]) (lower : Linked h.next (before ++ [p]))
    (upper : Linked h.next (block.start :: (back.map Span.start ++ [base])))
    (gapsFront : front.Pairwise Gap) (gaps : (block :: back).Pairwise Gap)
    (below : ∀ other ∈ front, other.stop ≤ block.start) :
    ∃ free, (∀ other ∈ block :: back, ∃ larger ∈ free, other.length ≤ larger.length) ∧
      Sound base { attached h p block.start with freep := p } free live := by
  have within := laid.within (show block ∈ front ++ block :: back ++ live by simp)
  have small : block.start < 2 ^ 32 := by
    unfold stop at within
    omega
  obtain ⟨header, kept⟩ := (List.append_assoc front _ live ▸ laid).last_header last
  have keptAfter := kept _ (attached_only : OnlyHeader p h (attached h p block.start))
  have lowerKept : Linked (attached h p block.start).next (before ++ [p]) := by
    refine lower.congr ?_
    rw [List.dropLast_concat]
    exact fun q member => keptAfter q (.inl member)
  rcases List.eq_nil_or_concat' front with rfl | ⟨front, other, rfl⟩
  · obtain ⟨rfl, rfl⟩ : before = [] ∧ p = base := by
      simpa [List.singleton_eq_append_iff] using last
    -- the base has no room for a payload, so it touches no block
    have attachedEq : attached h p block.start = h.setNext p block.start := by
      rw [attached, if_neg]
      rw [laid.baseEmpty, forward, Nat.mul_zero, Nat.add_zero]
      omega
    have nextEq : (attached h p block.start).next p = block.start := by
      rw [attachedEq, next_setNext, Nat.mod_eq_of_lt small]
    have upperKept : Linked (attached h p block.start).next
        (block.start :: (back.map Span.start ++ [p])) := by
      refine upper.congr ?_
      rw [← List.cons_append, List.dropLast_concat]
      intro q member
      rw [List.map_append] at keptAfter
      exact keptAfter q (.inr (List.mem_append_left _ member))
    exact ⟨block :: back, fun other member => ⟨other, member, le_rfl⟩,
      (laid.relink header attached_only (by rw [attachedEq, size_setNext])
        attached_obtained).sound_at rfl lowerKept (linked_cons_cons.mpr ⟨nextEq, upperKept⟩) gaps⟩
  · rw [headers_append] at last
    obtain ⟨rfl, atOther⟩ := List.append_inj' last rfl
    obtain rfl : other.start = p := List.head_eq_of_cons_eq atOther
    obtain ⟨gapsFront, -, gapsOther⟩ := List.pairwise_append.mp gapsFront
    have beyond : ∀ later ∈ block :: back, other.stop ≤ later.start := by
      have first := below other (by simp)
      refine List.forall_mem_cons.mpr ⟨first, fun later member => ?_⟩
      have gap := (List.pairwise_cons.mp gaps).1 later member
      unfold Gap stop at *
      omega
    have middle : Laid base h (other :: (block :: back ++ (live ++ front))) :=
      laid_middle.mp (by simpa using laid)
    obtain ⟨merged, back', sameStart, contains, laidAfter, upperAfter, gapsAfter⟩ :=
      middle.attach small rfl upper gaps beyond
    rw [sameStart] at upperAfter
    refine ⟨front ++ merged :: back', fun later member => ?_, (laid_middle.mpr laidAfter).sound_at
      (by simp [sameStart]) lowerKept upperAfter ?_⟩
    · obtain ⟨larger, inside, longer⟩ := contains later (.tail _ member)
      exact ⟨larger, List.mem_append_right _ inside, longer⟩
    · refine List.pairwise_append.mpr ⟨gapsFront, gapsAfter, fun earlier inFront => ?_⟩
      have gap := gapsOther earlier inFront other (.head _)
      unfold Gap at gap
      rw [← sameStart] at gap
      refine List.forall_mem_cons.mpr ⟨gap, fun later inBack => ?_⟩
      have laterGap := (List.pairwise_cons.mp gapsAfter).1 later inBack
      unfold Gap stop at *
      omega

end Places

section Free

variable {base : Nat} {h : Heap} {block : Span} {free live : List Span}

theorem headerOf_payload (fits : block.start < 2 ^ 32) :
    headerOf (block.start + headerSize) = block.start := by
  unfold headerOf headerSize
  omega

/-- A block of the program is given back: the call ends after at most one turn around the
list, the block is part of a free one, and the other blocks keep their contents. -/
theorem Sound.free_block (sound : Sound base h free (block :: live)) :
    ∃ h' free', (∀ turns, free.length < turns →
        UserHeap.free turns h (block.start + headerSize) = some h') ∧
      Sound base h' free' live ∧ (∃ other ∈ free', block.length ≤ other.length) ∧
      h'.obtained = h.obtained ∧ Kept base live h h' := by
  obtain ⟨front, back, p, rfl, placed⟩ := sound.placed
  have laid := placed.laid
  have within := laid.within placed.block_mem
  obtain ⟨before, last⟩ := placed.last
  have apart : ∀ q ∈ base :: (front ++ back).map Span.start, Apart q block.start := by
    intro q member
    refine laid.apart_of_ne ?_ (List.mem_cons_of_mem _ (List.mem_map_of_mem placed.block_mem)) ?_
    · simp only [List.map_append, List.map_cons, List.mem_cons, List.mem_append] at member ⊢
      tauto
    · rw [headers_append, List.mem_append] at member
      exact member.elim (fun inside => Nat.ne_of_lt (placed.lower_lt inside))
        fun inside => Nat.ne_of_gt (placed.upper_gt inside)
  obtain ⟨rest, nodes⟩ : ∃ rest, back.map Span.start ++ [base] = h.next p :: rest := by
    have upper := placed.upper
    cases list : back.map Span.start ++ [base] with
    | nil => simp at list
    | cons q rest =>
      rw [list] at upper
      exact ⟨rest, by rw [(linked_cons_cons.mp upper).1]⟩
  have upper := placed.upper.tail
  rw [nodes] at upper
  obtain ⟨merged, back', sameStart, contains, laid₁, upper₁, gaps₁⟩ :=
    (laid_middle.mp laid).attach (next_lt ..) nodes upper placed.gapsBack placed.beyond
  have laidAfter := laid_middle.mpr laid₁
  have below := placed.below
  rw [← sameStart] at below
  have only : OnlyHeader block.start h (attached h block.start (h.next p)) := attached_only
  have lower₁ : Linked (attached h block.start (h.next p)).next (before ++ [p]) := by
    rw [← last]
    refine placed.lower.congr fun q member => only.next (apart q ?_)
    exact mem_headers back ((List.dropLast_sublist _).subset member)
  obtain ⟨free', larger, sound'⟩ := laidAfter.attach_front last lower₁ upper₁
    placed.gapsFront gaps₁ below
  rw [sameStart] at sound'
  refine ⟨_, free', fun turns enough => ?_, sound', ?_, ?_, ?_⟩
  · rw [UserHeap.free, if_neg (by unfold headerSize; omega), headerOf_payload
      (by unfold stop at within; omega)]
    dsimp only
    rw [placed.search sound.ring sound.current enough]
    dsimp only
    rw [joinUpper_eq (apart p placed.mem_ring) (apart _ (sound.ring.next_mem placed.mem_ring)),
      joinLower_eq (apart p placed.mem_ring).symm]
  · obtain ⟨first, member, atLeast⟩ := contains block (.head _)
    obtain ⟨other, inside, longer⟩ := larger first member
    exact ⟨other, inside, atLeast.trans longer⟩
  · rw [attached_obtained, attached_obtained]
  · have upperKept : Kept base live h (attached h block.start (h.next p)) :=
      laid.kept_header (by simp) only (by simp)
    have lowerKept : Kept base live _ (attached _ p block.start) :=
      laidAfter.kept_header (by rw [headers_append, last]; simp) attached_only
        (by simp)
    exact (upperKept.trans lowerKept (by simp)).at_freep

end Free

end MiniOS.UserHeap
