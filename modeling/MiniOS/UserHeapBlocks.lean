import MiniOS.UserHeap

/-!
# Headers and blocks

The blocks of the allocator tile the memory that the kernel has handed out, and each one
starts with a header that holds its size.  Headers do not overlap, so a write to one of them
leaves the others as they are.
-/

namespace MiniOS.UserHeap

open ByteMemory LinkedRing MiniOS.Span

def Apart (p q : Nat) : Prop := p + 8 ≤ q ∨ q + 8 ≤ p

/-- The heaps differ at most in the header at `p`. -/
def OnlyHeader (p : Nat) (h h' : Heap) : Prop :=
  ∀ address, address < p ∨ p + 8 ≤ address → h'.mem address = h.mem address

section Headers

variable {h h' h'' : Heap} {p q value : Nat}

theorem Apart.symm (apart : Apart p q) : Apart q p := Or.symm apart

instance : Std.Symm Apart := ⟨fun _ _ => Apart.symm⟩

theorem OnlyHeader.next (only : OnlyHeader p h h') (apart : Apart q p) : h'.next q = h.next q :=
  load32_congr fun place _ => only _ (by unfold Apart at apart; omega)

theorem OnlyHeader.size (only : OnlyHeader p h h') (apart : Apart q p) : h'.size q = h.size q :=
  load32_congr fun place _ => only _ (by unfold Apart at apart; omega)

theorem OnlyHeader.trans (only : OnlyHeader p h h') (then_ : OnlyHeader p h' h'') :
    OnlyHeader p h h'' :=
  fun address outside => (then_ address outside).trans (only address outside)

theorem setNext_only : OnlyHeader p h (h.setNext p value) :=
  fun _ _ => store32_outside (by omega)

theorem setSize_only : OnlyHeader p h (h.setSize p value) :=
  fun _ _ => store32_outside (by omega)

theorem next_lt (h : Heap) (p : Nat) : h.next p < 2 ^ 32 := load32_lt _ _

@[simp]
theorem next_setNext : (h.setNext p value).next p = value % 2 ^ 32 := load32_store32 ..

@[simp]
theorem size_setSize : (h.setSize p value).size p = value % 2 ^ 32 := load32_store32 ..

@[simp]
theorem size_setNext : (h.setNext p value).size p = h.size p :=
  load32_store32_outside (by omega)

@[simp]
theorem next_setSize : (h.setSize p value).next p = h.next p :=
  load32_store32_outside (by omega)

end Headers

/-- The size in the header is the length of the block. -/
structure Headed (h : Heap) (block : Span) : Prop where
  nonempty : 0 < block.length
  sized : 8 * h.size block.start = block.length

/-- The blocks are the memory that the kernel has handed out, and the header of each one
holds its size. -/
structure Laid (base : Nat) (h : Heap) (blocks : List Span) : Prop where
  baseEmpty : h.size base = 0
  headed : ∀ block ∈ blocks, Headed h block
  tiled : ∀ address, cover blocks address = cover h.obtained address
  once : ∀ address, cover h.obtained address ≤ 1
  above : ∀ block ∈ h.obtained, base + 8 ≤ block.start ∧ block.stop < 2 ^ 32

/-- What a call leaves alone: every block that stays with the program, and all memory that
is not the allocator's. -/
def Kept (base : Nat) (live : List Span) (h h' : Heap) : Prop :=
  ∀ address, address < base ∨ base + 8 ≤ address →
    (∃ block ∈ live, block.Covers address) ∨ (∀ block ∈ h'.obtained, ¬ block.Covers address) →
      h'.mem address = h.mem address

section Blocks

variable {base p : Nat} {h h' h'' : Heap} {block other : Span} {blocks others live : List Span}

theorem Headed.eight_le (headed : Headed h block) : 8 ≤ block.length := by
  have nonempty := headed.nonempty
  have sized := headed.sized
  omega

theorem headers_append {front back : List Span} : base :: (front ++ back).map Span.start =
    base :: front.map Span.start ++ back.map Span.start := by
  rw [List.map_append, List.cons_append]

theorem mem_headers (back : List Span) (member : p ∈ base :: blocks.map Span.start) :
    p ∈ base :: (blocks ++ back).map Span.start :=
  headers_append ▸ List.mem_append_left _ member

variable (laid : Laid base h blocks)

include laid

theorem Laid.perm (perm : blocks.Perm others) : Laid base h others where
  baseEmpty := laid.baseEmpty
  headed other member := laid.headed other (perm.mem_iff.mpr member)
  tiled address := by
    rw [← laid.tiled]
    exact (perm.countP_eq _).symm
  once := laid.once
  above := laid.above

theorem Laid.at_freep : Laid base { h with freep := p } blocks where
  baseEmpty := laid.baseEmpty
  headed block member := ⟨(laid.headed block member).nonempty, (laid.headed block member).sized⟩
  tiled := laid.tiled
  once := laid.once
  above := laid.above

theorem Laid.separate : blocks.Pairwise Separate :=
  pairwise_separate (fun address => laid.tiled address ▸ laid.once address)
    fun block member => (laid.headed block member).nonempty

variable {address : Nat}

/-- An address in a block has been handed out by the kernel. -/
theorem Laid.obtained (member : block ∈ blocks) (covers : block.Covers address) :
    ∃ arena ∈ h.obtained, arena.Covers address := by
  apply cover_pos.mp
  rw [← laid.tiled]
  exact cover_pos.mpr ⟨block, member, covers⟩

theorem Laid.ends (member : block ∈ blocks) : ∃ arena ∈ h.obtained, block.stop ≤ arena.stop := by
  have nonempty := (laid.headed block member).nonempty
  have coversLast : block.Covers (block.stop - 1) := by
    unfold Covers stop
    omega
  obtain ⟨arena, inArenas, inArena⟩ := laid.obtained member coversLast
  refine ⟨arena, inArenas, ?_⟩
  unfold Covers at inArena
  omega

theorem Laid.within (member : block ∈ blocks) : base + 8 ≤ block.start ∧ block.stop < 2 ^ 32 := by
  have coversFirst : block.Covers block.start :=
    ⟨le_rfl, Nat.lt_add_of_pos_right (laid.headed block member).nonempty⟩
  obtain ⟨first, firstMember, inFirst⟩ := laid.obtained member coversFirst
  obtain ⟨last, lastMember, ends⟩ := laid.ends member
  exact ⟨(laid.above first firstMember).1.trans inFirst.1,
    ends.trans_lt (laid.above last lastMember).2⟩

/-- The headers of the blocks and of `umalloc_base` do not overlap. -/
theorem Laid.apart : (base :: blocks.map Span.start).Pairwise Apart := by
  refine List.pairwise_cons.mpr ⟨?_, List.pairwise_map.mpr ?_⟩
  · intro q member
    obtain ⟨block, inBlocks, rfl⟩ := List.mem_map.mp member
    exact .inl (laid.within inBlocks).1
  · refine laid.separate.imp_of_mem fun {block other} member otherMember separate => ?_
    have long := (laid.headed block member).eight_le
    have otherLong := (laid.headed other otherMember).eight_le
    unfold Separate stop at separate
    unfold Apart
    omega

theorem Laid.apart_of_ne {p q : Nat} (member : p ∈ base :: blocks.map Span.start)
    (otherMember : q ∈ base :: blocks.map Span.start)
    (differ : p ≠ q) : Apart p q :=
  laid.apart.forall member otherMember differ

theorem Laid.nodup : (base :: blocks.map Span.start).Nodup :=
  laid.apart.imp fun {p q} apart same => by
    unfold Apart at apart
    omega

theorem Laid.relink (member : p ∈ base :: blocks.map Span.start)
    (only : OnlyHeader p h h') (sameSize : h'.size p = h.size p)
    (sameObtained : h'.obtained = h.obtained) : Laid base h' blocks := by
  have sizes : ∀ q ∈ base :: blocks.map Span.start, h'.size q = h.size q := by
    intro q inHeaders
    by_cases same : q = p
    · rw [same, sameSize]
    · exact only.size (laid.apart_of_ne inHeaders member same)
  exact
    { baseEmpty := (sizes base (.head _)).trans laid.baseEmpty
      headed := fun block inBlocks =>
        { nonempty := (laid.headed block inBlocks).nonempty
          sized := by
            rw [sizes block.start (.tail _ (List.mem_map_of_mem inBlocks))]
            exact (laid.headed block inBlocks).sized }
      tiled := fun address => by rw [sameObtained, laid.tiled]
      once := fun address => sameObtained ▸ laid.once address
      above := fun arena inArenas => laid.above arena (sameObtained ▸ inArenas) }

omit laid

theorem Laid.join (laid : Laid base h (block :: other :: blocks)) (touches : block.stop = other.start)
    (only : OnlyHeader block.start h h')
    (sum : h'.size block.start = h.size block.start + h.size other.start)
    (sameObtained : h'.obtained = h.obtained) :
    Laid base h' (⟨block.start, block.length + other.length⟩ :: blocks) := by
  have blockHeaded := laid.headed block (.head _)
  have otherHeaded := laid.headed other (.tail _ (.head _))
  have apart := laid.apart
  simp only [List.map_cons, List.pairwise_cons, List.forall_mem_cons] at apart
  obtain ⟨⟨baseApart, -⟩, ⟨-, blockApart⟩, -⟩ := apart
  exact
    { baseEmpty := (only.size baseApart).trans laid.baseEmpty
      headed := by
        intro later member
        rcases List.mem_cons.mp member with rfl | member
        · refine ⟨Nat.add_pos_left blockHeaded.nonempty _, ?_⟩
          dsimp only
          rw [sum, ← blockHeaded.sized, ← otherHeaded.sized, Nat.mul_add]
        · have headed := laid.headed later (.tail _ (.tail _ member))
          refine ⟨headed.nonempty, ?_⟩
          rw [only.size (blockApart _ (List.mem_map_of_mem member)).symm, headed.sized]
      tiled := fun address => by
        have covered := laid.tiled address
        have joined : (if block.Covers address then 1 else 0) +
            (if other.Covers address then 1 else 0) =
              if Covers ⟨block.start, block.length + other.length⟩ address then 1 else 0 := by
          obtain ⟨start, length⟩ := other
          obtain rfl : block.stop = start := touches
          exact cover_join
        simp only [cover_cons] at covered ⊢
        rw [sameObtained, ← covered, ← joined, Nat.add_assoc]
      once := fun address => sameObtained ▸ laid.once address
      above := fun arena inArenas => laid.above arena (sameObtained ▸ inArenas) }

theorem Kept.trans (kept : Kept base live h h') (then_ : Kept base live h' h'')
    (more : h'.obtained ⊆ h''.obtained) : Kept base live h h'' := by
  intro address outside spared
  rw [then_ address outside spared]
  exact kept address outside (spared.imp_right fun free arena member => free arena (more member))

theorem Kept.at_freep (kept : Kept base live h h') : Kept base live h { h' with freep := p } :=
  fun address outside spared => kept address outside spared

variable {free : List Span}

/-- Writes that hit nothing but `umalloc_base` and free blocks. -/
theorem Laid.kept (laid : Laid base h (free ++ live))
    (only : ∀ address, address < base ∨ base + 8 ≤ address →
      (∀ block ∈ free, ¬ block.Covers address) → h'.mem address = h.mem address)
    (more : h.obtained ⊆ h'.obtained) : Kept base live h h' := by
  intro address outside spared
  refine only address outside fun block member covers => ?_
  rcases spared with ⟨other, inLive, otherCovers⟩ | unclaimed
  · have separate := (List.pairwise_append.mp laid.separate).2.2 block member other inLive
    unfold Separate at separate
    unfold Covers at covers otherCovers
    omega
  · obtain ⟨arena, inArenas, inArena⟩ := laid.obtained (List.mem_append_left _ member) covers
    exact unclaimed arena (more inArenas) inArena

theorem Headed.covers_header (headed : Headed h block) (lower : block.start ≤ address)
    (upper : address < block.start + 8) : block.Covers address := by
  have long := headed.eight_le
  unfold Covers stop
  omega

theorem Laid.kept_header (laid : Laid base h (free ++ live))
    (member : p ∈ base :: free.map Span.start) (only : OnlyHeader p h h')
    (more : h.obtained ⊆ h'.obtained) : Kept base live h h' := by
  refine laid.kept (fun address outside uncovered => only address ?_) more
  rcases List.mem_cons.mp member with rfl | inFree
  · exact outside
  · obtain ⟨block, inBlocks, rfl⟩ := List.mem_map.mp inFree
    by_contra inHeader
    exact uncovered block inBlocks
      ((laid.headed block (List.mem_append_left _ inBlocks)).covers_header (by omega) (by omega))

end Blocks

end MiniOS.UserHeap
