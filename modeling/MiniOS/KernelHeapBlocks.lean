import MiniOS.KernelHeap

/-!
# Block lists of the kernel heap

How insertion, merging and splitting rearrange the block list.  All of them keep
the blocks apart and in order, and none of them changes which bytes the blocks
cover apart from a region that is inserted.
-/

namespace MiniOS.KernelHeap

namespace HeapBlock

def stop (block : HeapBlock) : Nat := block.addr + heapBlockHeader + block.size

def header (block : HeapBlock) : Set Nat := Set.Ico block.addr (block.addr + heapBlockHeader)

def payload (block : HeapBlock) : Set Nat := Set.Ico (block.addr + heapBlockHeader) block.stop

theorem addr_lt_stop (block : HeapBlock) : block.addr < block.stop := by
  unfold stop heapBlockHeader
  omega

def Before (first second : HeapBlock) : Prop := first.stop ≤ second.addr

variable {first second block : HeapBlock} {rest blocks : List HeapBlock}

theorem Before.trans {third : HeapBlock} (early : Before first second)
    (late : Before second third) : Before first third := by
  have := second.addr_lt_stop
  unfold Before at *
  omega

/-- Two neighbours in the list that `merge_free_blocks` leaves alone. -/
def Unmergeable (first second : HeapBlock) : Prop :=
  (first.isFree && second.isFree && blocksAreAdjacent first second) = false

theorem adjacent_iff : blocksAreAdjacent first second = true ↔ first.stop = second.addr := by
  simp [blocksAreAdjacent, stop]

end HeapBlock

open HeapBlock

def Covers (blocks : List HeapBlock) (byte : Nat) : Prop :=
  ∃ block ∈ blocks, block.addr ≤ byte ∧ byte < block.stop

def totalBytes (blocks : List HeapBlock) : Nat :=
  (blocks.map fun block => heapBlockHeader + block.size).sum

/-- The blocks are apart, in order, and of aligned sizes. -/
structure Arranged (blocks : List HeapBlock) : Prop where
  ordered : blocks.Pairwise Before
  aligned : ∀ block ∈ blocks, block.size % heapAlignment = 0

/-- A change of the block list that moves boundaries between free blocks only. -/
structure Rearranges (blocks blocks' : List HeapBlock) : Prop where
  arranged : Arranged blocks'
  covers : ∀ byte, Covers blocks' byte ↔ Covers blocks byte
  total : totalBytes blocks' = totalBytes blocks

theorem not_covers_nil (byte : Nat) : ¬ Covers [] byte := by
  simp [Covers]

variable {byte : Nat}

theorem covers_cons :
    Covers (block :: rest) byte ↔ (block.addr ≤ byte ∧ byte < block.stop) ∨ Covers rest byte := by
  simp [Covers]

theorem covers_append {first second : List HeapBlock} :
    Covers (first ++ second) byte ↔ Covers first byte ∨ Covers second byte := by
  simp only [Covers, List.mem_append, or_and_right, exists_or]

theorem totalBytes_append (first second : List HeapBlock) :
    totalBytes (first ++ second) = totalBytes first + totalBytes second := by
  simp [totalBytes]

/-- Two blocks of an arranged list share no byte. -/
theorem Arranged.apart (arranged : Arranged blocks) (firstMember : first ∈ blocks)
    (secondMember : second ∈ blocks)
    (different : first ≠ second) : Before first second ∨ Before second first := by
  have symmetric : Std.Symm fun a b : HeapBlock => Before a b ∨ Before b a := ⟨fun _ _ => Or.symm⟩
  have apart : blocks.Pairwise fun a b => Before a b ∨ Before b a := arranged.ordered.imp Or.inl
  exact apart.forall firstMember secondMember different

/-- Two blocks at one address are one block. -/
theorem Arranged.eq_of_addr (arranged : Arranged blocks) (firstMember : first ∈ blocks)
    (secondMember : second ∈ blocks) (sameAddr : first.addr = second.addr) : first = second := by
  by_contra different
  have firstBelow := first.addr_lt_stop
  have secondBelow := second.addr_lt_stop
  rcases arranged.apart firstMember secondMember different with before | after
  · unfold Before at before
    omega
  · unfold Before at after
    omega

section Merging

variable {current : HeapBlock}

/-- The block that `merge_free_blocks` stands at keeps its address and state. -/
theorem mergeFrom_eq_cons (current : HeapBlock) (rest : List HeapBlock) :
    ∃ head tail, mergeFrom current rest = head :: tail ∧ head.addr = current.addr ∧
      head.isFree = current.isFree := by
  fun_induction mergeFrom current rest with
  | case1 current => exact ⟨current, [], rfl, rfl, rfl⟩
  | case2 current next rest mergeable ih => exact ih
  | case3 current next rest unmergeable ih => exact ⟨current, _, rfl, rfl, rfl⟩

private theorem stop_of_mergeable {current next : HeapBlock}
    (mergeable : (current.isFree && next.isFree && blocksAreAdjacent current next) = true) :
    ({ current with size := current.size + (heapBlockHeader + next.size) } : HeapBlock).stop =
      next.stop ∧ current.stop = next.addr := by
  simp only [Bool.and_eq_true, adjacent_iff] at mergeable
  have adjacent := mergeable.2
  simp only [stop] at adjacent ⊢
  omega

theorem Rearranges.trans {blocks' blocks'' : List HeapBlock} (first : Rearranges blocks blocks')
    (second : Rearranges blocks' blocks'') : Rearranges blocks blocks'' :=
  ⟨second.arranged, fun byte => (second.covers byte).trans (first.covers byte),
    second.total.trans first.total⟩

/-- A change behind a block. -/
theorem Rearranges.cons {rest' : List HeapBlock} (arranged : Arranged (block :: rest))
    (change : Rearranges rest rest') : Rearranges (block :: rest) (block :: rest') where
  arranged := by
    refine ⟨List.pairwise_cons.mpr ⟨fun other member => ?_, change.arranged.ordered⟩,
      List.forall_mem_cons.mpr ⟨arranged.aligned block (by simp), change.arranged.aligned⟩⟩
    -- the first byte of the other block was covered before
    obtain ⟨old, oldMember, inside⟩ :=
      (change.covers other.addr).mp ⟨other, member, le_rfl, other.addr_lt_stop⟩
    exact le_trans ((List.pairwise_cons.mp arranged.ordered).1 old oldMember) inside.1
  covers byte := by rw [covers_cons, covers_cons, change.covers]
  total := by
    have total := change.total
    simp only [totalBytes, List.map_cons, List.sum_cons] at total ⊢
    omega

theorem Arranged.tail (arranged : Arranged (block :: rest)) : Arranged rest :=
  ⟨arranged.ordered.tail, fun other member => arranged.aligned other (.tail _ member)⟩

theorem Arranged.merge {next : HeapBlock} (arranged : Arranged (current :: next :: rest))
    (mergeable : (current.isFree && next.isFree && blocksAreAdjacent current next) = true) :
    Rearranges (current :: next :: rest)
      ({ current with size := current.size + (heapBlockHeader + next.size) } :: rest) where
  arranged := by
    refine ⟨List.pairwise_cons.mpr ⟨fun block member => ?_, arranged.tail.ordered.tail⟩,
      List.forall_mem_cons.mpr ⟨?_, arranged.tail.tail.aligned⟩⟩
    · unfold Before
      rw [(stop_of_mergeable mergeable).1]
      exact (List.pairwise_cons.mp arranged.tail.ordered).1 block member
    · have currentAligned := arranged.aligned current (by simp)
      have nextAligned := arranged.aligned next (by simp)
      simp only [heapAlignment, heapBlockHeader] at *
      omega
  covers byte := by
    obtain ⟨sameStop, adjacent⟩ := stop_of_mergeable mergeable
    have currentBelow := current.addr_lt_stop
    have nextBelow := next.addr_lt_stop
    rw [covers_cons, covers_cons, covers_cons, sameStop, ← or_assoc]
    refine or_congr ?_ Iff.rfl
    dsimp only
    omega
  total := by
    simp only [totalBytes, List.map_cons, List.sum_cons]
    omega

theorem mergeFrom_rearranges (arranged : Arranged (current :: rest)) :
    Rearranges (current :: rest) (mergeFrom current rest) := by
  fun_induction mergeFrom current rest with
  | case1 current => exact ⟨arranged, fun _ => Iff.rfl, rfl⟩
  | case2 current next rest mergeable ih =>
    have merged := arranged.merge mergeable
    exact merged.trans (ih merged.arranged)
  | case3 current next rest unmergeable ih => exact (ih arranged.tail).cons arranged

theorem mem_mergeFrom_of_used (used : block.isFree = false) :
    block ∈ mergeFrom current rest ↔ block ∈ current :: rest := by
  fun_induction mergeFrom current rest with
  | case1 current => rfl
  | case2 current next rest mergeable ih =>
    simp only [Bool.and_eq_true] at mergeable
    have notCurrent : block ≠ current := by
      rintro rfl
      simp [used] at mergeable
    have notNext : block ≠ next := by
      rintro rfl
      simp [used] at mergeable
    have notMerged : block ≠
        { current with size := current.size + (heapBlockHeader + next.size) } := by
      rintro rfl
      simp [mergeable.1.1] at used
    rw [ih, List.mem_cons, List.mem_cons, List.mem_cons]
    simp only [notCurrent, notNext, notMerged, false_or]
  | case3 current next rest unmergeable ih => rw [List.mem_cons, ih, ← List.mem_cons]

theorem mergeFrom_settled (current : HeapBlock) (rest : List HeapBlock) :
    (mergeFrom current rest).IsChain Unmergeable := by
  fun_induction mergeFrom current rest with
  | case1 current => exact List.isChain_singleton current
  | case2 current next rest mergeable ih => exact ih
  | case3 current next rest unmergeable ih =>
    obtain ⟨head, tail, result, sameAddr, sameState⟩ := mergeFrom_eq_cons next rest
    rw [result] at ih ⊢
    refine List.isChain_cons_cons.mpr ⟨?_, ih⟩
    simp only [Bool.not_eq_true] at unmergeable
    rw [Unmergeable, blocksAreAdjacent, sameAddr, sameState]
    exact unmergeable

theorem mergeFreeBlocks_rearranges (arranged : Arranged blocks) :
    Rearranges blocks (mergeFreeBlocks blocks) := by
  cases blocks with
  | nil => exact ⟨arranged, fun _ => Iff.rfl, rfl⟩
  | cons head rest => exact mergeFrom_rearranges arranged

theorem mergeFreeBlocks_settled (blocks : List HeapBlock) :
    (mergeFreeBlocks blocks).IsChain Unmergeable := by
  cases blocks with
  | nil => exact List.isChain_nil
  | cons head rest => exact mergeFrom_settled head rest

theorem mem_mergeFreeBlocks_of_used (used : block.isFree = false) :
    block ∈ mergeFreeBlocks blocks ↔ block ∈ blocks := by
  cases blocks with
  | nil => rfl
  | cons head rest => exact mem_mergeFrom_of_used used

end Merging

section Insertion

theorem insertBlock_perm (block : HeapBlock) (blocks : List HeapBlock) :
    (insertBlock block blocks).Perm (block :: blocks) := by
  fun_induction insertBlock block blocks with
  | case1 => exact List.Perm.refl _
  | case2 head rest below => exact List.Perm.refl _
  | case3 head rest above ih => exact (ih.cons head).trans (List.Perm.swap _ _ _)

theorem insertBlock_ordered (ordered : blocks.Pairwise Before)
    (apart : ∀ other ∈ blocks, Before block other ∨ Before other block) :
    (insertBlock block blocks).Pairwise Before := by
  fun_induction insertBlock block blocks with
  | case1 => exact List.pairwise_singleton _ _
  | case2 head rest below =>
    have headOrdered := List.pairwise_cons.mp ordered
    have first : Before block head := by
      rcases apart head (by simp) with before | after
      · exact before
      · have := head.addr_lt_stop
        unfold Before at after
        omega
    refine List.pairwise_cons.mpr ⟨fun other member => ?_, ordered⟩
    rcases List.mem_cons.mp member with rfl | inRest
    · exact first
    · exact first.trans (headOrdered.1 other inRest)
  | case3 head rest above ih =>
    have headOrdered := List.pairwise_cons.mp ordered
    have last : Before head block := by
      rcases apart head (by simp) with before | after
      · have := block.addr_lt_stop
        unfold Before at before
        omega
      · exact after
    refine List.pairwise_cons.mpr ⟨fun other member => ?_, ih headOrdered.2
      fun other member => apart other (List.mem_cons_of_mem head member)⟩
    rcases List.mem_cons.mp ((insertBlock_perm block rest).mem_iff.mp member) with rfl | inRest
    · exact last
    · exact headOrdered.1 other inRest

end Insertion

section Splitting

/-- The blocks `pieces` lie where `block` was. -/
structure Fills (block : HeapBlock) (pieces : List HeapBlock) : Prop where
  arranged : Arranged pieces
  inside : ∀ piece ∈ pieces, block.addr ≤ piece.addr ∧ piece.stop ≤ block.stop
  covers : ∀ byte, Covers pieces byte ↔ block.addr ≤ byte ∧ byte < block.stop
  total : totalBytes pieces = heapBlockHeader + block.size

variable {before after : List HeapBlock}

/-- Replacing one block by blocks that fill its place. -/
theorem Arranged.replace {pieces : List HeapBlock}
    (arranged : Arranged (before ++ block :: after)) (fills : Fills block pieces) :
    Rearranges (before ++ block :: after) (before ++ (pieces ++ after)) where
  arranged := by
    obtain ⟨early, late, across⟩ := List.pairwise_append.mp arranged.ordered
    obtain ⟨behind, tail⟩ := List.pairwise_cons.mp late
    refine ⟨List.pairwise_append.mpr ⟨early, List.pairwise_append.mpr
      ⟨fills.arranged.ordered, tail, ?_⟩, ?_⟩, ?_⟩
    · intro piece pieceMember other otherMember
      exact (fills.inside piece pieceMember).2.trans (behind other otherMember)
    · intro first firstMember second secondMember
      rcases List.mem_append.mp secondMember with inPieces | inAfter
      · exact le_trans (across first firstMember block (by simp)) (fills.inside second inPieces).1
      · exact across first firstMember second (by simp [inAfter])
    · intro other member
      simp only [List.mem_append] at member
      rcases member with inBefore | inPieces | inAfter
      · exact arranged.aligned other (by simp [inBefore])
      · exact fills.arranged.aligned other inPieces
      · exact arranged.aligned other (by simp [inAfter])
  covers := by
    intro byte
    rw [covers_append, covers_append, fills.covers, covers_append, covers_cons]
  total := by
    rw [totalBytes_append, totalBytes_append, fills.total, totalBytes_append]
    simp [totalBytes]

/-- The used block that `kmalloc` makes of a free block, and the free block
that a split leaves behind it. -/
structure Carves (size : Nat) (block taken : HeapBlock) (leftover : List HeapBlock) : Prop where
  wasFree : block.isFree = true
  used : taken.isFree = false
  sameAddr : taken.addr = block.addr
  largeEnough : size ≤ taken.size
  leftover : (leftover = [] ∧ taken.size = block.size) ∨
    ∃ remaining : HeapBlock, leftover = [remaining] ∧ taken.size = size ∧
      remaining.isFree = true ∧ remaining.addr = taken.stop ∧ remaining.stop = block.stop

variable {size : Nat}

variable {taken : HeapBlock} {leftover : List HeapBlock}

theorem Carves.fills (carves : Carves size block taken leftover)
    (sizeAligned : size % heapAlignment = 0)
    (blockAligned : block.size % heapAlignment = 0) : Fills block (taken :: leftover) := by
  have sameAddr := carves.sameAddr
  have takenBelow := taken.addr_lt_stop
  rcases carves.leftover with ⟨rfl, sameSize⟩ |
    ⟨remaining, rfl, exactSize, -, adjacent, sameStop⟩
  · have sameStop : taken.stop = block.stop := by simp only [stop, sameAddr, sameSize]
    exact {
      arranged := ⟨List.pairwise_singleton _ _, by simpa [sameSize] using blockAligned⟩
      inside := by simp [sameAddr, sameStop]
      covers := by simp [Covers, sameAddr, sameStop]
      total := by simp [totalBytes, sameSize] }
  · have remainingBelow := remaining.addr_lt_stop
    have remainingSize : remaining.size + heapBlockHeader + size = block.size := by
      simp only [stop] at adjacent sameStop
      omega
    exact {
      arranged := by
        refine ⟨by simp [Before, adjacent], fun piece member => ?_⟩
        simp only [List.mem_cons, List.not_mem_nil, or_false] at member
        rcases member with rfl | rfl
        · rw [exactSize, sizeAligned]
        · simp only [heapAlignment, heapBlockHeader] at *
          omega
      inside := by
        intro piece member
        simp only [List.mem_cons, List.not_mem_nil, or_false] at member
        rcases member with rfl | rfl
        · omega
        · omega
      covers := by
        intro byte
        simp only [covers_cons, not_covers_nil, or_false]
        omega
      total := by
        simp only [totalBytes, List.map_cons, List.map_nil, List.sum_cons, List.sum_nil]
        omega }

/-- Carving a free block leaves no two neighbours to merge. -/
theorem Carves.settled (carves : Carves size block taken leftover)
    (settled : (before ++ block :: after).IsChain Unmergeable) :
    (before ++ (taken :: (leftover ++ after))).IsChain Unmergeable := by
  obtain ⟨early, late, -⟩ := List.isChain_append.mp settled
  have afterSettled := late.tail
  refine List.isChain_append.mpr ⟨early, ?_, ?_⟩
  · have usedFirst : ∀ other, Unmergeable taken other := by
      intro other
      simp [Unmergeable, carves.used]
    rcases carves.leftover with ⟨rfl, -⟩ | ⟨remaining, rfl, -, isFree, -, sameStop⟩
    · exact List.isChain_cons.mpr ⟨fun other _ => usedFirst other, afterSettled⟩
    · refine List.isChain_cons.mpr ⟨fun other _ => usedFirst other,
        List.isChain_cons.mpr ⟨fun other isHead => ?_, afterSettled⟩⟩
      have unmergeable := (List.isChain_cons.mp late).1 other isHead
      simp only [Unmergeable, carves.wasFree, isFree, Bool.true_and] at unmergeable ⊢
      rw [← unmergeable, blocksAreAdjacent, blocksAreAdjacent]
      simp only [stop] at sameStop
      rw [sameStop]
  · intro last _ first isHead
    simp only [List.head?_cons, Option.mem_def, Option.some.injEq] at isHead
    subst isHead
    simp [Unmergeable, carves.used]

theorem takeFirstFit_carves {payload : Nat} {blocks' : List HeapBlock}
    (found : takeFirstFit size blocks = some (payload, blocks')) :
    ∃ before block after taken leftover, blocks = before ++ block :: after ∧
      blocks' = before ++ (taken :: (leftover ++ after)) ∧
      payload = taken.addr + heapBlockHeader ∧ Carves size block taken leftover := by
  induction blocks generalizing blocks' with
  | nil => simp [takeFirstFit] at found
  | cons block rest ih =>
    rw [takeFirstFit] at found
    by_cases fits : (block.isFree && decide (size ≤ block.size)) = true
    · rw [if_pos fits] at found
      simp only [Bool.and_eq_true, decide_eq_true_eq] at fits
      by_cases splits : size + heapBlockHeader + 4 < block.size
      · rw [if_pos splits, Option.some.injEq, Prod.mk.injEq] at found
        obtain ⟨rfl, rfl⟩ := found
        refine ⟨[], block, rest, { block with size := size, isFree := false }, [_], rfl, rfl,
          rfl, fits.1, rfl, rfl, le_rfl, Or.inr ⟨_, rfl, rfl, rfl, rfl, ?_⟩⟩
        simp only [stop]
        omega
      · rw [if_neg splits, Option.some.injEq, Prod.mk.injEq] at found
        obtain ⟨rfl, rfl⟩ := found
        exact ⟨[], block, rest, { block with isFree := false }, [], rfl, rfl, rfl, fits.1, rfl,
          rfl, fits.2, Or.inl ⟨rfl, rfl⟩⟩
    · rw [if_neg fits] at found
      cases later : takeFirstFit size rest with
      | none => simp [later] at found
      | some result =>
        simp only [later, Option.some.injEq, Prod.mk.injEq] at found
        obtain ⟨rfl, rfl⟩ := found
        obtain ⟨before, chosen, after, taken, leftover, restEq, resultEq, facts⟩ := ih later
        exact ⟨block :: before, chosen, after, taken, leftover, by simp [restEq],
          by simp [resultEq], facts⟩

end Splitting

end MiniOS.KernelHeap
