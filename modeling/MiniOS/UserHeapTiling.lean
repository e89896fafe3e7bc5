import MiniOS.UserHeapRun

/-!
# The free list of a program

What the invariant of the allocator says about the memory itself: the list that starts at
`umalloc_freep`, and the blocks whose headers it and the payloads of the program lead to.
-/

namespace MiniOS.UserHeap

open ByteMemory LinkedRing MiniOS.Span

def blockAt (h : Heap) (p : Nat) : Span := ⟨p, headerSize * h.size p⟩

/-- The nodes of the list from `umalloc_freep` on: one cycle through `umalloc_base` whose
links ascend but for one, free blocks that do not touch, and which tile the memory of the
kernel together with the blocks of the program. -/
structure FreeList (base : Nat) (s : System) (others : List Nat) : Prop where
  cycle : Ring s.heap.next s.heap.freep others
  distinct : (s.heap.freep :: others).Nodup
  base_mem : base ∈ s.heap.freep :: others
  oneDescent : (s.heap.freep :: others).countP (fun p => s.heap.next p ≤ p) = 1
  apart : ∀ p ∈ (s.heap.freep :: others).erase base, ∀ q ∈ (s.heap.freep :: others).erase base,
    (blockAt s.heap p).stop ≠ q
  tiles : ∀ address,
    cover (((s.heap.freep :: others).erase base ++ s.live.map headerOf).map (blockAt s.heap)) address =
      if ∃ arena ∈ s.heap.obtained, arena.Covers address then 1 else 0

/-- The calls of `malloc` and `free`, and the writes of the program. -/
def Op.Plain : Op → Prop
  | .malloc _ _ => True
  | .free _ => True
  | .write _ _ => True
  | _ => False

theorem Op.Plain.writesFit {op : Op} (plain : op.Plain) : op.WritesFit := by
  cases op with
  | malloc | free | write => trivial
  | calloc | realloc => exact plain.elim

section Lists

variable {base : Nat} {h : Heap} {s : System} {block : Span} {free live : List Span}

theorem Headed.blockAt_start (headed : Headed h block) : blockAt h block.start = block := by
  rw [blockAt, headerSize, headed.sized]

theorem Sound.stop_ne_start (sound : Sound base h free live) {other : Span} (member : block ∈ free)
    (otherMember : other ∈ free) : block.stop ≠ other.start := by
  have nonempty := (sound.laid.headed block (List.mem_append_left _ member)).nonempty
  by_cases same : block = other
  · rw [same] at nonempty ⊢
    unfold stop
    omega
  · have both : free.Pairwise fun block other =>
        block.stop < other.start ∨ other.stop < block.start := sound.gaps.imp fun gap => .inl gap
    have : Std.Symm fun block other : Span =>
        block.stop < other.start ∨ other.stop < block.start := ⟨fun _ _ => Or.symm⟩
    have gap := both.forall member otherMember same
    unfold stop at *
    omega

theorem Sound.freeList (sound : Sound base s.heap free live) (perm : s.live.Perm (live.map payload)) :
    ∃ others, FreeList base s others := by
  obtain ⟨others, ring, nodes, distinct⟩ := sound.from_freep
  have freeNodes : ((s.heap.freep :: others).erase base).Perm (free.map Span.start) := by
    have erased := nodes.erase base
    rwa [List.erase_cons_head] at erased
  have headed : ∀ block ∈ free ++ live, blockAt s.heap block.start = block := fun block member =>
    (sound.laid.headed block member).blockAt_start
  have liveHeaders : (s.live.map headerOf).Perm (live.map Span.start) := by
    refine (perm.map headerOf).trans (.of_eq ?_)
    rw [List.map_map]
    refine List.map_congr_left fun block member => headerOf_payload ?_
    have within := sound.laid.within (List.mem_append_right free member)
    unfold stop at within
    omega
  refine ⟨others, ring, distinct, nodes.mem_iff.mpr (.head _), ?_, ?_, ?_⟩
  · rw [nodes.countP_eq]
    exact sound.ring.countP_descents
      (sound.laid.ascending (List.subset_append_left _ _) sound.gaps)
  · intro p inFree q alsoFree
    obtain ⟨block, member, rfl⟩ := List.mem_map.mp (freeNodes.mem_iff.mp inFree)
    obtain ⟨other, otherMember, rfl⟩ := List.mem_map.mp (freeNodes.mem_iff.mp alsoFree)
    rw [headed block (List.mem_append_left _ member)]
    exact sound.stop_ne_start member otherMember
  · intro address
    have blocks : (((s.heap.freep :: others).erase base ++ s.live.map headerOf).map
        (blockAt s.heap)).Perm (free ++ live) := by
      refine ((freeNodes.append liveHeaders).map _).trans (.of_eq ?_)
      rw [← List.map_append, List.map_map]
      exact (List.map_congr_left headed).trans (List.map_id _)
    have count : cover (((s.heap.freep :: others).erase base ++ s.live.map headerOf).map
        (blockAt s.heap)) address = cover s.heap.obtained address :=
      (blocks.countP_eq _).trans (sound.laid.tiled address)
    have once := sound.laid.once address
    rw [count]
    split
    · next covered => exact le_antisymm once (cover_pos.mpr covered)
    · next uncovered =>
      refine cover_eq_zero.mpr fun arena member covers => ?_
      exact uncovered ⟨arena, member, covers⟩

/-- In every state of a program that allocates and gives back, the list and the blocks are in
order once there is a list, before that nothing has been handed out, and every further call
returns. -/
theorem free_list_kept (basePos : 0 < base) (baseFits : base + 8 ≤ 2 ^ 32)
    (reachable : Reachable base (fun s op => Allowed base s op ∧ op.Plain) s) :
    (s.heap.freep = 0 → s.live = [] ∧ s.heap.obtained = []) ∧
      (s.heap.freep ≠ 0 → ∃ others, FreeList base s others) ∧
      ∀ op, Allowed base s op → op.Plain → ∃ enough s',
        (∀ turns, enough ≤ turns → step base turns s op = some s') ∧
        ∀ nbytes sbrk, op = .malloc nbytes sbrk → nbytes ≠ 0 → s'.heap.freep ≠ 0 := by
  have invariant := reachable_invariant basePos (by omega)
    (fun s op kept => ⟨kept.1, kept.2.writesFit⟩) reachable
  refine ⟨?_, ?_, ?_⟩
  · obtain ⟨live, ready, perm⟩ := invariant
    intro untouched
    rcases ready with ⟨-, nothing, rfl⟩ | ⟨free, sound⟩
    · exact ⟨perm.eq_nil, nothing⟩
    · exact absurd untouched (sound.freep_ne_zero basePos)
  · obtain ⟨live, ready, perm⟩ := invariant
    intro used
    rcases ready with ⟨untouched, -, -⟩ | ⟨free, sound⟩
    · exact absurd untouched used
    · exact sound.freeList perm
  · intro op allowed plain
    by_cases isMalloc : ∃ nbytes sbrk, op = .malloc nbytes sbrk
    · obtain ⟨nbytes, sbrk, rfl⟩ := isMalloc
      obtain ⟨enough, s', returns, -, listed⟩ :=
        invariant.malloc allowed basePos (by omega) nbytes
      refine ⟨enough, s', returns, ?_⟩
      rintro _ _ ⟨rfl, rfl⟩
      exact listed
    · obtain ⟨enough, s', returns, -⟩ :=
        invariant.step basePos (by omega) allowed plain.writesFit
      exact ⟨enough, s', returns, fun nbytes sbrk same => absurd ⟨nbytes, sbrk, same⟩ isMalloc⟩

end Lists

def onePiece : Sbrk := fun obtained bytes =>
  if obtained = [] ∧ bytes = 8192 then some 4096 else none

theorem onePiece_fresh : SbrkFresh 8 onePiece := by
  intro obtained bytes cp answered
  rw [onePiece] at answered
  split at answered
  · next asked =>
    obtain ⟨rfl, rfl⟩ := asked
    obtain rfl := Option.some.inj answered
    exact ⟨by decide, fun _ member => (nomatch member), by decide⟩
  · exact nomatch answered

/-- The first block of a program, cut off the end of the memory of the kernel. -/
theorem free_list_kept_firstBlock : ∃ s, s.live = [12272] ∧ s.heap.obtained = [⟨4096, 8192⟩] ∧
    ∃ others, FreeList 8 s others := by
  have called : (step 8 3 (start fun _ => 0) (.malloc 10 onePiece)).map
      (fun s => (s.live, s.heap.obtained, s.heap.freep)) = some ([12272], [⟨4096, 8192⟩], 8) := by
    decide +kernel
  obtain ⟨s, returned, values⟩ := Option.map_eq_some_iff.mp called
  obtain ⟨live, obtained, freep⟩ : s.live = [12272] ∧ s.heap.obtained = [⟨4096, 8192⟩] ∧
      s.heap.freep = 8 := by simpa using values
  have allowed : Allowed 8 (start fun _ => 0) (.malloc 10 onePiece) := onePiece_fresh
  have reachable : Reachable 8 (fun s op => Allowed 8 s op ∧ op.Plain) s :=
    .step 3 (.start _) ⟨allowed, trivial⟩ returned
  exact ⟨s, live, obtained,
    (free_list_kept (by decide) (by decide) reachable).2.1 (by rw [freep]; decide)⟩

end MiniOS.UserHeap
