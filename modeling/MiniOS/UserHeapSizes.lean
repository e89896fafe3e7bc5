import MiniOS.UserHeapTiling

/-!
# The sizes of allocations

A block that the program gets has room for the bytes it has asked for, as long as their
number can be rounded up to units: `malloc` adds seven to it before anything is checked, and
for the seven largest numbers the sum wraps around to a block without a payload.
-/

namespace MiniOS.UserHeap

open ByteMemory LinkedRing MiniOS.Span

/-- The number of bytes asked for can be rounded up to units, or it is a product that does
not fit 32 bits, which `calloc` notices. -/
def Op.SizeFits : Op → Prop
  | .malloc nbytes _ => nbytes + 7 < 2 ^ 32
  | .calloc count size _ => count * size + 7 < 2 ^ 32 ∨ 2 ^ 32 ≤ count * size
  | .realloc _ nbytes _ => nbytes + 7 < 2 ^ 32
  | _ => True

/-- An address that no call concerns: in a payload of the program other than that of `ap`,
or not in the memory of the allocator. -/
def Elsewhere (base : Nat) (s : System) (h' : Heap) (ap address : Nat) : Prop :=
  (∃ other ∈ s.live, other ≠ ap ∧ other ≤ address ∧ address < other + usable s.heap other) ∨
    (address < base ∨ base + 8 ≤ address) ∧ ∀ arena ∈ h'.obtained, ¬ arena.Covers address

/-- What a program may rely on in a state: its calls return, and a block that they return is as
asked for exactly if the size fits. -/
structure SizesKept (base : Nat) (s : System) : Prop where
  returns : ∀ op, Allowed base s op → op.WritesFit → ∃ turns s', step base turns s op = some s'
  malloc : ∀ nbytes sbrk turns h p, Allowed base s (.malloc nbytes sbrk) →
    UserHeap.malloc base sbrk turns s.heap nbytes = some (h, p) → p ≠ 0 →
      ((nbytes ≤ usable h p ∧
          ∀ address, Elsewhere base s h 0 address → h.mem address = s.heap.mem address) ↔
        Op.SizeFits (.malloc nbytes sbrk))
  calloc : ∀ count size sbrk turns h p, Allowed base s (.calloc count size sbrk) →
    UserHeap.calloc base sbrk turns s.heap count size = some (h, p) → p ≠ 0 →
      ((count * size ≤ usable h p ∧ (∀ place < count * size, h.mem (p + place) = 0) ∧
          ∀ address, Elsewhere base s h 0 address → h.mem address = s.heap.mem address) ↔
        Op.SizeFits (.calloc count size sbrk))
  realloc : ∀ ap nbytes sbrk turns h p, Allowed base s (.realloc ap nbytes sbrk) →
    UserHeap.realloc base sbrk turns s.heap ap nbytes = some (h, p) → p ≠ 0 →
      ((nbytes ≤ usable h p ∧
          (ap ≠ 0 → ∀ place < min (usable s.heap ap) nbytes,
            h.mem (p + place) = s.heap.mem (ap + place)) ∧
          ∀ address, Elsewhere base s h ap address → h.mem address = s.heap.mem address) ↔
        Op.SizeFits (.realloc ap nbytes sbrk))

section Sizes

variable {base p ap nbytes : Nat} {s : System} {h : Heap} {block : Span} {live : List Span}

/-- The bytes of a block are counted in units, with 32 bits. -/
theorem usable_le (h : Heap) (p : Nat) : usable h p ≤ 2 ^ 32 - 8 := by
  unfold usable headerSize
  omega

theorem Given.usable (given : Given base live nbytes h p block) : nbytes ≤ usable h p := by
  obtain ⟨rfl, room, free, sound⟩ := given
  rw [sound.usable_eq (.head _)]
  omega

variable {address : Nat}

theorem Ready.covers_of_payload (ready : Ready base h live) (member : block ∈ live)
    (lower : payload block ≤ address)
    (upper : address < payload block + UserHeap.usable h (payload block)) :
    block.Covers address ∧ base + 8 ≤ address := by
  rcases ready with ⟨-, -, rfl⟩ | ⟨free, sound⟩
  · exact nomatch member
  · have within := sound.laid.within (List.mem_append_right free member)
    have long := (sound.laid.headed block (List.mem_append_right free member)).eight_le
    rw [payload, sound.usable_eq member] at upper
    rw [payload] at lower
    unfold headerSize at lower upper
    unfold Covers stop
    omega

/-- A call leaves alone what it does not concern. -/
theorem Kept.elsewhere {rest : List Span} (kept : Kept base rest s.heap h)
    (ready : Ready base s.heap live) (perm : s.live.Perm (live.map UserHeap.payload))
    (others : ∀ block ∈ live, UserHeap.payload block ≠ ap → block ∈ rest)
    (elsewhere : Elsewhere base s h ap address) : h.mem address = s.heap.mem address := by
  rcases elsewhere with ⟨other, member, differs, lower, upper⟩ | ⟨outside, unclaimed⟩
  · obtain ⟨block, inLive, rfl⟩ := List.mem_map.mp (perm.mem_iff.mp member)
    obtain ⟨covers, above⟩ := ready.covers_of_payload inLive lower upper
    exact kept address (.inr above) (.inl ⟨block, others block inLive differs, covers⟩)
  · exact kept address outside (.inr unclaimed)

variable {sbrk : Sbrk} {turns : Nat}

theorem Invariant.malloc_sizes (invariant : Invariant base s) (fresh : SbrkFresh base sbrk)
    (basePos : 0 < base) (baseFits : base < 2 ^ 32)
    (fits : nbytes + 7 < 2 ^ 32)
    (returned : UserHeap.malloc base sbrk turns s.heap nbytes = some (h, p)) (nonnull : p ≠ 0) :
    nbytes ≤ usable h p ∧ ∀ address, Elsewhere base s h 0 address → h.mem address = s.heap.mem address := by
  obtain ⟨live, ready, perm⟩ := invariant
  obtain ⟨enough, h', p', returns, malloced⟩ := ready.malloc fresh basePos baseFits nbytes
  have same := (malloc_mono (Nat.le_max_left turns enough) ..).returns _ returned
  rw [returns _ (Nat.le_max_right turns enough), Option.some.injEq, Prod.mk.injEq] at same
  obtain ⟨rfl, rfl⟩ := same
  refine ⟨?_, fun address => malloced.kept.elsewhere ready perm fun _ member _ => member⟩
  rcases malloced.given fits with ⟨null, -⟩ | ⟨block, given⟩
  · exact absurd null nonnull
  · exact given.usable

theorem Invariant.calloc_sizes (invariant : Invariant base s) (fresh : SbrkFresh base sbrk)
    (basePos : 0 < base) (baseFits : base < 2 ^ 32) {count size : Nat}
    (fits : count * size + 7 < 2 ^ 32 ∨ 2 ^ 32 ≤ count * size)
    (returned : UserHeap.calloc base sbrk turns s.heap count size = some (h, p)) (nonnull : p ≠ 0) :
    count * size ≤ usable h p ∧ (∀ place < count * size, h.mem (p + place) = 0) ∧
      ∀ address, Elsewhere base s h 0 address → h.mem address = s.heap.mem address := by
  obtain ⟨live, ready, perm⟩ := invariant
  obtain ⟨enough, h', p', returns, outcome, kept⟩ := ready.calloc fresh basePos baseFits fits
  have same := (calloc_mono (Nat.le_max_left turns enough) ..).returns _ returned
  rw [returns _ (Nat.le_max_right turns enough), Option.some.injEq, Prod.mk.injEq] at same
  obtain ⟨rfl, rfl⟩ := same
  rcases outcome with ⟨null, -⟩ | ⟨block, given, zeroed⟩
  · exact absurd null nonnull
  · exact ⟨given.usable, zeroed, fun address => kept.elsewhere ready perm fun _ member _ => member⟩

theorem Invariant.realloc_sizes (invariant : Invariant base s) (fresh : SbrkFresh base sbrk)
    (basePos : 0 < base) (baseFits : base < 2 ^ 32)
    (has : ap = 0 ∨ ap ∈ s.live) (fits : nbytes + 7 < 2 ^ 32)
    (returned : UserHeap.realloc base sbrk turns s.heap ap nbytes = some (h, p)) (nonnull : p ≠ 0) :
    nbytes ≤ usable h p ∧
      (ap ≠ 0 → ∀ place < min (usable s.heap ap) nbytes, h.mem (p + place) = s.heap.mem (ap + place)) ∧
      ∀ address, Elsewhere base s h ap address → h.mem address = s.heap.mem address := by
  rcases has with rfl | member
  · rw [UserHeap.realloc, if_pos rfl] at returned
    obtain ⟨enough, kept⟩ := invariant.malloc_sizes fresh basePos baseFits fits returned nonnull
    exact ⟨enough, fun differs => absurd rfl differs, kept⟩
  · obtain ⟨live, ready, perm⟩ := invariant
    obtain ⟨block, rest, rfl, readyBlock, permBlock, order⟩ := exists_block ready perm member
    obtain ⟨enough, h', p', returns, outcome, kept⟩ :=
      readyBlock.realloc fresh basePos baseFits fits
    have same := (realloc_mono (Nat.le_max_left turns enough) ..).returns _ returned
    rw [payload, returns _ (Nat.le_max_right turns enough), Option.some.injEq, Prod.mk.injEq] at same
    obtain ⟨rfl, rfl⟩ := same
    obtain ⟨free, sound⟩ := readyBlock.sound_of_live
    cases outcome with
    | freed | failed => exact absurd rfl nonnull
    | moved isGiven moved =>
      refine ⟨isGiven.usable, fun _ place inside => ?_, fun address => ?_⟩
      · rw [payload, sound.usable_eq (.head _)] at inside
        exact moved place inside
      · refine kept.elsewhere ready perm fun other inLive differs => ?_
        refine (List.mem_cons.mp (order.mem_iff.mp inLive)).resolve_left fun same => differs ?_
        rw [same]

/-- A block that a call returns has room for the bytes asked for, with the contents that the
call promises and no other memory of the program touched, exactly if the size can be rounded
up. -/
theorem allocation_sizes_kept (basePos : 0 < base) (baseFits : base + 8 ≤ 2 ^ 32)
    (reachable : Reachable base (fun s op => Allowed base s op ∧ op.WritesFit) s) :
    SizesKept base s := by
  have invariant := reachable_invariant basePos (by omega) (fun _ _ kept => kept) reachable
  have rounds : ∀ {h p nbytes}, nbytes ≤ usable h p → nbytes + 7 < 2 ^ 32 := by
    intro h p nbytes enough
    have counted := usable_le h p
    omega
  exact
    { returns := fun op allowed fits => by
        obtain ⟨enough, s', returns, -⟩ := invariant.step basePos (by omega) allowed fits
        exact ⟨enough, s', returns enough le_rfl⟩
      malloc := fun nbytes sbrk turns h p fresh returned nonnull =>
        ⟨fun kept => rounds kept.1,
          fun fits => invariant.malloc_sizes fresh basePos (by omega) fits returned nonnull⟩
      calloc := fun count size sbrk turns h p fresh returned nonnull =>
        ⟨fun kept => .inl (rounds kept.1),
          fun fits => invariant.calloc_sizes fresh basePos (by omega) fits returned nonnull⟩
      realloc := fun ap nbytes sbrk turns h p allowed returned nonnull =>
        ⟨fun kept => rounds kept.1, fun fits =>
          invariant.realloc_sizes allowed.1 basePos (by omega) allowed.2 fits returned nonnull⟩ }

end Sizes

/-- The largest number of bytes gives a block without a payload, in the first state of a
program. -/
theorem allocation_wraps : Reachable 8 (Allowed 8) (start fun _ => 0) ∧
    Allowed 8 (start fun _ => 0) (.malloc 0xFFFFFFFF onePiece) ∧
    ∃ h p, malloc 8 onePiece 3 (start fun _ => 0).heap 0xFFFFFFFF = some (h, p) ∧ p ≠ 0 ∧
      usable h p = 0 := by
  have called : (malloc 8 onePiece 3 (start fun _ => 0).heap 0xFFFFFFFF).map
      (fun result => (result.2, usable result.1 result.2)) = some (12288, 0) := by
    decide +kernel
  obtain ⟨⟨h, p⟩, returned, values⟩ := Option.map_eq_some_iff.mp called
  obtain ⟨payload, none⟩ : p = 12288 ∧ usable h p = 0 := by simpa using values
  exact ⟨.start _, onePiece_fresh, h, p, returned, by rw [payload]; decide, none⟩

theorem allocation_sizes_kept_tenBytes : ∃ h p,
    malloc 8 onePiece 3 (start fun _ => 0).heap 10 = some (h, p) ∧ 10 ≤ usable h p := by
  have called : (malloc 8 onePiece 3 (start fun _ => 0).heap 10).map Prod.snd = some 12272 := by
    decide +kernel
  obtain ⟨⟨h, p⟩, returned, payload⟩ := Option.map_eq_some_iff.mp called
  have fits : Op.SizeFits (.malloc 10 onePiece) := by
    change 10 + 7 < 2 ^ 32
    decide
  have reachable : Reachable 8 (fun s op => Allowed 8 s op ∧ op.WritesFit) (start fun _ => 0) :=
    .start _
  have sizes := allocation_sizes_kept (by decide) (by decide) reachable
  refine ⟨h, p, returned, ((sizes.malloc 10 onePiece 3 h p onePiece_fresh returned ?_).mpr fits).1⟩
  dsimp only at payload
  omega

end MiniOS.UserHeap
