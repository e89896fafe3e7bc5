import MiniOS.UserHeapCalls

/-!
# Programs that use the allocator

A program calls the functions of the allocator in any order, gives back only blocks that it
has, and writes only into their payloads.  The kernel answers each request for memory with
fresh memory or not at all.
-/

namespace MiniOS.UserHeap

open ByteMemory LinkedRing MiniOS.Span

/-- The heap, and the payloads that the program has and has not given back. -/
structure System where
  heap : Heap
  live : List Nat

inductive Op where
  | malloc (nbytes : Nat) (sbrk : Sbrk)
  | free (ap : Nat)
  | calloc (count size : Nat) (sbrk : Sbrk)
  | realloc (ap nbytes : Nat) (sbrk : Sbrk)
  | write (address : Nat) (value : UInt8)

/-- The payloads after an allocation that has returned `p`. -/
def withPayload (live : List Nat) (p : Nat) : List Nat := if p = 0 then live else p :: live

/-- The payloads after a call of `realloc` that has returned `p`. -/
def withMoved (live : List Nat) (ap nbytes p : Nat) : List Nat :=
  if p = 0 then if nbytes = 0 then live.erase ap else live else p :: live.erase ap

/-- One call or write of the program; the loops may make `turns` turns. -/
def step (base turns : Nat) (s : System) : Op → Option System
  | .malloc nbytes sbrk =>
    (malloc base sbrk turns s.heap nbytes).map fun (h, p) => ⟨h, withPayload s.live p⟩
  | .free ap => (free turns s.heap ap).map fun h => ⟨h, s.live.erase ap⟩
  | .calloc count size sbrk =>
    (calloc base sbrk turns s.heap count size).map fun (h, p) => ⟨h, withPayload s.live p⟩
  | .realloc ap nbytes sbrk =>
    (realloc base sbrk turns s.heap ap nbytes).map fun (h, p) => ⟨h, withMoved s.live ap nbytes p⟩
  | .write address value => some ⟨s.heap.setByte address value, s.live⟩

def Allowed (base : Nat) (s : System) : Op → Prop
  | .malloc _ sbrk => SbrkFresh base sbrk
  | .free ap => ap = 0 ∨ ap ∈ s.live
  | .calloc _ _ sbrk => SbrkFresh base sbrk
  | .realloc ap _ sbrk => SbrkFresh base sbrk ∧ (ap = 0 ∨ ap ∈ s.live)
  | .write address _ => ∃ ap ∈ s.live, ap ≤ address ∧ address < ap + usable s.heap ap

/-- The program starts with an empty list, whatever its memory holds. -/
def start (mem : Region) : System := ⟨⟨mem, 0, []⟩, []⟩

/-- The states of a program whose calls have all returned and are all as `allowed`. -/
inductive Reachable (base : Nat) (allowed : System → Op → Prop) : System → Prop
  | start (mem : Region) : Reachable base allowed (start mem)
  | step {s s' : System} (turns : Nat) {op : Op} (earlier : Reachable base allowed s)
      (isAllowed : allowed s op) (returned : step base turns s op = some s') :
      Reachable base allowed s'

section Turns

variable {α β : Type*} {x x' y y' : Option α}

/-- The second call returns whatever the first returns. -/
structure Extends (x x' : Option α) : Prop where
  returns : ∀ result, x = some result → x' = some result

theorem Extends.refl (x : Option α) : Extends x x := ⟨fun _ => id⟩

theorem Extends.ite {condition : Prop} [Decidable condition] (holds : Extends x x')
    (fails : Extends y y') :
    Extends (if condition then x else y) (if condition then x' else y') := by
  split
  · exact holds
  · exact fails

theorem Extends.none : Extends none x' := ⟨fun _ returned => nomatch returned⟩

theorem Extends.map (f : α → β) (first : Extends x x') : Extends (x.map f) (x'.map f) := by
  refine ⟨fun result returned => ?_⟩
  obtain ⟨inner, called, same⟩ := Option.map_eq_some_iff.mp returned
  exact Option.map_eq_some_iff.mpr ⟨inner, first.returns inner called, same⟩

variable {base turns more : Nat} (le : turns ≤ more)

include le

theorem free_mono (h : Heap) (ap : Nat) : Extends (free turns h ap) (free more h ap) := by
  unfold free
  refine .ite (.refl _) ?_
  dsimp only
  cases found : search h.next (freeStop h (headerOf ap)) turns h.freep with
  | none => exact .none
  | some p =>
    rw [search_mono found le]
    exact .refl _

theorem morecore_mono (sbrk : Sbrk) (h : Heap) (nu : Nat) :
    Extends (morecore sbrk turns h nu) (morecore sbrk more h nu) := by
  unfold morecore
  refine .ite (.refl _) ?_
  cases sbrk h.obtained (coreUnits nu * headerSize) with
  | none => exact .refl _
  | some cp => exact (free_mono le ..).map _

theorem mallocLoop_mono (sbrk : Sbrk) (nunits : Nat) (h : Heap) (prevp p : Nat) :
    Extends (mallocLoop sbrk nunits turns h prevp p) (mallocLoop sbrk nunits more h prevp p) := by
  induction turns generalizing h prevp p more with
  | zero => exact .none
  | succ turns ih =>
    obtain ⟨more, rfl⟩ := Nat.exists_eq_add_of_le' (Nat.le_trans (Nat.le_add_left 1 turns) le)
    have le := Nat.le_of_succ_le_succ le
    rw [mallocLoop, mallocLoop]
    refine .ite (.refl _) (.ite ?_ (ih le ..))
    cases grown : morecore sbrk turns h nunits with
    | none => exact .none
    | some result =>
      rw [(morecore_mono le ..).returns result grown]
      exact .ite (.refl _) (ih le ..)

theorem malloc_mono (sbrk : Sbrk) (h : Heap) (nbytes : Nat) :
    Extends (malloc base sbrk turns h nbytes) (malloc base sbrk more h nbytes) :=
  .ite (.refl _) (mallocLoop_mono le ..)

theorem calloc_mono (sbrk : Sbrk) (h : Heap) (count size : Nat) :
    Extends (calloc base sbrk turns h count size) (calloc base sbrk more h count size) :=
  .ite (.refl _) ((malloc_mono le ..).map _)

theorem realloc_mono (sbrk : Sbrk) (h : Heap) (ap nbytes : Nat) :
    Extends (realloc base sbrk turns h ap nbytes) (realloc base sbrk more h ap nbytes) := by
  unfold realloc
  refine .ite (malloc_mono le ..) (.ite ((free_mono le ..).map _) (.ite (.refl _) ?_))
  cases called : malloc base sbrk turns h nbytes with
  | none => exact .none
  | some result =>
    rw [(malloc_mono le ..).returns result called]
    exact .ite (.refl _) ((free_mono le ..).map _)

/-- A call that returns does so in the same way when its loops may make more turns. -/
theorem step_mono (s : System) (op : Op) : Extends (step base turns s op) (step base more s op) := by
  cases op with
  | malloc => exact (malloc_mono le ..).map _
  | free => exact (free_mono le ..).map _
  | calloc => exact (calloc_mono le ..).map _
  | realloc => exact (realloc_mono le ..).map _
  | write => exact .refl _

end Turns

def payload (block : Span) : Nat := block.start + headerSize

/-- The allocator is in order, and the payloads of the program are those of its blocks. -/
def Invariant (base : Nat) (s : System) : Prop :=
  ∃ live, Ready base s.heap live ∧ s.live.Perm (live.map payload)

/-- A request for bytes that `calloc` and `realloc` then write: the number of bytes can be
rounded up to units, or the product is noticed to be too large. -/
def Op.WritesFit : Op → Prop
  | .calloc count size _ => count * size + 7 < 2 ^ 32 ∨ 2 ^ 32 ≤ count * size
  | .realloc _ nbytes _ => nbytes + 7 < 2 ^ 32
  | _ => True

section Steps

variable {base ap nbytes : Nat} {s s' : System} {op : Op} {live others : List Span}

theorem Ready.perm_live {h : Heap} (ready : Ready base h live) (perm : live.Perm others) :
    Ready base h others := by
  rcases ready with ⟨untouched, nothing, rfl⟩ | ⟨free, sound⟩
  · exact .inl ⟨untouched, nothing, perm.nil_eq.symm⟩
  · exact .inr ⟨free, sound.perm_live perm⟩

theorem payload_ne_zero (block : Span) : payload block ≠ 0 := by
  unfold payload headerSize
  omega

/-- A payload of the program is that of a block. -/
theorem exists_block {h : Heap} {pointers : List Nat} (ready : Ready base h live)
    (perm : pointers.Perm (live.map payload)) (member : ap ∈ pointers) :
    ∃ block rest, ap = payload block ∧ Ready base h (block :: rest) ∧
      pointers.Perm (ap :: rest.map payload) ∧ live.Perm (block :: rest) := by
  obtain ⟨block, inLive, rfl⟩ := List.mem_map.mp (perm.mem_iff.mp member)
  obtain ⟨front, back, rfl⟩ := List.append_of_mem inLive
  have order : (front ++ block :: back).Perm (block :: (front ++ back)) := List.perm_middle
  exact ⟨block, front ++ back, rfl, ready.perm_live order, perm.trans (order.map payload), order⟩

variable (invariant : Invariant base s)

include invariant

theorem Invariant.zero_not_mem : 0 ∉ s.live := by
  obtain ⟨live, -, perm⟩ := invariant
  intro member
  obtain ⟨block, -, zero⟩ := List.mem_map.mp (perm.mem_iff.mp member)
  exact payload_ne_zero block zero

variable {sbrk : Sbrk}

theorem Invariant.malloc (fresh : SbrkFresh base sbrk)
    (basePos : 0 < base) (baseFits : base < 2 ^ 32) (nbytes : Nat) :
    ∃ enough s', (∀ turns, enough ≤ turns → step base turns s (.malloc nbytes sbrk) = some s') ∧
      Invariant base s' ∧ (nbytes ≠ 0 → s'.heap.freep ≠ 0) := by
  obtain ⟨live, ready, perm⟩ := invariant
  obtain ⟨enough, h, p, returns, malloced⟩ := ready.malloc fresh basePos baseFits nbytes
  refine ⟨enough, ⟨h, withPayload s.live p⟩, fun turns isEnough => ?_, ?_, malloced.listed⟩
  · rw [step, returns turns isEnough]
    rfl
  · rcases malloced.outcome with ⟨rfl, readyAfter⟩ | ⟨free, block, rfl, -, sound⟩
    · exact ⟨live, readyAfter, perm⟩
    · refine ⟨block :: live, .inr ⟨free, sound⟩, ?_⟩
      change (withPayload s.live (payload block)).Perm _
      rw [withPayload, if_neg (payload_ne_zero block)]
      exact perm.cons _

theorem Invariant.free (has : ap = 0 ∨ ap ∈ s.live) :
    ∃ enough s', (∀ turns, enough ≤ turns → step base turns s (.free ap) = some s') ∧
      Invariant base s' := by
  rcases has with rfl | member
  · refine ⟨0, s, fun turns _ => ?_, invariant⟩
    rw [step, UserHeap.free, if_pos rfl, List.erase_of_not_mem invariant.zero_not_mem]
    rfl
  · obtain ⟨live, ready, perm⟩ := invariant
    obtain ⟨block, rest, rfl, readyBlock, permBlock, -⟩ := exists_block ready perm member
    obtain ⟨free, sound⟩ := readyBlock.sound_of_live
    obtain ⟨h, free', returns, soundAfter, -, -, -⟩ := sound.free_block
    refine ⟨free.length + 1, ⟨h, s.live.erase (payload block)⟩, fun turns enough => ?_,
      rest, .inr ⟨free', soundAfter⟩, ?_⟩
    · rw [step, payload, returns turns enough]
      rfl
    · have erased := permBlock.erase (payload block)
      rwa [List.erase_cons_head] at erased

theorem Invariant.calloc (fresh : SbrkFresh base sbrk)
    (basePos : 0 < base) (baseFits : base < 2 ^ 32) {count size : Nat}
    (fits : count * size + 7 < 2 ^ 32 ∨ 2 ^ 32 ≤ count * size) :
    ∃ enough s', (∀ turns, enough ≤ turns → step base turns s (.calloc count size sbrk) = some s') ∧
      Invariant base s' := by
  obtain ⟨live, ready, perm⟩ := invariant
  obtain ⟨enough, h, p, returns, outcome, -⟩ := ready.calloc fresh basePos baseFits fits
  refine ⟨enough, ⟨h, withPayload s.live p⟩, fun turns isEnough => ?_, ?_⟩
  · rw [step, returns turns isEnough]
    rfl
  · rcases outcome with ⟨rfl, readyAfter⟩ | ⟨block, ⟨rfl, -, sound⟩, -⟩
    · exact ⟨live, readyAfter, perm⟩
    · refine ⟨block :: live, .inr sound, ?_⟩
      change (withPayload s.live (payload block)).Perm _
      rw [withPayload, if_neg (payload_ne_zero block)]
      exact perm.cons _

theorem Invariant.realloc (fresh : SbrkFresh base sbrk) (basePos : 0 < base)
    (baseFits : base < 2 ^ 32) (has : ap = 0 ∨ ap ∈ s.live) (fits : nbytes + 7 < 2 ^ 32) :
    ∃ enough s', (∀ turns, enough ≤ turns → step base turns s (.realloc ap nbytes sbrk) = some s') ∧
      Invariant base s' := by
  rcases has with rfl | member
  · obtain ⟨enough, s', returns, invariantAfter, -⟩ := invariant.malloc fresh basePos baseFits nbytes
    refine ⟨enough, s', fun turns isEnough => ?_, invariantAfter⟩
    rw [← returns turns isEnough, step, step, UserHeap.realloc, if_pos rfl]
    refine congrArg (Option.map · _) (funext fun result => congrArg (System.mk result.1) ?_)
    rw [withMoved, withPayload, List.erase_of_not_mem invariant.zero_not_mem, ite_self]
  · obtain ⟨live, ready, perm⟩ := invariant
    obtain ⟨block, rest, rfl, readyBlock, permBlock, order⟩ := exists_block ready perm member
    obtain ⟨enough, h, p, returns, outcome, -⟩ := readyBlock.realloc fresh basePos baseFits fits
    have erased := permBlock.erase (payload block)
    rw [List.erase_cons_head] at erased
    refine ⟨enough, ⟨h, withMoved s.live (payload block) nbytes p⟩, fun turns isEnough => ?_, ?_⟩
    · rw [step, payload, returns turns isEnough]
      rfl
    · cases outcome with
      | freed none readyAfter =>
        refine ⟨rest, readyAfter, ?_⟩
        dsimp only
        rwa [withMoved, if_pos rfl, if_pos none]
      | failed readyAfter some =>
        refine ⟨block :: rest, readyAfter, ?_⟩
        dsimp only
        rwa [withMoved, if_pos rfl, if_neg some]
      | @moved p given isGiven same =>
        obtain ⟨rfl, -, sound⟩ := isGiven
        refine ⟨given :: rest, .inr sound, ?_⟩
        change (withMoved s.live (payload block) nbytes (payload given)).Perm _
        rw [withMoved, if_neg (payload_ne_zero given)]
        exact erased.cons _

theorem Invariant.write {address : Nat} {value : UInt8}
    (inside : ∃ ap ∈ s.live, ap ≤ address ∧ address < ap + usable s.heap ap) :
    Invariant base ⟨s.heap.setByte address value, s.live⟩ := by
  obtain ⟨live, ready, perm⟩ := invariant
  obtain ⟨ap, member, lower, upper⟩ := inside
  obtain ⟨block, rest, rfl, readyBlock, permBlock, -⟩ := exists_block ready perm member
  obtain ⟨free, sound⟩ := readyBlock.sound_of_live
  have long := (sound.laid.headed block (by simp)).eight_le
  rw [payload, sound.usable_eq (.head _)] at upper
  rw [payload] at lower
  refine ⟨block :: rest, .inr ⟨free, sound.of_payload_writes fun other outside => ?_⟩, permBlock⟩
  refine Function.update_of_ne ?_ _ _
  rintro rfl
  refine outside ⟨block, .head _, lower, ?_⟩
  unfold stop headerSize at *
  omega

omit invariant

/-- Every allowed call returns and leaves the allocator in order. -/
theorem Invariant.step (invariant : Invariant base s) (basePos : 0 < base) (baseFits : base < 2 ^ 32)
    (allowed : Allowed base s op) (fits : op.WritesFit) :
    ∃ enough s', (∀ turns, enough ≤ turns → step base turns s op = some s') ∧ Invariant base s' := by
  cases op with
  | malloc nbytes sbrk =>
    obtain ⟨enough, s', returns, invariantAfter, -⟩ :=
      invariant.malloc allowed basePos baseFits nbytes
    exact ⟨enough, s', returns, invariantAfter⟩
  | free ap => exact invariant.free allowed
  | calloc count size sbrk => exact invariant.calloc allowed basePos baseFits fits
  | realloc ap nbytes sbrk => exact invariant.realloc allowed.1 basePos baseFits allowed.2 fits
  | write address value => exact ⟨0, _, fun _ _ => rfl, invariant.write allowed⟩

theorem reachable_invariant {allowed : System → Op → Prop} (basePos : 0 < base)
    (baseFits : base < 2 ^ 32)
    (isAllowed : ∀ s op, allowed s op → Allowed base s op ∧ op.WritesFit)
    (reachable : Reachable base allowed s) : Invariant base s := by
  induction reachable with
  | start mem => exact ⟨[], .inl ⟨rfl, rfl, rfl⟩, .refl _⟩
  | @step s s' turns op _ kept returned invariant =>
    obtain ⟨mayCall, fits⟩ := isAllowed s op kept
    obtain ⟨enough, after, returns, invariantAfter⟩ := invariant.step basePos baseFits mayCall fits
    have same := (step_mono (Nat.le_max_left turns enough) s op).returns s' returned
    rw [returns _ (Nat.le_max_right turns enough), Option.some.injEq] at same
    exact same ▸ invariantAfter

end Steps

end MiniOS.UserHeap
