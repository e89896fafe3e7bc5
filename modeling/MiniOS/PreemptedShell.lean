import MiniOS.HeapStatements
import MiniOS.ProcessStatements

/-!
# The kernel shell between timer ticks

The kernel shell runs with interrupts enabled, so a tick can arrive between any two
of its statements and switch to a task that runs complete operations with interrupts
off.  None of the allocators guards itself against that: what the shell has found
may be taken before it claims it.  As long as no other task uses an allocator while
the shell holds what it has read or obtained from it, nothing is handed out twice.
-/

namespace MiniOS.Preemption

open Machine PhysicalMemory KernelHeap Kernel

/-- The variables of the three allocators, with the pointers that `kmalloc` has
returned and that were not passed to `kfree` since. -/
structure Shared where
  frames : Frames
  heap : HeapMem
  live : List Allocation
  table : Table

inductive Operation
  | kmalloc (size : Nat)
  | kfree (ptr : Nat)
  | pmmAllocBlocks (count : Nat)
  | pmmFreeBlocks (addr count : Nat)
  | processAllocate (parent : Int)
  | processRelease (slot : ProcessSlot)
  | processExit (slot : ProcessSlot)
deriving DecidableEq

inductive TaskPc
  | idle
  | heap (pc : HeapPc)
  | alloc (pc : AllocPc)
  | free (pc : FreePc)
  | process (pc : ProcessPc)
deriving DecidableEq

/-- A call.  A pointer given to `kfree` is no longer live. -/
def start (s : Shared) : Operation → TaskPc × Shared
  | .kmalloc size => (.heap (.start size), s)
  | .kfree ptr =>
    (.heap (.free ptr), { s with live := s.live.filter fun allocation => allocation.ptr ≠ ptr })
  | .pmmAllocBlocks count => (.alloc (.check count), s)
  | .pmmFreeBlocks addr count => (.free (.check addr count), s)
  | .processAllocate parent => (.process (.scan parent 0), s)
  | .processRelease slot => (.process (.release slot), s)
  | .processExit slot => (.process (.zombie slot), s)

def execute (s : Shared) : TaskPc → TaskPc × Shared
  | .idle => (.idle, s)
  | .heap (.growing k pc) =>
    (.heap (.growing k (allocStep s.frames.pmm pc).1),
      { s with frames := { s.frames with pmm := (allocStep s.frames.pmm pc).2 } })
  | .heap pc =>
    (.heap (heapStatement s.heap pc).1, { s with heap := (heapStatement s.heap pc).2 })
  | .alloc pc =>
    (.alloc (allocStep s.frames.pmm pc).1,
      { s with frames := { s.frames with pmm := (allocStep s.frames.pmm pc).2 } })
  | .free pc => (.free (freeStep s.frames pc).1, { s with frames := (freeStep s.frames pc).2 })
  | .process pc =>
    (.process (processStatement s.table pc).1, { s with table := (processStatement s.table pc).2 })

/-- A function that is done returns to its caller, which now has what was allocated. -/
def deliver (s : Shared) : TaskPc → TaskPc × Shared
  | .heap (.done result) => (.idle, { s with live := result.toList ++ s.live })
  | .heap (.growing k (.done _ none)) => (.heap (afterGrow false k), s)
  | .heap (.growing k (.done count (some first))) =>
    (.heap (.growSize (first * pmmBlockSize) count k),
      { s with frames := s.frames.grant first count true })
  | .alloc (.done _ none) => (.idle, s)
  | .alloc (.done count (some first)) =>
    (.idle, { s with frames := s.frames.grant first count false })
  | .free .done => (.idle, s)
  | .process (.done result) =>
    (.idle, { s with table := { s.table with handed := result.toList ++ s.table.handed } })
  | pc => (pc, s)

def statement (s : Shared) (pc : TaskPc) : TaskPc × Shared :=
  deliver (execute s pc).2 (execute s pc).1

/-- A number of statements of an operation that nobody interrupts. -/
def statements : Nat → TaskPc × Shared → TaskPc × Shared
  | 0, at' => at'
  | count + 1, at' => statements count (statement at'.2 at'.1)

/-- The allocators and the next statement of the shell. -/
structure Preempted where
  shared : Shared
  shell : TaskPc

/-- The shell makes a call or executes its next statement, or a tick lets another
task run an operation that takes `count` statements. -/
inductive Event
  | call (op : Operation)
  | statement
  | preempt (op : Operation) (count : Nat)

def eventStep (m : Preempted) : Event → Preempted
  | .call op => ⟨(start m.shared op).2, (start m.shared op).1⟩
  | .statement => ⟨(statement m.shared m.shell).2, (statement m.shared m.shell).1⟩
  | .preempt op count => ⟨(statements count (start m.shared op)).2, m.shell⟩

/-- Callers free live pointers, no pages of the heap, and end existing processes. -/
def Operation.Proper (s : Shared) : Operation → Prop
  | .kfree ptr => ptr = 0 ∨ ptr ∈ s.live.map Allocation.ptr
  | .pmmFreeBlocks addr count => ∀ block, block < addr / pmmBlockSize + count →
      addr / pmmBlockSize ≤ block → s.frames.heapFrames block = false
  | .processExit slot => slot ∈ s.table.handed.map Prod.fst
  | .kmalloc _ | .pmmAllocBlocks _ | .processAllocate _ | .processRelease _ => True

instance (s : Shared) (op : Operation) : Decidable (op.Proper s) := by
  cases op <;> unfold Operation.Proper <;> infer_instance

/-- The shell calls one function after the other, and the operations of other tasks
are complete. -/
def Interleaved (m : Preempted) : Event → Prop
  | .call op => m.shell = .idle ∧ op.Proper m.shared
  | .statement => True
  | .preempt op count =>
    op.Proper m.shared ∧ (statements count (start m.shared op)).1 = .idle

instance (m : Preempted) (event : Event) : Decidable (Interleaved m event) := by
  cases event <;> unfold Interleaved <;> infer_instance

def AllocPc.resting : AllocPc → Bool
  | .check _ | .search _ | .done _ none => true
  | .scan _ _ _ runLength => decide (runLength = 0)
  | .set _ _ _ | .addUsed _ _ | .done _ (some _) => false

/-- The task holds no pointer to a block, neither to one in the list nor to the one that
`heap_grow` makes of the pages it has obtained. -/
def HeapPc.resting : HeapPc → Bool
  | .start _ | .init _ | .heapInit _ | .first _ _ | .grow _ _ | .growing _ _ | .addPages _ _
  | .merge _ | .done none => true
  | _ => false

def ProcessPc.resting : ProcessPc → Bool
  | .scan _ _ | .release _ | .done none => true
  | _ => false

def TaskPc.framesResting : TaskPc → Bool
  | .alloc pc | .heap (.growing _ pc) => pc.resting
  | .free pc => decide (pc = .done)
  | _ => true

def TaskPc.heapResting : TaskPc → Bool
  | .heap pc => pc.resting
  | _ => true

def TaskPc.tableResting : TaskPc → Bool
  | .process pc => pc.resting
  | _ => true

def Operation.usesFrames : Operation → Bool
  | .kmalloc _ | .pmmAllocBlocks _ | .pmmFreeBlocks _ _ => true
  | _ => false

def Operation.usesHeap : Operation → Bool
  | .kmalloc _ | .kfree _ => true
  | _ => false

def Operation.usesTable : Operation → Bool
  | .processAllocate _ | .processRelease _ | .processExit _ => true
  | _ => false

/-- Another task uses an allocator only while the shell holds nothing that it has read or
obtained from it. -/
def Undisturbed (m : Preempted) : Event → Prop
  | .call _ | .statement => True
  | .preempt op _ =>
    (op.usesFrames = true → m.shell.framesResting = true) ∧
    (op.usesHeap = true → m.shell.heapResting = true) ∧
    (op.usesTable = true → m.shell.tableResting = true)

instance (m : Preempted) (event : Event) : Decidable (Undisturbed m event) := by
  cases event <;> unfold Undisturbed <;> infer_instance

structure Exclusive (s : Shared) : Prop where
  pointers : s.live.Pairwise fun first second =>
    first.ptr + first.size ≤ second.ptr ∨ second.ptr + second.size ≤ first.ptr
  blocks : ∀ block, s.frames.grants block ≤ 1
  slots : (s.table.handed.map Prod.fst).Nodup
  pids : (s.table.handed.map Prod.snd).Nodup

/-- The state before the first call, for any state of the memory manager. -/
def boot (pmm : Pmm) : Preempted where
  shared :=
    { frames := ⟨pmm, fun _ => 0, fun _ => false⟩
      heap := ⟨0, fun _ => 0, fun _ => false, fun _ => 0, 0⟩
      live := []
      table := ⟨fun _ => .zero, 1, []⟩ }
  shell := .idle

section Heap

variable {mem : HeapMem} {owned : Nat → Bool} {live : List Allocation}
  {pc : HeapPc} {k : HeapReturn} {mem : HeapMem}

theorem heapAt_of_resting (rests : pc.resting = true) :
    HeapAt mem owned live (some pc) ↔ HeapAt mem owned live none := by
  constructor
  · intro holds
    cases pc with
    | mergeNext => exact absurd rests Bool.false_ne_true
    | _ =>
      obtain ⟨nodes, linked, laid, -⟩ := holds
      exact ⟨nodes, linked, laid⟩
  · rintro ⟨nodes, linked, laid⟩
    cases pc with
    | done result =>
      cases result with
      | none => exact ⟨nodes, linked, laid, trivial⟩
      | some allocation => exact absurd rests Bool.false_ne_true
    | start | init | heapInit | first | grow | growing | addPages | merge =>
      exact ⟨nodes, linked, laid, trivial⟩
    | _ => exact absurd rests Bool.false_ne_true

/-- The pointer that `kmalloc` returns becomes live. -/
theorem heapAt_deliver {result : Option Allocation}
    (holds : HeapAt mem owned live (some (.done result))) :
    HeapAt mem owned (result.toList ++ live) none := by
  obtain ⟨nodes, linked, laid, returned⟩ := holds
  cases result with
  | none => exact ⟨nodes, linked, laid⟩
  | some allocation =>
    obtain ⟨block, pointer, ⟨member, used, unserved⟩, large⟩ := returned
    refine ⟨nodes, linked, laid.apart, laid.inside, ?_, ?_⟩
    · intro other isLive
      rcases List.mem_cons.mp isLive with rfl | old
      · exact ⟨block, member, pointer, used, large⟩
      · exact laid.served other old
    · refine List.nodup_cons.mpr ⟨?_, laid.once⟩
      rw [pointer]
      exact unserved

/-- A live pointer is handed to `kfree`. -/
theorem heapAt_free {ptr : Nat} (holds : HeapAt mem owned live none)
    (proper : ptr = 0 ∨ ptr ∈ live.map Allocation.ptr) :
    HeapAt mem owned (live.filter fun allocation => allocation.ptr ≠ ptr)
      (some (.free ptr)) := by
  obtain ⟨nodes, linked, laid⟩ := holds
  refine ⟨nodes, linked, ⟨laid.apart, laid.inside, ?_, ?_⟩, ?_⟩
  · intro allocation isLive
    exact laid.served allocation (List.mem_of_mem_filter isLive)
  · exact laid.once.sublist (List.Sublist.map _ List.filter_sublist)
  · refine proper.imp id fun isLive => ?_
    obtain ⟨allocation, member, rfl⟩ := List.mem_map.mp isLive
    obtain ⟨block, blockMember, pointer, used, -⟩ := laid.served allocation member
    refine ⟨block, pointer, blockMember, used, ?_⟩
    rw [← pointer]
    intro served
    obtain ⟨other, otherMember, same⟩ := List.mem_map.mp served
    rw [List.mem_filter, decide_eq_true_eq] at otherMember
    exact otherMember.2 same

/-- The pages granted to `heap_grow` are clear of all blocks. -/
theorem heapAt_grown {f : Frames} (ok : f.Ok) {first count : Nat} {pc : AllocPc}
    (positive : 1 ≤ count) (claimed : f.Claimed first count)
    (holds : HeapAt mem f.heapFrames live (some (.growing k pc))) :
    HeapAt mem (f.grant first count true).heapFrames live
      (some (.growSize (first * pmmBlockSize) count k)) := by
  obtain ⟨nodes, linked, laid, -⟩ := holds
  have grows : ∀ block, f.heapFrames block = true →
      (f.grant first count true).heapFrames block = true := by
    intro block heap
    simp only [Frames.grant]
    split
    · exact Bool.true_or _
    · exact heap
  have ours : ∀ byte, first * pmmBlockSize ≤ byte →
      byte < first * pmmBlockSize + count * pmmBlockSize →
      first ≤ byte / pmmBlockSize ∧ byte / pmmBlockSize < first + count := by
    intro byte low high
    rw [← Nat.add_mul] at high
    exact ⟨(Nat.le_div_iff_mul_le (by decide)).mpr low, (Nat.div_lt_iff_lt_mul (by decide)).mpr high⟩
  refine ⟨nodes, linked, ⟨laid.apart, ?_, laid.served, laid.once⟩, positive, ?_, ?_⟩
  · intro node member byte low high
    exact grows _ (laid.inside node member byte low high)
  · intro node member
    by_contra overlaps
    rw [not_or, not_le, not_le] at overlaps
    -- a byte of the node in one of the new pages
    have shared := laid.inside node member (max node (first * pmmBlockSize)) (le_max_left _ _)
      (max_lt (lt_stop mem node) overlaps.1)
    obtain ⟨low, high⟩ := ours (max node (first * pmmBlockSize)) (le_max_right _ _)
      (max_lt overlaps.2 (by rw [pmmBlockSize]; omega))
    have granted := ok.heap _ shared
    rw [(claimed _ low high).1] at granted
    exact absurd granted (by decide)
  · intro byte low high
    simp only [Frames.grant]
    rw [if_pos (ours byte low high)]
    rfl

end Heap

inductive FramePc
  | alloc (pc : AllocPc)
  | free (pc : FreePc)

def FramePc.Holds (f : Frames) : FramePc → Prop
  | .alloc pc => pc.Holds f
  | .free pc => pc.Holds f

/-- For each allocator, the statement at which a task has been interrupted. -/
structure Parts where
  frames : Option FramePc
  heap : Option HeapPc
  table : Option ProcessPc

/-- The allocators are consistent with what the interrupted statements rely on. -/
structure Sound (s : Shared) (parts : Parts) : Prop where
  framesOk : s.frames.Ok
  framesAt : ∀ pc ∈ parts.frames, pc.Holds s.frames
  heapAt : HeapAt s.heap s.frames.heapFrames s.live parts.heap
  tableOk : s.table.Ok
  tableAt : ∀ pc ∈ parts.table, pc.Holds s.table

/-- The statements of a task, on top of those at which others were interrupted. -/
def TaskPc.over (parts : Parts) : TaskPc → Parts
  | .idle => parts
  | .heap (.growing k pc) => { parts with frames := some (.alloc pc), heap := some (.growing k pc) }
  | .heap pc => { parts with heap := some pc }
  | .alloc pc => { parts with frames := some (.alloc pc) }
  | .free pc => { parts with frames := some (.free pc) }
  | .process pc => { parts with table := some pc }

/-- The statements of `kfree`, which never asks for pages. -/
def HeapPc.frees : HeapPc → Bool
  | .free _ | .mark _ | .merge .free | .mergeAt _ .free | .mergeSize _ .free
  | .mergeNext _ .free | .done _ => true
  | _ => false

theorem HeapPc.frees.next (frees : pc.frees = true) : (heapStatement mem pc).1.frees = true := by
  cases pc with
  | free ptr =>
    rw [heapStatement]
    split <;> rfl
  | merge k | mergeSize current k | mergeNext current k =>
    cases k with
    | free => rfl
    | _ => exact absurd frees Bool.false_ne_true
  | mergeAt current k =>
    cases k with
    | free =>
      rw [heapStatement]
      split
      · rfl
      · split <;> rfl
    | _ => exact absurd frees Bool.false_ne_true
  | mark | done => rfl
  | _ => exact absurd frees Bool.false_ne_true

def TaskPc.Apart (parts : Parts) : TaskPc → Prop
  | .idle => True
  | .heap pc => parts.heap = none ∧ (pc.frees = true ∨ parts.frames = none)
  | .alloc _ | .free _ => parts.frames = none
  | .process _ => parts.table = none

/-- A task is at a statement of its own, and the allocators are as it and the others rely
on. -/
def Running (parts : Parts) (at' : TaskPc × Shared) : Prop :=
  at'.1.Apart parts ∧ Sound at'.2 (at'.1.over parts)

theorem grant_heapFrames (f : Frames) (first count : Nat) :
    (f.grant first count false).heapFrames = f.heapFrames := by
  funext block
  simp only [Frames.grant]
  split
  · exact Bool.false_or _
  · rfl

variable {s : Shared} {parts : Parts}

theorem Running.growing {pc : AllocPc} (running : Running parts (.heap (.growing k pc), s)) :
    Running parts (statement s (.heap (.growing k pc))) := by
  obtain ⟨apart, sound⟩ := running
  obtain ⟨ok, at'⟩ := allocStep_holds sound.framesOk (sound.framesAt _ rfl)
  have heap : HeapAt s.heap s.frames.heapFrames s.live none :=
    (heapAt_of_resting rfl).mp sound.heapAt
  have noFrames : parts.frames = none := apart.2.resolve_left Bool.false_ne_true
  have nobody : ∀ f, ∀ pc ∈ parts.frames, pc.Holds f := by simp [noFrames]
  rw [statement, execute]
  generalize allocStep s.frames.pmm pc = result at ok at' ⊢
  obtain ⟨next, pmm⟩ := result
  cases next with
  | done count first =>
    cases first with
    | none =>
      have returns : HeapAt s.heap s.frames.heapFrames s.live (some (afterGrow false k)) := by
        obtain ⟨nodes, linked, laid⟩ := heap
        exact heapAt_afterGrow linked laid false k
      refine ⟨⟨apart.1, Or.inr noFrames⟩, ?_⟩
      cases k with
      | _ => exact ⟨ok, nobody _, returns, sound.tableOk, sound.tableAt⟩
    | some first =>
      refine ⟨⟨apart.1, Or.inr noFrames⟩, ok.grant at'.2 true, nobody _, ?_, sound.tableOk,
        sound.tableAt⟩
      exact heapAt_grown ok at'.1 at'.2 sound.heapAt
  | _ =>
    refine ⟨⟨apart.1, Or.inr noFrames⟩, ok, ?_, (heapAt_of_resting rfl).mpr heap,
      sound.tableOk, sound.tableAt⟩
    rintro pc ⟨⟩
    exact at'

theorem afterGrow_ne_growing (ok : Bool) (k return' : HeapReturn) (alloc : AllocPc) :
    afterGrow ok k ≠ .growing return' alloc := by
  cases k <;> cases ok <;> simp [afterGrow]

/-- Only `heap_grow` calls the manager, and the call begins with its first statement. -/
theorem check_of_growing {mem' : HeapMem} {alloc : AllocPc}
    (plain : ∀ k alloc, pc ≠ .growing k alloc)
    (next : heapStatement mem pc = (.growing k alloc, mem')) : ∃ count, alloc = .check count := by
  cases pc with
  | growing k alloc => exact absurd rfl (plain k alloc)
  | grow minPayload return' =>
    rw [heapStatement] at next
    split at next
    · exact absurd (congrArg Prod.fst next) (afterGrow_ne_growing _ _ _ _)
    · obtain ⟨⟨rfl, rfl⟩, -⟩ := by simpa using next
      exact ⟨_, rfl⟩
  | mergeAt current return' =>
    rw [heapStatement] at next
    split at next
    · exact absurd (congrArg Prod.fst next) (afterGrow_ne_growing _ _ _ _)
    · split at next <;> simp at next
  | _ =>
    simp only [heapStatement] at next
    repeat' split at next
    all_goals simp at next

/-- A statement of the heap other than the call of the manager. -/
theorem Running.heap (plain : ∀ k alloc, pc ≠ .growing k alloc)
    (running : Running parts (.heap pc, s)) : Running parts (statement s (.heap pc)) := by
  obtain ⟨apart, sound⟩ := running
  have atHeap : (TaskPc.heap pc).over parts = { parts with heap := some pc } := by
    cases pc with
    | growing k alloc => exact absurd rfl (plain k alloc)
    | _ => rfl
  have executes : execute s (.heap pc) =
      (.heap (heapStatement s.heap pc).1, { s with heap := (heapStatement s.heap pc).2 }) := by
    cases pc with
    | growing k alloc => exact absurd rfl (plain k alloc)
    | _ => rfl
  dsimp only at sound
  rw [atHeap] at sound
  have at' := heapStatement_at sound.heapAt
  have uses : (heapStatement s.heap pc).1.frees = true ∨ parts.frames = none :=
    apart.2.imp_left HeapPc.frees.next
  rw [statement, executes]
  generalize following : heapStatement s.heap pc = result at at' uses ⊢
  obtain ⟨next, mem⟩ := result
  have noFrames : ∀ pc ∈ parts.frames, pc.Holds s.frames := sound.framesAt
  cases next with
  | done allocation =>
    refine ⟨trivial, sound.framesOk, noFrames, ?_, sound.tableOk, sound.tableAt⟩
    show HeapAt _ _ _ parts.heap
    rw [apart.1]
    exact heapAt_deliver at'
  | growing k alloc =>
    obtain ⟨count, rfl⟩ := check_of_growing plain following
    refine ⟨⟨apart.1, uses⟩, sound.framesOk, ?_, at', sound.tableOk, sound.tableAt⟩
    rintro pc ⟨⟩
    trivial
  | _ => exact ⟨⟨apart.1, uses⟩, sound.framesOk, noFrames, at', sound.tableOk, sound.tableAt⟩

theorem Running.alloc {pc : AllocPc} (running : Running parts (.alloc pc, s)) :
    Running parts (statement s (.alloc pc)) := by
  obtain ⟨apart, sound⟩ := running
  obtain ⟨ok, at'⟩ := allocStep_holds sound.framesOk (sound.framesAt _ rfl)
  rw [statement, execute]
  generalize allocStep s.frames.pmm pc = result at ok at' ⊢
  obtain ⟨next, pmm⟩ := result
  have nobody : ∀ f, ∀ pc ∈ parts.frames, pc.Holds f := by simp [show parts.frames = none from apart]
  cases next with
  | done count first =>
    cases first with
    | none => exact ⟨trivial, ok, nobody _, sound.heapAt, sound.tableOk, sound.tableAt⟩
    | some first =>
      refine ⟨trivial, ok.grant at'.2 false, nobody _, ?_, sound.tableOk, sound.tableAt⟩
      have same := grant_heapFrames { s.frames with pmm := pmm } first count
      exact same ▸ sound.heapAt
  | _ =>
    refine ⟨apart, ok, ?_, sound.heapAt, sound.tableOk, sound.tableAt⟩
    rintro pc ⟨⟩
    exact at'

theorem Running.free {pc : FreePc} (running : Running parts (.free pc, s)) :
    Running parts (statement s (.free pc)) := by
  obtain ⟨apart, sound⟩ := running
  obtain ⟨ok, at'⟩ := freeStep_holds sound.framesOk (sound.framesAt _ rfl)
  have sameHeap : HeapAt s.heap (freeStep s.frames pc).2.heapFrames s.live parts.heap :=
    freeStep_heapFrames s.frames pc ▸ sound.heapAt
  rw [statement, execute]
  generalize freeStep s.frames pc = result at ok at' sameHeap ⊢
  obtain ⟨next, frames⟩ := result
  cases next with
  | done =>
    refine ⟨trivial, ok, ?_, sameHeap, sound.tableOk, sound.tableAt⟩
    intro pc member
    exact (Option.some_ne_none pc (member.symm.trans apart)).elim
  | _ =>
    refine ⟨apart, ok, ?_, sameHeap, sound.tableOk, sound.tableAt⟩
    rintro pc ⟨⟩
    exact at'

theorem Running.process {pc : ProcessPc} (running : Running parts (.process pc, s)) :
    Running parts (statement s (.process pc)) := by
  obtain ⟨apart, sound⟩ := running
  obtain ⟨ok, at'⟩ := processStatement_holds sound.tableOk (sound.tableAt _ rfl)
  rw [statement, execute]
  generalize processStatement s.table pc = result at ok at' ⊢
  obtain ⟨next, table⟩ := result
  cases next with
  | done entry =>
    refine ⟨trivial, sound.framesOk, sound.framesAt, sound.heapAt, ?_, ?_⟩
    · cases entry with
      | none => exact ok
      | some entry => exact ok.handOut at'
    · intro pc member
      exact (Option.some_ne_none pc (member.symm.trans apart)).elim
  | _ =>
    refine ⟨apart, sound.framesOk, sound.framesAt, sound.heapAt, ok, ?_⟩
    rintro pc ⟨⟩
    exact at'

/-- One statement of a task, whatever others were interrupted in elsewhere. -/
theorem Running.statement {pc : TaskPc} (running : Running parts (pc, s)) :
    Running parts (statement s pc) := by
  cases pc with
  | idle => exact running
  | heap pc =>
    by_cases plain : ∀ k alloc, pc ≠ .growing k alloc
    · exact running.heap plain
    · push Not at plain
      obtain ⟨k, alloc, rfl⟩ := plain
      exact running.growing
  | alloc pc => exact running.alloc
  | free pc => exact running.free
  | process pc => exact running.process

def Parts.nobody : Parts := ⟨none, none, none⟩

/-- The statements at which tasks were interrupted in allocators that an operation
does not use. -/
def Parts.without (parts : Parts) (op : Operation) : Parts where
  frames := if op.usesFrames then none else parts.frames
  heap := if op.usesHeap then none else parts.heap
  table := if op.usesTable then none else parts.table

theorem start_running {op : Operation} (proper : op.Proper s) (sound : Sound s (parts.without op)) :
    Running (parts.without op) (start s op) := by
  cases op with
  | kmalloc size =>
    refine ⟨⟨rfl, Or.inr rfl⟩, sound.framesOk, sound.framesAt, ?_, sound.tableOk, sound.tableAt⟩
    exact (heapAt_of_resting rfl).mpr sound.heapAt
  | kfree ptr =>
    refine ⟨⟨rfl, Or.inl rfl⟩, sound.framesOk, sound.framesAt, ?_, sound.tableOk, sound.tableAt⟩
    exact heapAt_free sound.heapAt proper
  | pmmAllocBlocks count =>
    refine ⟨rfl, sound.framesOk, ?_, sound.heapAt, sound.tableOk, sound.tableAt⟩
    rintro pc ⟨⟩
    trivial
  | pmmFreeBlocks addr count =>
    refine ⟨rfl, sound.framesOk, ?_, sound.heapAt, sound.tableOk, sound.tableAt⟩
    rintro pc ⟨⟩
    exact fun block low high => proper block high low
  | processAllocate | processRelease =>
    refine ⟨rfl, sound.framesOk, sound.framesAt, sound.heapAt, sound.tableOk, ?_⟩
    rintro pc ⟨⟩
    trivial
  | processExit slot =>
    refine ⟨rfl, sound.framesOk, sound.framesAt, sound.heapAt, sound.tableOk, ?_⟩
    rintro pc ⟨⟩
    obtain ⟨entry, isHanded, rfl⟩ := List.mem_map.mp proper
    exact (sound.tableOk.kept entry isHanded).1

theorem Running.statements (count : Nat) {at' : TaskPc × Shared} (running : Running parts at') :
    Running parts (statements count at') := by
  induction count generalizing at' with
  | zero => exact running
  | succ count ih => exact ih running.statement

theorem framesAt_of_resting {pc : TaskPc} (rests : pc.framesResting = true) (f : Frames) :
    ∀ part ∈ (pc.over .nobody).frames, part.Holds f := by
  have allocRests : ∀ alloc : AllocPc, alloc.resting = true → alloc.Holds f := by
    intro alloc resting
    cases alloc with
    | check | search => trivial
    | scan count frame runStart runLength => exact Or.inl (of_decide_eq_true resting)
    | done count first =>
      cases first with
      | none => trivial
      | some first => exact absurd resting Bool.false_ne_true
    | _ => exact absurd resting Bool.false_ne_true
  cases pc with
  | alloc alloc =>
    rintro part ⟨⟩
    exact allocRests alloc rests
  | free free =>
    rintro part ⟨⟩
    obtain rfl := of_decide_eq_true rests
    trivial
  | heap pc =>
    cases pc with
    | growing k alloc =>
      rintro part ⟨⟩
      exact allocRests alloc rests
    | _ => rintro part ⟨⟩
  | _ => rintro part ⟨⟩

theorem heapAt_over_of_resting {pc : TaskPc} (rests : pc.heapResting = true) (s : Shared) :
    HeapAt s.heap s.frames.heapFrames s.live (pc.over .nobody).heap ↔
      HeapAt s.heap s.frames.heapFrames s.live none := by
  cases pc with
  | heap pc =>
    have atHeap : ((TaskPc.heap pc).over .nobody).heap = some pc := by
      cases pc <;> rfl
    rw [atHeap]
    exact heapAt_of_resting rests
  | _ => exact Iff.rfl

theorem tableAt_of_resting {pc : TaskPc} (rests : pc.tableResting = true) (t : Table) :
    ∀ part ∈ (pc.over .nobody).table, part.Holds t := by
  cases pc with
  | process pc =>
    rintro part ⟨⟩
    cases pc with
    | scan | release => trivial
    | done result =>
      cases result with
      | none => trivial
      | some entry => exact absurd rests Bool.false_ne_true
    | _ => exact absurd rests Bool.false_ne_true
  | heap pc =>
    have atTable : ((TaskPc.heap pc).over .nobody).table = none := by
      cases pc <;> rfl
    rw [atTable]
    rintro part ⟨⟩
  | _ => rintro part ⟨⟩

theorem forall_mem_without {α : Type*} {uses : Bool} {part : Option α} {Holds : α → Prop}
    (resting : uses = true → ∀ pc ∈ part, Holds pc) :
    (∀ pc ∈ if uses then none else part, Holds pc) ↔ ∀ pc ∈ part, Holds pc := by
  cases uses with
  | false => exact Iff.rfl
  | true => exact iff_of_true (by simp) (resting rfl)

/-- The state of the allocators of an operation is not what the shell relies on. -/
theorem sound_without {m : Preempted} {op : Operation} {count : Nat}
    (undisturbed : Undisturbed m (.preempt op count)) (s : Shared) :
    Sound s (m.shell.over .nobody) ↔ Sound s ((m.shell.over .nobody).without op) := by
  obtain ⟨frames, heap, table⟩ := undisturbed
  have heapIff : HeapAt s.heap s.frames.heapFrames s.live (m.shell.over .nobody).heap ↔
      HeapAt s.heap s.frames.heapFrames s.live ((m.shell.over .nobody).without op).heap := by
    dsimp only [Parts.without]
    split
    · case isTrue uses => exact heapAt_over_of_resting (heap uses) s
    · exact Iff.rfl
  have framesIff := forall_mem_without fun uses => framesAt_of_resting (frames uses) s.frames
  have tableIff := forall_mem_without fun uses => tableAt_of_resting (table uses) s.table
  exact ⟨fun sound => ⟨sound.framesOk, framesIff.mpr sound.framesAt, heapIff.mp sound.heapAt,
      sound.tableOk, tableIff.mpr sound.tableAt⟩,
    fun sound => ⟨sound.framesOk, framesIff.mp sound.framesAt, heapIff.mpr sound.heapAt,
      sound.tableOk, tableIff.mp sound.tableAt⟩⟩

theorem boot_sound (pmm : Pmm) : Sound (boot pmm).shared ((boot pmm).shell.over .nobody) := by
  refine ⟨⟨fun _ => Nat.zero_le 1, ?_, ?_⟩, ?_, ⟨[], ?_, ?_⟩, ⟨?_, List.nodup_nil, ?_⟩, ?_⟩
  · exact fun _ granted => absurd rfl granted
  · exact fun _ heap => absurd heap Bool.false_ne_true
  · rintro part ⟨⟩
  · exact ⟨rfl, List.nodup_nil⟩
  · exact ⟨by simp, by simp, by simp [boot], List.nodup_nil⟩
  · exact fun _ impossible => absurd impossible List.not_mem_nil
  · exact fun _ _ used => absurd rfl used
  · rintro part ⟨⟩

theorem eventStep_sound {m : Preempted} {event : Event}
    (sound : Sound m.shared (m.shell.over .nobody))
    (allowed : Interleaved m event ∧ Undisturbed m event) :
    Sound (eventStep m event).shared ((eventStep m event).shell.over .nobody) := by
  obtain ⟨interleaved, undisturbed⟩ := allowed
  cases event with
  | call op =>
    obtain ⟨idle, proper⟩ := interleaved
    rw [idle] at sound
    have whole : Parts.nobody.without op = .nobody := by
      cases op <;> rfl
    have started : Running (Parts.nobody.without op) (start m.shared op) :=
      start_running proper (whole.symm ▸ sound)
    rw [whole] at started
    exact started.2
  | statement =>
    have apart : m.shell.Apart .nobody := by
      cases m.shell <;> simp [TaskPc.Apart, Parts.nobody]
    exact (Running.statement ⟨apart, sound⟩).2
  | preempt op count =>
    obtain ⟨proper, complete⟩ := interleaved
    rw [sound_without undisturbed] at sound
    have finished := ((start_running proper sound).statements count).2
    rw [complete] at finished
    exact (sound_without undisturbed _).mpr finished

theorem HeapAt.laid {owned : Nat → Bool} {live : List Allocation}
    {interrupted : Option HeapPc} (holds : HeapAt mem owned live interrupted) :
    ∃ nodes, Laid mem owned live nodes := by
  cases interrupted with
  | none =>
    obtain ⟨nodes, -, laid⟩ := holds
    exact ⟨nodes, laid⟩
  | some pc =>
    cases pc with
    | mergeNext current k =>
      obtain ⟨first, gone, second, -, laid⟩ := holds
      exact ⟨_, laid⟩
    | _ =>
      obtain ⟨nodes, -, laid, -⟩ := holds
      exact ⟨nodes, laid⟩

/-- Live pointers belong to different blocks, so their bytes are apart. -/
theorem Laid.pointers_apart {owned : Nat → Bool} {live : List Allocation}
    {nodes : List Nat} (laid : Laid mem owned live nodes) :
    live.Pairwise fun first second =>
      first.ptr + first.size ≤ second.ptr ∨ second.ptr + second.size ≤ first.ptr := by
  have distinct : live.Pairwise fun first second => first.ptr ≠ second.ptr :=
    List.pairwise_map.mp laid.once
  refine distinct.imp_of_mem fun {first second} firstLive secondLive different => ?_
  obtain ⟨node, member, pointer, -, large⟩ := laid.served first firstLive
  obtain ⟨other, otherMember, otherPointer, -, otherLarge⟩ := laid.served second secondLive
  have apart := laid.apart node member other otherMember fun same =>
    different (by rw [pointer, otherPointer, same])
  simp only [HeapMem.stop] at apart
  rw [pointer, otherPointer]
  omega

theorem Sound.exclusive (sound : Sound s parts) : Exclusive s := by
  obtain ⟨nodes, laid⟩ := sound.heapAt.laid
  exact ⟨laid.pointers_apart, sound.framesOk.once, sound.tableOk.once, sound.tableOk.pids_nodup⟩

/-- As long as no other task uses an allocator while the shell relies on what it has
read from it, nothing is handed out twice. -/
theorem run_exclusive (pmm : Pmm) (events : List Event)
    (interleaved : Admissible eventStep Interleaved (boot pmm) events)
    (undisturbed : Admissible eventStep Undisturbed (boot pmm) events) :
    Exclusive (run eventStep (boot pmm) events).shared := by
  have sound : Sound (run eventStep (boot pmm) events).shared
      ((run eventStep (boot pmm) events).shell.over .nobody) :=
    run_invariant_of_admissible (fun m => Sound m.shared (m.shell.over .nobody))
      (fun m event sound allowed => eventStep_sound sound allowed) (boot_sound pmm)
      (interleaved.and undisturbed)
  exact sound.exclusive

def smallPmm : Pmm where
  memoryMap := fun block => decide (block = 0)
  maxBlocks := 4
  usedBlocks := 1

def harmlessTick : List Event :=
  [.call (.pmmAllocBlocks 1), .statement, .preempt (.kmalloc 16) 27] ++ List.replicate 6 .statement

theorem run_exclusive_harmlessTick :
    (run eventStep (boot smallPmm) harmlessTick).shared.frames.grants 2 = 1 ∧
      Exclusive (run eventStep (boot smallPmm) harmlessTick).shared :=
  ⟨by decide +kernel, run_exclusive smallPmm harmlessTick (by decide +kernel) (by decide +kernel)⟩

def tickAfterScan : List Event :=
  [.call (.pmmAllocBlocks 1)] ++ List.replicate 3 .statement ++
    [.preempt (.pmmAllocBlocks 1) 6] ++ List.replicate 3 .statement

def tickAfterSearch : List Event :=
  [.preempt (.kmalloc 16) 27, .call (.kmalloc 16)] ++ List.replicate 6 .statement ++
    [.preempt (.kmalloc 16) 13] ++ List.replicate 7 .statement

def tickAfterSlot : List Event :=
  [.call (.processAllocate 0), .statement, .preempt (.processAllocate 0) 24] ++
    List.replicate 23 .statement

/-- Each allocator hands out what it has just handed out to another task. -/
theorem handed_out_twice :
    (Admissible eventStep Interleaved (boot smallPmm) tickAfterScan ∧
      (run eventStep (boot smallPmm) tickAfterScan).shared.frames.grants 1 = 2) ∧
    (Admissible eventStep Interleaved (boot smallPmm) tickAfterSearch ∧
      (run eventStep (boot smallPmm) tickAfterSearch).shared.live =
        [⟨4136, 16⟩, ⟨4136, 16⟩, ⟨4108, 16⟩]) ∧
    (Admissible eventStep Interleaved (boot smallPmm) tickAfterSlot ∧
      (run eventStep (boot smallPmm) tickAfterSlot).shared.table.handed = [(0, 2), (0, 1)]) := by
  decide +kernel

end MiniOS.Preemption
