import MiniOS.FrameStatements
import MiniOS.KernelHeapRun
import MiniOS.LinkedSegments

/-!
# Statements of the kernel heap

`kmalloc` and `kfree` taken apart into their statements, on the headers as they
lie in memory.  While nobody else uses the heap, the blocks stay linked in one
list, apart from each other and inside the pages of the heap, at every single
statement.
-/

namespace MiniOS.Preemption

open Function PhysicalMemory KernelHeap LinkedSegments

/-- The variables of `heap.c` and the fields of the headers in memory. -/
structure HeapMem where
  head : Nat
  size : Nat → Nat
  isFree : Nat → Bool
  next : Nat → Nat
  pages : Nat

namespace HeapMem

variable (mem : HeapMem)

def setSize (block size : Nat) : HeapMem :=
  { mem with size := update mem.size block size }

def setFree (block : Nat) (flag : Bool) : HeapMem :=
  { mem with isFree := update mem.isFree block flag }

def setNext (block target : Nat) : HeapMem :=
  { mem with next := update mem.next block target }

theorem size_setSize (block size node : Nat) :
    (mem.setSize block size).size node = if node = block then size else mem.size node :=
  update_apply ..

theorem next_setNext (block target node : Nat) :
    (mem.setNext block target).next node = if node = block then target else mem.next node :=
  update_apply ..

end HeapMem

/-- Where `heap_grow` and `merge_free_blocks` return to: the call of `heap_init`,
the second search of `kmalloc`, or the end of `kfree`. -/
inductive HeapReturn
  | init (size : Nat)
  | grown (size : Nat)
  | free
deriving DecidableEq, Repr

/-- The statements of `kmalloc`, `heap_grow`, `insert_block`, `merge_free_blocks` and
`kfree`, with their local variables. -/
inductive HeapPc
  | start (size : Nat)
  | init (size : Nat)
  | heapInit (size : Nat)
  | first (size : Nat) (grown : Bool)
  | look (size current : Nat) (grown : Bool)
  | advance (size current : Nat) (grown : Bool)
  | fits (size best : Nat)
  | splitSize (size best : Nat)
  | splitFree (size best : Nat)
  | splitNext (size best : Nat)
  | shrink (size best : Nat)
  | link (size best : Nat)
  | take (size best : Nat)
  | grow (minPayload : Nat) (k : HeapReturn)
  | growing (k : HeapReturn) (pc : AllocPc)
  | growSize (block pageCount : Nat) (k : HeapReturn)
  | growFree (block pageCount : Nat) (k : HeapReturn)
  | insert (block pageCount : Nat) (k : HeapReturn)
  | insertHead (block pageCount : Nat) (k : HeapReturn)
  | setHead (block pageCount : Nat) (k : HeapReturn)
  | insertFirst (block pageCount : Nat) (k : HeapReturn)
  | insertWalk (block current pageCount : Nat) (k : HeapReturn)
  | insertNext (block current pageCount : Nat) (k : HeapReturn)
  | insertLink (block current pageCount : Nat) (k : HeapReturn)
  | addPages (pageCount : Nat) (k : HeapReturn)
  | merge (k : HeapReturn)
  | mergeAt (current : Nat) (k : HeapReturn)
  | mergeSize (current : Nat) (k : HeapReturn)
  | mergeNext (current : Nat) (k : HeapReturn)
  | free (ptr : Nat)
  | mark (block : Nat)
  | done (result : Option Allocation)
deriving DecidableEq

/-- The header that `kmalloc` splits off. -/
def splitAt (size best : Nat) : Nat := best + heapBlockHeader + size

/-- `heap_grow` has returned, successfully or not. -/
def afterGrow (ok : Bool) : HeapReturn → HeapPc
  | .init size => .first size false
  | .grown size => if ok then .first size true else .done none
  | .free => .done none

/-- One statement of the heap.  The statements of `pmm_alloc_blocks` inside
`heap_grow` are executed by the manager. -/
def heapStatement (mem : HeapMem) : HeapPc → HeapPc × HeapMem
  | .start size =>
    if size = 0 ∨ sizeMax - (heapAlignment - 1) < size then (.done none, mem)
    else (.init (alignSize size), mem)
  | .init size => if mem.head = 0 then (.heapInit size, mem) else (.first size false, mem)
  | .heapInit size =>
    if mem.head = 0 then (.grow 1 (.init size), mem) else (.first size false, mem)
  | .first size grown => (.look size mem.head grown, mem)
  | .look size current grown =>
    if current = 0 then
      if grown then (.done none, mem) else (.grow size (.grown size), mem)
    else if mem.isFree current && decide (size ≤ mem.size current) then (.fits size current, mem)
    else (.advance size current grown, mem)
  | .advance size current grown => (.look size (mem.next current) grown, mem)
  | .fits size best =>
    if size + heapBlockHeader + 4 < mem.size best then (.splitSize size best, mem)
    else (.take size best, mem)
  | .splitSize size best =>
    (.splitFree size best, mem.setSize (splitAt size best) (mem.size best - size - heapBlockHeader))
  | .splitFree size best => (.splitNext size best, mem.setFree (splitAt size best) true)
  | .splitNext size best => (.shrink size best, mem.setNext (splitAt size best) (mem.next best))
  | .shrink size best => (.link size best, mem.setSize best size)
  | .link size best => (.take size best, mem.setNext best (splitAt size best))
  | .take size best => (.done (some ⟨best + heapBlockHeader, size⟩), mem.setFree best false)
  | .grow minPayload k =>
    if sizeMax - heapBlockHeader - (pmmBlockSize - 1) < minPayload then (afterGrow false k, mem)
    else (.growing k (.check (growPages minPayload)), mem)
  | .growing k pc => (.growing k pc, mem)
  | .growSize block pageCount k =>
    (.growFree block pageCount k, mem.setSize block (pageCount * pmmBlockSize - heapBlockHeader))
  | .growFree block pageCount k => (.insert block pageCount k, mem.setFree block true)
  | .insert block pageCount k =>
    if mem.head = 0 ∨ block < mem.head then (.insertHead block pageCount k, mem)
    else (.insertFirst block pageCount k, mem)
  | .insertHead block pageCount k => (.setHead block pageCount k, mem.setNext block mem.head)
  | .setHead block pageCount k => (.addPages pageCount k, { mem with head := block })
  | .insertFirst block pageCount k => (.insertWalk block mem.head pageCount k, mem)
  | .insertWalk block current pageCount k =>
    if mem.next current ≠ 0 ∧ mem.next current < block then
      (.insertWalk block (mem.next current) pageCount k, mem)
    else (.insertNext block current pageCount k, mem)
  | .insertNext block current pageCount k =>
    (.insertLink block current pageCount k, mem.setNext block (mem.next current))
  | .insertLink block current pageCount k => (.addPages pageCount k, mem.setNext current block)
  | .addPages pageCount k => (.merge k, { mem with pages := mem.pages + pageCount })
  | .merge k => (.mergeAt mem.head k, mem)
  | .mergeAt current k =>
    if current = 0 ∨ mem.next current = 0 then (afterGrow true k, mem)
    else if mem.isFree current && mem.isFree (mem.next current) &&
        decide (current + heapBlockHeader + mem.size current = mem.next current) then
      (.mergeSize current k, mem)
    else (.mergeAt (mem.next current) k, mem)
  | .mergeSize current k =>
    (.mergeNext current k,
      mem.setSize current (mem.size current + (heapBlockHeader + mem.size (mem.next current))))
  | .mergeNext current k =>
    (.mergeAt current k, mem.setNext current (mem.next (mem.next current)))
  | .free ptr => if ptr = 0 then (.done none, mem) else (.mark (ptr - heapBlockHeader), mem)
  | .mark block => (.merge .free, mem.setFree block true)
  | .done result => (.done result, mem)

def HeapMem.stop (mem : HeapMem) (block : Nat) : Nat := block + heapBlockHeader + mem.size block

/-- The bytes from `block` to `stop` belong to the heap and to none of the nodes. -/
structure Clear (mem : HeapMem) (owned : Nat → Bool) (nodes : List Nat) (block stop : Nat) :
    Prop where
  apart : ∀ node ∈ nodes, mem.stop node ≤ block ∨ stop ≤ node
  inside : ∀ byte, block ≤ byte → byte < stop → owned (byte / pmmBlockSize) = true

/-- The nodes are apart, lie in pages of the heap, and serve the live allocations. -/
structure Laid (mem : HeapMem) (owned : Nat → Bool) (live : List Allocation) (nodes : List Nat) :
    Prop where
  apart : ∀ node ∈ nodes, ∀ other ∈ nodes, node ≠ other →
    mem.stop node ≤ other ∨ mem.stop other ≤ node
  inside : ∀ node ∈ nodes, ∀ byte, node ≤ byte → byte < mem.stop node →
    owned (byte / pmmBlockSize) = true
  served : ∀ allocation ∈ live, ∃ node ∈ nodes, allocation.ptr = node + heapBlockHeader ∧
    mem.isFree node = false ∧ allocation.size ≤ mem.size node
  once : (live.map Allocation.ptr).Nodup

/-- The list that begins at `heap_head` consists of these nodes. -/
structure Linked (mem : HeapMem) (nodes : List Nat) : Prop where
  segment : Segment mem.next mem.head nodes 0
  distinct : nodes.Nodup

variable {mem : HeapMem} {owned : Nat → Bool} {live : List Allocation} {nodes : List Nat}

theorem lt_stop (mem : HeapMem) (block : Nat) : block < mem.stop block := by
  rw [HeapMem.stop, heapBlockHeader]
  omega

def Suits (mem : HeapMem) (nodes : List Nat) (size best : Nat) : Prop :=
  best ∈ nodes ∧ mem.isFree best = true ∧ size ≤ mem.size best

def Splits (mem : HeapMem) (nodes : List Nat) (size best : Nat) : Prop :=
  best ∈ nodes ∧ mem.isFree best = true ∧ size + heapBlockHeader + 4 < mem.size best

def Spare (mem : HeapMem) (live : List Allocation) (nodes : List Nat) (block : Nat) : Prop :=
  block ∈ nodes ∧ mem.isFree block = false ∧ block + heapBlockHeader ∉ live.map Allocation.ptr

def HeapPc.Holds (mem : HeapMem) (owned : Nat → Bool) (live : List Allocation)
    (nodes : List Nat) : HeapPc → Prop
  | .look _ current _ | .mergeAt current _ => current = 0 ∨ current ∈ nodes
  | .advance _ current _ => current ∈ nodes
  | .fits size best | .take size best => Suits mem nodes size best
  | .splitSize size best => Splits mem nodes size best
  | .splitFree size best | .splitNext size best => Splits mem nodes size best ∧
      mem.size (splitAt size best) = mem.size best - size - heapBlockHeader
  | .shrink size best => Splits mem nodes size best ∧
      mem.size (splitAt size best) = mem.size best - size - heapBlockHeader ∧
      mem.next (splitAt size best) = mem.next best
  | .link size best => Suits mem nodes size best ∧
      Clear mem owned nodes (splitAt size best) (mem.stop (splitAt size best)) ∧
      mem.next (splitAt size best) = mem.next best
  | .growSize block pageCount _ => 1 ≤ pageCount ∧
      Clear mem owned nodes block (block + pageCount * pmmBlockSize)
  | .growFree block _ _ | .insert block _ _ | .insertHead block _ _ =>
    Clear mem owned nodes block (mem.stop block)
  | .setHead block _ _ => Clear mem owned nodes block (mem.stop block) ∧ mem.next block = mem.head
  | .insertFirst block _ _ => Clear mem owned nodes block (mem.stop block) ∧ mem.head ∈ nodes
  | .insertWalk block current _ _ | .insertNext block current _ _ =>
    Clear mem owned nodes block (mem.stop block) ∧ current ∈ nodes
  | .insertLink block current _ _ => Clear mem owned nodes block (mem.stop block) ∧
      current ∈ nodes ∧ mem.next block = mem.next current
  | .mergeSize current _ => current ∈ nodes ∧ mem.next current ≠ 0 ∧
      mem.isFree current = true ∧ mem.isFree (mem.next current) = true ∧
      mem.stop current = mem.next current
  | .free ptr => ptr = 0 ∨ ∃ block, ptr = block + heapBlockHeader ∧ Spare mem live nodes block
  | .mark block => Spare mem live nodes block
  | .done (some allocation) => ∃ block, allocation.ptr = block + heapBlockHeader ∧
      Spare mem live nodes block ∧ allocation.size ≤ mem.size block
  | .start _ | .init _ | .heapInit _ | .first _ _ | .grow _ _ | .growing _ _ | .addPages _ _
  | .merge _ | .mergeNext _ _ | .done none => True

def HeapAt (mem : HeapMem) (owned : Nat → Bool) (live : List Allocation) : Option HeapPc → Prop
  | none => ∃ nodes, Linked mem nodes ∧ Laid mem owned live nodes
  | some (.mergeNext current _) => ∃ first gone second,
      -- the block that has been swallowed is still linked
      Linked mem (first ++ current :: gone :: second) ∧
        Laid mem owned live (first ++ current :: second)
  | some pc => ∃ nodes, Linked mem nodes ∧ Laid mem owned live nodes ∧
      pc.Holds mem owned live nodes

section Changes

variable {mem' : HeapMem} {block : Nat}

theorem Linked.congr (linked : Linked mem nodes) (sameHead : mem'.head = mem.head)
    (sameNext : ∀ node ∈ nodes, mem'.next node = mem.next node) : Linked mem' nodes := by
  refine ⟨?_, linked.distinct⟩
  rw [sameHead]
  exact linked.segment.congr sameNext

/-- Blocks may become smaller, as long as those that serve somebody are left alone. -/
theorem Laid.shrink (laid : Laid mem owned live nodes)
    (smaller : ∀ node ∈ nodes, mem'.size node ≤ mem.size node)
    (serving : ∀ node ∈ nodes, mem.isFree node = false →
      node + heapBlockHeader ∈ live.map Allocation.ptr →
        mem'.isFree node = false ∧ mem'.size node = mem.size node) :
    Laid mem' owned live nodes := by
  have stops : ∀ node ∈ nodes, mem'.stop node ≤ mem.stop node := fun node member =>
    Nat.add_le_add_left (smaller node member) _
  refine ⟨fun node member other otherMember different => ?_, fun node member byte low high => ?_,
    fun allocation isLive => ?_, laid.once⟩
  · exact (laid.apart node member other otherMember different).imp (stops node member).trans
      (stops other otherMember).trans
  · exact laid.inside node member byte low (high.trans_le (stops node member))
  · obtain ⟨node, member, pointer, used, large⟩ := laid.served allocation isLive
    obtain ⟨stillUsed, sameSize⟩ :=
      serving node member used (pointer ▸ List.mem_map_of_mem isLive)
    exact ⟨node, member, pointer, stillUsed, large.trans_eq sameSize.symm⟩

theorem Laid.congr (laid : Laid mem owned live nodes)
    (sameSize : ∀ node ∈ nodes, mem'.size node = mem.size node)
    (sameFlag : ∀ node ∈ nodes, mem'.isFree node = mem.isFree node) :
    Laid mem' owned live nodes :=
  laid.shrink (fun node member => (sameSize node member).le) fun node member used _ =>
    ⟨(sameFlag node member).trans used, sameSize node member⟩

theorem Clear.congr {stop : Nat} (clear : Clear mem owned nodes block stop)
    (sameSize : ∀ node ∈ nodes, mem'.size node = mem.size node) :
    Clear mem' owned nodes block stop := by
  refine ⟨fun node member => ?_, clear.inside⟩
  rw [HeapMem.stop, sameSize node member]
  exact clear.apart node member

theorem Clear.not_mem {stop : Nat} (clear : Clear mem owned nodes block stop)
    (nonempty : block < stop) : block ∉ nodes := by
  intro member
  have beyond := lt_stop mem block
  rcases clear.apart block member with below | above <;> omega

/-- The header of a block that is not in the list can be written. -/
theorem update_of_not_mem {α : Type*} {field : Nat → α} {value : α} (outside : block ∉ nodes) :
    ∀ node ∈ nodes, update field block value node = field node := by
  intro node member
  refine update_of_ne ?_ _ _
  rintro rfl
  exact outside member

variable (laid : Laid mem owned live nodes)

include laid

theorem Laid.not_mem_of_inside {node : Nat} (member : node ∈ nodes) (above : node < block)
    (below : block < mem.stop node) :
    block ∉ nodes := by
  intro blockMember
  have beyond := lt_stop mem block
  rcases laid.apart node member block blockMember (by omega) with first | second <;> omega

variable {size best block current pageCount : Nat} {k : HeapReturn}

theorem Laid.splitAt_not_mem (splits : Splits mem nodes size best) : splitAt size best ∉ nodes := by
  obtain ⟨member, -, large⟩ := splits
  refine laid.not_mem_of_inside member ?_ ?_
  · rw [splitAt, heapBlockHeader]
    omega
  · rw [splitAt, HeapMem.stop]
    omega

/-- A free block serves nobody, so it can become smaller. -/
theorem Laid.resize (free : mem.isFree block = true) (smaller : size ≤ mem.size block) :
    Laid (mem.setSize block size) owned live nodes := by
  refine laid.shrink (fun node _ => ?_) fun node _ used _ => ⟨used, update_of_ne ?_ _ _⟩
  · rw [HeapMem.size_setSize]
    split
    · case isTrue same => rwa [same]
    · exact le_rfl
  · rintro rfl
    simp [free] at used

theorem Laid.setFree (spare : block + heapBlockHeader ∉ live.map Allocation.ptr) (flag : Bool) :
    Laid (mem.setFree block flag) owned live nodes := by
  refine laid.shrink (fun _ _ => le_rfl) fun node _ used serving => ⟨?_, rfl⟩
  have different : node ≠ block := fun same => spare (same ▸ serving)
  exact (update_of_ne different _ _).trans used

theorem Laid.spare_of_free (free : mem.isFree block = true) :
    block + heapBlockHeader ∉ live.map Allocation.ptr := by
  intro member
  rw [List.mem_map] at member
  obtain ⟨allocation, isLive, pointer⟩ := member
  obtain ⟨node, -, same, used, -⟩ := laid.served allocation isLive
  obtain rfl : node = block := by omega
  rw [free] at used
  cases used

theorem Laid.setNext (target : Nat) : Laid (mem.setNext block target) owned live nodes :=
  laid.congr (fun _ _ => rfl) fun _ _ => rfl

theorem Laid.join (clear : Clear mem owned nodes block
    (mem.stop block)) {longer : List Nat} (members : ∀ node, node ∈ longer ↔ node = block ∨
      node ∈ nodes) : Laid mem owned live longer := by
  refine ⟨fun node member other otherMember different => ?_, fun node member => ?_,
    fun allocation isLive => ?_, laid.once⟩
  · rcases (members node).mp member with rfl | old
    · rcases (members other).mp otherMember with rfl | otherOld
      · exact absurd rfl different
      · exact (clear.apart other otherOld).symm
    · rcases (members other).mp otherMember with rfl | otherOld
      · exact clear.apart node old
      · exact laid.apart node old other otherOld different
  · rcases (members node).mp member with rfl | old
    · exact clear.inside
    · exact laid.inside node old
  · obtain ⟨node, member, facts⟩ := laid.served allocation isLive
    exact ⟨node, (members node).mpr (Or.inr member), facts⟩

omit laid

theorem Linked.following (linked : Linked mem nodes) (member : block ∈ nodes)
    (more : mem.next block ≠ 0) :
    ∃ first second, nodes = first ++ block :: mem.next block :: second := by
  obtain ⟨first, rest, rfl⟩ := List.append_of_mem member
  obtain ⟨middle, -, -, following⟩ := segment_append.mp linked.segment
  cases rest with
  | nil => exact absurd following more
  | cons gone second =>
    obtain ⟨atGone, -⟩ := following
    exact ⟨first, second, by rw [atGone]⟩

theorem Linked.next_mem (linked : Linked mem nodes) (member : block ∈ nodes) :
    mem.next block = 0 ∨ mem.next block ∈ nodes := by
  by_cases atEnd : mem.next block = 0
  · exact Or.inl atEnd
  · obtain ⟨first, second, same⟩ := linked.following member atEnd
    exact Or.inr (by rw [same]; simp)

theorem Linked.head_mem (linked : Linked mem nodes) : mem.head = 0 ∨ mem.head ∈ nodes := by
  cases nodes with
  | nil => exact Or.inl linked.segment
  | cons node nodes => exact Or.inr (by rw [linked.segment.1]; simp)

/-- Blocks that are free can be left out. -/
theorem Laid.leaveOut {fewer : List Nat} (laid : Laid mem owned live nodes) (subset : fewer ⊆ nodes)
    (used : ∀ node ∈ nodes, mem.isFree node = false → node ∈ fewer) :
    Laid mem owned live fewer := by
  refine ⟨fun node member other otherMember => ?_, fun node member => ?_,
    fun allocation isLive => ?_, laid.once⟩
  · exact laid.apart node (subset member) other (subset otherMember)
  · exact laid.inside node (subset member)
  · obtain ⟨node, member, pointer, isUsed, large⟩ := laid.served allocation isLive
    exact ⟨node, used node member isUsed, pointer, isUsed, large⟩

/-- A free block swallows the free block behind it. -/
theorem Laid.swallow {first second : List Nat} {gone : Nat}
    (laid : Laid mem owned live (first ++ block :: gone :: second))
    (distinct : (first ++ block :: gone :: second).Nodup) (adjacent : mem.stop block = gone)
    (free : mem.isFree block = true) (goneFree : mem.isFree gone = true) :
    Laid (mem.setSize block (mem.size block + (heapBlockHeader + mem.size gone))) owned live
      (first ++ block :: second) := by
  have members (node : Nat) : node ∈ first ++ block :: gone :: second ↔
      node = block ∨ node = gone ∨ node ∈ first ++ second := by
    simp only [List.mem_append, List.mem_cons]
    tauto
  have blockMember := (members block).mpr (.inl rfl)
  have goneMember := (members gone).mpr (.inr (.inl rfl))
  obtain ⟨blockOut, distinct⟩ := List.nodup_cons.mp (List.nodup_middle.mp distinct)
  obtain ⟨goneOut, -⟩ := List.nodup_cons.mp (List.nodup_middle.mp distinct)
  have outside : block ∉ first ++ second := fun member =>
    blockOut (List.perm_middle.mem_iff.mpr (List.mem_cons_of_mem _ member))
  have others : Laid mem owned live (first ++ second) := by
    refine laid.leaveOut (fun node member => (members node).mpr (.inr (.inr member)))
      fun node member used => ?_
    rcases (members node).mp member with rfl | rfl | other
    · simp [free] at used
    · simp [goneFree] at used
    · exact other
  have clear : Clear mem owned (first ++ second) block (mem.stop gone) := by
    refine ⟨fun node member => ?_, fun byte low high => ?_⟩
    · have beyond := lt_stop mem node
      have old := (members node).mpr (.inr (.inr member))
      rcases laid.apart node old block blockMember (ne_of_mem_of_not_mem member outside) with
        below | behind
      · exact .inl below
      · exact (laid.apart node old gone goneMember
          (ne_of_mem_of_not_mem member goneOut)).imp_left fun _ => by omega
    · by_cases early : byte < mem.stop block
      · exact laid.inside block blockMember byte low early
      · exact laid.inside gone goneMember byte (by omega) high
  refine Laid.join ?_ ?_ fun node => List.perm_middle.mem_iff.trans List.mem_cons
  · exact others.congr (update_of_not_mem outside) fun _ _ => rfl
  · have stop : (mem.setSize block
        (mem.size block + (heapBlockHeader + mem.size gone))).stop block = mem.stop gone := by
      rw [HeapMem.stop] at adjacent
      simp only [HeapMem.stop, HeapMem.setSize, update_self]
      omega
    rw [stop]
    exact clear.congr (update_of_not_mem outside)

end Changes

/-- `block->next = node->next` was done; now `node->next = block`. -/
theorem Linked.insertAfter {node : Nat} (linked : Linked mem nodes) (member : node ∈ nodes)
    (outside : block ∉ nodes) (points : mem.next block = mem.next node) :
    ∃ longer, Linked (mem.setNext node block) longer ∧
      ∀ other, other ∈ longer ↔ other = block ∨ other ∈ nodes := by
  obtain ⟨first, second, rfl⟩ := List.append_of_mem member
  have inserted := linked.segment.insertAfter linked.distinct outside
  rw [← points, update_eq_self] at inserted
  refine ⟨first ++ node :: block :: second, ⟨inserted, ?_⟩, fun other => ?_⟩
  · have swapped : (first ++ node :: block :: second).Perm (first ++ block :: node :: second) :=
      (List.Perm.swap block node second).append_left first
    exact (swapped.trans List.perm_middle).nodup_iff.mpr
      (List.nodup_cons.mpr ⟨outside, linked.distinct⟩)
  · simp only [List.mem_append, List.mem_cons]
    tauto

/-- The state in which the statement after `pc` is executed may execute it. -/
def Leads (mem : HeapMem) (owned : Nat → Bool) (live : List Allocation) (pc : HeapPc) : Prop :=
  HeapAt (heapStatement mem pc).2 owned live (some (heapStatement mem pc).1)

section Statements

variable {grown : Bool} (linked : Linked mem nodes) (laid : Laid mem owned live nodes)

include linked laid

theorem heapAt_afterGrow (ok : Bool) (k : HeapReturn) :
    HeapAt mem owned live (some (afterGrow ok k)) := by
  cases k with
  | init size | free => exact ⟨nodes, linked, laid, trivial⟩
  | grown size => cases ok <;> exact ⟨nodes, linked, laid, trivial⟩

theorem leads_look (inside : current = 0 ∨ current ∈ nodes) :
    Leads mem owned live (.look size current grown) := by
  rw [Leads, heapStatement]
  split
  · split <;> exact ⟨nodes, linked, laid, trivial⟩
  · case isFalse present =>
    have member := inside.resolve_left present
    split
    · case isTrue suits =>
      rw [Bool.and_eq_true, decide_eq_true_eq] at suits
      exact ⟨nodes, linked, laid, member, suits.1, suits.2⟩
    · exact ⟨nodes, linked, laid, member⟩

theorem leads_fits (suits : Suits mem nodes size best) :
    Leads mem owned live (.fits size best) := by
  rw [Leads, heapStatement]
  split
  · case isTrue large => exact ⟨nodes, linked, laid, suits.1, suits.2.1, large⟩
  · exact ⟨nodes, linked, laid, suits⟩

section Split

variable (splits : Splits mem nodes size best)

include splits

theorem splitFree_at :
    HeapAt (mem.setSize (splitAt size best) (mem.size best - size - heapBlockHeader)) owned live
      (some (.splitFree size best)) := by
  have outside := laid.splitAt_not_mem splits
  have bestSize : (mem.setSize (splitAt size best)
      (mem.size best - size - heapBlockHeader)).size best = mem.size best :=
    update_of_not_mem outside best splits.1
  refine ⟨nodes, linked.congr rfl fun _ _ => rfl,
    laid.congr (update_of_not_mem outside) fun _ _ => rfl, ⟨splits.1, splits.2.1, ?_⟩, ?_⟩
  · rw [bestSize]
    exact splits.2.2
  · rw [bestSize, HeapMem.size_setSize, if_pos rfl]

variable (newSize : mem.size (splitAt size best) = mem.size best - size - heapBlockHeader)

include newSize

theorem leads_splitFree : Leads mem owned live (.splitFree size best) := by
  have outside := laid.splitAt_not_mem splits
  exact ⟨nodes, linked.congr rfl fun _ _ => rfl,
    laid.congr (fun _ _ => rfl) (update_of_not_mem outside),
    ⟨splits.1, (update_of_not_mem outside best splits.1).trans splits.2.1, splits.2.2⟩, newSize⟩

theorem leads_splitNext : Leads mem owned live (.splitNext size best) := by
  rw [Leads, heapStatement]
  have outside := laid.splitAt_not_mem splits
  have bestNext : (mem.setNext (splitAt size best) (mem.next best)).next best = mem.next best :=
    update_of_not_mem outside best splits.1
  refine ⟨nodes, linked.congr rfl (update_of_not_mem outside), laid.setNext _, splits, newSize, ?_⟩
  rw [bestNext, HeapMem.next_setNext, if_pos rfl]

theorem link_at (newNext : mem.next (splitAt size best) = mem.next best) :
    HeapAt (mem.setSize best size) owned live (some (.link size best)) := by
  obtain ⟨member, free, large⟩ := splits
  have beyond : best + heapBlockHeader + size = splitAt size best := rfl
  have different : splitAt size best ≠ best := by
    rw [splitAt, heapBlockHeader]
    omega
  have stopNew : (mem.setSize best size).stop (splitAt size best) = mem.stop best := by
    rw [HeapMem.stop, HeapMem.size_setSize, if_neg different, newSize, HeapMem.stop]
    omega
  have stopBest : (mem.setSize best size).stop best = splitAt size best := by
    rw [HeapMem.stop, HeapMem.size_setSize, if_pos rfl, beyond]
  have stopOther : ∀ node, node ≠ best → (mem.setSize best size).stop node = mem.stop node := by
    intro node other
    rw [HeapMem.stop, HeapMem.size_setSize, if_neg other, HeapMem.stop]
  refine ⟨nodes, linked.congr rfl fun _ _ => rfl, laid.resize free (by omega),
    ⟨member, free, ?_⟩, ⟨fun node nodeMember => ?_, fun byte low high => ?_⟩, newNext⟩
  · rw [HeapMem.size_setSize, if_pos rfl]
  · rw [stopNew]
    by_cases same : node = best
    · rw [same, stopBest]
      exact Or.inl le_rfl
    · rw [stopOther node same]
      exact (laid.apart node nodeMember best member same).imp_left fun below => by omega
  · rw [stopNew] at high
    exact laid.inside best member byte (by omega) high

end Split

theorem leads_link (suits : Suits mem nodes size best)
    (clear : Clear mem owned nodes (splitAt size best) (mem.stop (splitAt size best)))
    (points : mem.next (splitAt size best) = mem.next best) :
    Leads mem owned live (.link size best) := by
  have outside := clear.not_mem (lt_stop mem _)
  obtain ⟨longer, linked', members⟩ := linked.insertAfter suits.1 outside points
  exact ⟨longer, linked', (laid.join clear members).setNext _,
    (members best).mpr (Or.inr suits.1), suits.2.1, suits.2.2⟩

theorem leads_take (suits : Suits mem nodes size best) :
    Leads mem owned live (.take size best) := by
  rw [Leads, heapStatement]
  obtain ⟨member, free, large⟩ := suits
  have spare := laid.spare_of_free free
  refine ⟨nodes, linked.congr rfl fun _ _ => rfl, laid.setFree spare false, best, rfl,
    ⟨member, update_self .., spare⟩, large⟩

theorem leads_growSize (positive : 1 ≤ pageCount)
    (clear : Clear mem owned nodes block (block + pageCount * pmmBlockSize)) :
    Leads mem owned live (.growSize block pageCount k) := by
  rw [Leads, heapStatement]
  have page : heapBlockHeader ≤ pageCount * pmmBlockSize := by
    rw [heapBlockHeader, pmmBlockSize]
    omega
  have outside := clear.not_mem (by rw [pmmBlockSize]; omega)
  have stop : (mem.setSize block (pageCount * pmmBlockSize - heapBlockHeader)).stop block =
      block + pageCount * pmmBlockSize := by
    rw [HeapMem.stop, HeapMem.size_setSize, if_pos rfl]
    omega
  refine ⟨nodes, linked.congr rfl fun _ _ => rfl,
    laid.congr (update_of_not_mem outside) fun _ _ => rfl, ?_⟩
  rw [HeapPc.Holds, stop]
  exact clear.congr (update_of_not_mem outside)

variable (clear : Clear mem owned nodes block (mem.stop block))

include clear

theorem leads_growFree : Leads mem owned live (.growFree block pageCount k) := by
  have outside := clear.not_mem (lt_stop mem block)
  exact ⟨nodes, linked.congr rfl fun _ _ => rfl,
    laid.congr (fun _ _ => rfl) (update_of_not_mem outside), clear.congr fun _ _ => rfl⟩

theorem leads_insert : Leads mem owned live (.insert block pageCount k) := by
  rw [Leads, heapStatement]
  split
  · exact ⟨nodes, linked, laid, clear⟩
  · case isFalse behind =>
    exact ⟨nodes, linked, laid, clear,
      linked.head_mem.resolve_left fun empty => behind (Or.inl empty)⟩

theorem leads_insertHead : Leads mem owned live (.insertHead block pageCount k) := by
  rw [Leads, heapStatement]
  have outside := clear.not_mem (lt_stop mem block)
  refine ⟨nodes, linked.congr rfl (update_of_not_mem outside), laid.setNext _,
    clear.congr fun _ _ => rfl, ?_⟩
  rw [HeapMem.next_setNext, if_pos rfl]
  rfl

theorem leads_setHead (points : mem.next block = mem.head) :
    Leads mem owned live (.setHead block pageCount k) := by
  have outside := clear.not_mem (lt_stop mem block)
  refine ⟨block :: nodes, ⟨⟨rfl, ?_⟩, List.nodup_cons.mpr ⟨outside, linked.distinct⟩⟩,
    (laid.join clear fun _ => List.mem_cons).congr (fun _ _ => rfl) fun _ _ => rfl, trivial⟩
  show Segment mem.next (mem.next block) nodes 0
  rw [points]
  exact linked.segment

theorem leads_insertWalk (member : current ∈ nodes) :
    Leads mem owned live (.insertWalk block current pageCount k) := by
  rw [Leads, heapStatement]
  split
  · case isTrue more =>
    exact ⟨nodes, linked, laid, clear, (linked.next_mem member).resolve_left more.1⟩
  · exact ⟨nodes, linked, laid, clear, member⟩

theorem leads_insertNext (member : current ∈ nodes) :
    Leads mem owned live (.insertNext block current pageCount k) := by
  rw [Leads, heapStatement]
  have outside := clear.not_mem (lt_stop mem block)
  have currentNext : (mem.setNext block (mem.next current)).next current = mem.next current :=
    update_of_not_mem outside current member
  refine ⟨nodes, linked.congr rfl (update_of_not_mem outside), laid.setNext _,
    clear.congr fun _ _ => rfl, member, ?_⟩
  rw [currentNext, HeapMem.next_setNext, if_pos rfl]

theorem leads_insertLink (member : current ∈ nodes) (points : mem.next block = mem.next current) :
    Leads mem owned live (.insertLink block current pageCount k) := by
  have outside := clear.not_mem (lt_stop mem block)
  obtain ⟨longer, linked', members⟩ := linked.insertAfter member outside points
  exact ⟨longer, linked', (laid.join clear members).setNext _, trivial⟩

omit clear

theorem leads_mergeAt (inside : current = 0 ∨ current ∈ nodes) :
    Leads mem owned live (.mergeAt current k) := by
  rw [Leads, heapStatement]
  split
  · exact heapAt_afterGrow linked laid true k
  · case isFalse more =>
    rw [not_or] at more
    have member := inside.resolve_left more.1
    split
    · case isTrue mergeable =>
      simp only [Bool.and_eq_true, decide_eq_true_eq] at mergeable
      exact ⟨nodes, linked, laid, member, more.2, mergeable.1.1, mergeable.1.2, mergeable.2⟩
    · exact ⟨nodes, linked, laid, linked.next_mem member⟩

theorem leads_of_holds {pc : HeapPc} (linkedOnce : ∀ current k, pc ≠ .mergeNext current k)
    (holds : pc.Holds mem owned live nodes) : Leads mem owned live pc := by
  cases pc with
  | mergeNext current k => exact absurd rfl (linkedOnce current k)
  | start size | init size | heapInit size =>
    rw [Leads, heapStatement]
    split <;> exact ⟨nodes, linked, laid, trivial⟩
  | first size grown | merge k =>
    exact ⟨nodes, linked, laid, linked.head_mem⟩
  | look size current grown =>
    exact leads_look linked laid holds
  | advance size current grown =>
    exact ⟨nodes, linked, laid, linked.next_mem holds⟩
  | fits size best =>
    exact leads_fits linked laid holds
  | splitSize size best =>
    exact splitFree_at linked laid holds
  | splitFree size best =>
    exact leads_splitFree linked laid holds.1 holds.2
  | splitNext size best =>
    exact leads_splitNext linked laid holds.1 holds.2
  | shrink size best =>
    exact link_at linked laid holds.1 holds.2.1 holds.2.2
  | link size best =>
    exact leads_link linked laid holds.1 holds.2.1 holds.2.2
  | take size best =>
    exact leads_take linked laid holds
  | grow minPayload k =>
    rw [Leads, heapStatement]
    split
    · exact heapAt_afterGrow linked laid false k
    · exact ⟨nodes, linked, laid, trivial⟩
  | growing k pc | insertFirst block pageCount k | done result =>
    exact ⟨nodes, linked, laid, holds⟩
  | growSize block pageCount k =>
    exact leads_growSize linked laid holds.1 holds.2
  | growFree block pageCount k =>
    exact leads_growFree linked laid holds
  | insert block pageCount k =>
    exact leads_insert linked laid holds
  | insertHead block pageCount k =>
    exact leads_insertHead linked laid holds
  | setHead block pageCount k =>
    exact leads_setHead linked laid holds.1 holds.2
  | insertWalk block current pageCount k =>
    exact leads_insertWalk linked laid holds.1 holds.2
  | insertNext block current pageCount k =>
    exact leads_insertNext linked laid holds.1 holds.2
  | insertLink block current pageCount k =>
    exact leads_insertLink linked laid holds.1 holds.2.1 holds.2.2
  | addPages pageCount k =>
    exact ⟨nodes, linked.congr rfl fun _ _ => rfl, laid.congr (fun _ _ => rfl) fun _ _ => rfl,
      trivial⟩
  | mergeAt current k =>
    exact leads_mergeAt linked laid holds
  | mergeSize current k =>
    obtain ⟨member, more, free, goneFree, adjacent⟩ := holds
    obtain ⟨first, second, rfl⟩ := linked.following member more
    exact ⟨first, mem.next current, second, linked.congr rfl fun _ _ => rfl,
      laid.swallow linked.distinct adjacent free goneFree⟩
  | free ptr =>
    rw [Leads, heapStatement]
    split
    · exact ⟨nodes, linked, laid, trivial⟩
    · case isFalse present =>
      obtain ⟨block, rfl, spare⟩ := holds.resolve_left present
      rw [Nat.add_sub_cancel]
      exact ⟨nodes, linked, laid, spare⟩
  | mark block =>
    exact ⟨nodes, linked.congr rfl fun _ _ => rfl, laid.setFree holds.2.2 true, trivial⟩

end Statements

theorem leads_mergeNext (holds : HeapAt mem owned live (some (.mergeNext current k))) :
    Leads mem owned live (.mergeNext current k) := by
  rw [Leads, heapStatement]
  obtain ⟨first, gone, second, linked, laid⟩ := holds
  obtain ⟨middle, -, -, atGone, -⟩ := segment_append.mp linked.segment
  have removed := linked.segment.removeAfter linked.distinct
  refine ⟨first ++ current :: second, ⟨?_, ?_⟩, laid.setNext _, Or.inr (by simp)⟩
  · dsimp only
    rw [atGone]
    exact removed
  · refine linked.distinct.sublist (List.Sublist.append_left ?_ first)
    exact (List.sublist_cons_self gone second).cons_cons current

/-- Every statement of the heap leads to a state in which its next statement may be
executed. -/
theorem heapStatement_at {pc : HeapPc} (holds : HeapAt mem owned live (some pc)) :
    HeapAt (heapStatement mem pc).2 owned live (some (heapStatement mem pc).1) := by
  by_cases merging : ∃ current k, pc = .mergeNext current k
  · obtain ⟨current, k, rfl⟩ := merging
    exact leads_mergeNext holds
  · have linkedOnce : ∀ current k, pc ≠ .mergeNext current k := fun current k same =>
      merging ⟨current, k, same⟩
    obtain ⟨nodes, linked, laid, holds⟩ : ∃ nodes, Linked mem nodes ∧ Laid mem owned live nodes ∧
        pc.Holds mem owned live nodes := by
      cases pc with
      | mergeNext current k => exact absurd rfl (linkedOnce current k)
      | _ => exact holds
    exact leads_of_holds linked laid linkedOnce holds

end MiniOS.Preemption
