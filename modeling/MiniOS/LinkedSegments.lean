import Mathlib

/-!
# Lists threaded through memory

Nodes are linked by a function `next`.  `Segment next start nodes stop` says that
following the links from `start` passes exactly `nodes` and arrives at `stop`.
With a null pointer as `stop` this is a list, with `stop = start` it is a ring.
The lemmas describe the pointer assignments that insert and remove a node.
-/

namespace MiniOS.LinkedSegments

variable {Node : Type*}

/-- Following `next` from `start` passes `nodes` and arrives at `stop`. -/
def Segment (next : Node → Node) : Node → List Node → Node → Prop
  | start, [], stop => start = stop
  | start, node :: nodes, stop => start = node ∧ Segment next (next node) nodes stop

variable {next : Node → Node} {start stop node target : Node} {nodes first second : List Node}

@[simp]
theorem segment_nil : Segment next start [] stop ↔ start = stop :=
  Iff.rfl

@[simp]
theorem segment_cons :
    Segment next start (node :: nodes) stop ↔ start = node ∧ Segment next (next node) nodes stop :=
  Iff.rfl

theorem segment_append : Segment next start (first ++ second) stop ↔
      ∃ middle, Segment next start first middle ∧ Segment next middle second stop := by
  induction first generalizing start with
  | nil => simp
  | cons node nodes ih => simp [ih, and_assoc]

variable (segment : Segment next start nodes stop)

include segment

theorem Segment.congr {next' : Node → Node} (same : ∀ node ∈ nodes, next' node = next node) :
    Segment next' start nodes stop := by
  induction nodes generalizing start with
  | nil => exact segment
  | cons node nodes ih =>
    obtain ⟨atNode, rest⟩ := segment
    refine ⟨atNode, ?_⟩
    rw [same node (by simp)]
    exact ih rest fun other member => same other (by simp [member])

theorem Segment.start_eq : start = nodes.headD stop := by
  cases nodes with
  | nil => exact segment
  | cons node nodes => exact segment.1

variable [DecidableEq Node]

theorem Segment.update (other : node ∉ nodes) :
    Segment (Function.update next node target) start nodes stop := by
  refine segment.congr fun inside member => Function.update_of_ne ?_ _ _
  rintro rfl
  exact other member

omit segment

/-- Redirecting the last link of a segment. -/
theorem Segment.redirect {last : Node} (segment : Segment next start (nodes ++ [last]) stop)
    (distinct : (nodes ++ [last]).Nodup) :
    Segment (Function.update next last target) start (nodes ++ [last]) target := by
  obtain ⟨middle, early, late⟩ := segment_append.mp segment
  have notEarly : last ∉ nodes := by
    rw [List.nodup_append] at distinct
    exact fun member => distinct.2.2 last member last (by simp) rfl
  refine segment_append.mpr ⟨middle, early.update notEarly, ?_⟩
  simpa using late.1

/-- `new->next = node->next; node->next = new`. -/
theorem Segment.insertAfter {new : Node} (segment : Segment next start (first ++ node :: second) stop)
    (distinct : (first ++ node :: second).Nodup) (fresh : new ∉ first ++ node :: second) :
    Segment (Function.update (Function.update next new (next node)) node new) start
      (first ++ node :: new :: second) stop := by
  obtain ⟨middle, early, atNode, late⟩ := segment_append.mp segment
  rw [List.nodup_middle, List.nodup_cons] at distinct
  simp only [List.mem_append, List.mem_cons, not_or] at distinct fresh
  obtain ⟨⟨nodeEarly, nodeLate⟩, -⟩ := distinct
  obtain ⟨newEarly, newNode, newLate⟩ := fresh
  refine segment_append.mpr ⟨middle, (early.update newEarly).update nodeEarly, atNode, ?_⟩
  rw [Function.update_self]
  refine ⟨rfl, ?_⟩
  rw [Function.update_of_ne newNode, Function.update_self]
  exact (late.update newLate).update nodeLate

/-- `node->next = node->next->next`. -/
theorem Segment.removeAfter {gone : Node}
    (segment : Segment next start (first ++ node :: gone :: second) stop)
    (distinct : (first ++ node :: gone :: second).Nodup) :
    Segment (Function.update next node (next gone)) start (first ++ node :: second) stop := by
  obtain ⟨middle, early, atNode, atGone, late⟩ := segment_append.mp segment
  rw [List.nodup_middle, List.nodup_cons] at distinct
  simp only [List.mem_append, List.mem_cons, not_or] at distinct
  obtain ⟨⟨nodeEarly, -, nodeLate⟩, -⟩ := distinct
  refine segment_append.mpr ⟨middle, early.update nodeEarly, atNode, ?_⟩
  rw [Function.update_self]
  exact late.update nodeLate

/-- Walk along the links to the node whose link is `target`, for a number of
rounds: `while (node->next != target) node = node->next`. -/
def lastBefore (next : Node → Node) (target : Node) : Nat → Node → Option Node
  | 0, _ => none
  | rounds + 1, node =>
    if next node = target then some node else lastBefore next target rounds (next node)

/-- The walk ends at the last node of a segment that leads to the target. -/
theorem Segment.lastBefore_eq {last : Node} {rounds : Nat}
    (segment : Segment next start (nodes ++ [last]) target)
    (notPassed : target ∉ (nodes ++ [last]).tail) (enough : nodes.length < rounds) :
    lastBefore next target rounds start = some last := by
  obtain ⟨rounds, rfl⟩ : ∃ fewer, rounds = fewer + 1 := ⟨rounds - 1, by omega⟩
  induction nodes generalizing start rounds with
  | nil =>
    obtain ⟨rfl, atTarget⟩ := segment
    rw [lastBefore, if_pos (segment_nil.mp atTarget)]
  | cons node nodes ih =>
    obtain ⟨rfl, following⟩ := segment
    have enoughLeft : nodes.length < rounds := by
      simp only [List.length_cons] at enough
      omega
    obtain ⟨fewer, rfl⟩ : ∃ fewer, rounds = fewer + 1 := ⟨rounds - 1, by omega⟩
    have notNext : next start ≠ target := by
      intro atTarget
      refine notPassed ?_
      cases nodes with
      | nil =>
        obtain ⟨sameLast, -⟩ := following
        simp [← sameLast, atTarget]
      | cons second nodes =>
        obtain ⟨sameSecond, -⟩ := following
        simp [← sameSecond, atTarget]
    rw [lastBefore, if_neg notNext]
    refine ih following (fun member => notPassed ?_) fewer enoughLeft
    exact List.mem_of_mem_tail member

section Rings

omit [DecidableEq Node]

theorem Segment.rotate {entry : Node} (first : List Node)
    (ring : Segment next entry (first ++ node :: second) entry) :
    Segment next node (node :: (second ++ first)) node := by
  obtain ⟨middle, early, atNode, late⟩ := segment_append.mp ring
  subst atNode
  exact ⟨rfl, segment_append.mpr ⟨entry, late, early⟩⟩

theorem Segment.exists_rotation {entry : Node} (ring : Segment next entry nodes entry)
    (member : node ∈ nodes) :
    ∃ rest, Segment next node (node :: rest) node ∧ (node :: rest).Perm nodes := by
  obtain ⟨first, second, rfl⟩ := List.append_of_mem member
  refine ⟨second ++ first, ring.rotate first, ?_⟩
  rw [← List.cons_append]
  exact List.perm_append_comm

end Rings

end MiniOS.LinkedSegments
