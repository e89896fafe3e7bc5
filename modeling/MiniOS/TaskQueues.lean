import Mathlib

/-!
# Ready and blocked tasks

What the ready ring and the blocked list of a scheduler stand for: the tasks that
can run, and the tasks that wait, each with the channel it waits on, the one that
has waited longest first.  Every operation is a function on these two lists.
-/

namespace MiniOS

/-- The tasks of a scheduler, with the process that each belongs to and the mark for
termination. -/
structure TaskQueues (Channel Proc : Type*) where
  ready : List Nat
  blocked : List (Nat × Channel)
  process : Nat → Option Proc
  killPending : Nat → Bool

variable {Channel Proc : Type*}

namespace TaskQueues

variable (q : TaskQueues Channel Proc)

def tasks : List Nat := q.ready ++ q.blocked.map Prod.fst

/-- `task_block_current` of a task. -/
def block (task : Nat) (channel : Channel) : TaskQueues Channel Proc :=
  { q with ready := q.ready.erase task, blocked := q.blocked ++ [(task, channel)] }

def wakeWhere (selects : Nat × Channel → Bool) : TaskQueues Channel Proc :=
  { q with
    ready := (q.blocked.filter selects).map Prod.fst ++ q.ready
    blocked := q.blocked.filter fun entry => !selects entry }

def wakeAll [DecidableEq Channel] (channel : Channel) : TaskQueues Channel Proc :=
  q.wakeWhere fun entry => entry.2 = channel

def wakeTask (task : Nat) : TaskQueues Channel Proc :=
  q.wakeWhere fun entry => entry.1 = task

def wakeOne [DecidableEq Channel] (channel : Channel) : TaskQueues Channel Proc :=
  match q.blocked.find? fun entry => entry.2 = channel with
  | none => q
  | some entry => q.wakeTask entry.1

/-- `task_kill_blocked`: mark the tasks of a process and wake those that wait. -/
def killProcess [DecidableEq Proc] (process : Proc) : TaskQueues Channel Proc :=
  { q.wakeWhere fun entry => q.process entry.1 = some process with
    killPending := fun task =>
      q.killPending task || decide (task ∈ q.tasks ∧ q.process task = some process) }

def exit (task : Nat) : TaskQueues Channel Proc :=
  { q with ready := q.ready.erase task }

def create (task : Nat) (process : Option Proc) : TaskQueues Channel Proc :=
  { q with
    ready := task :: q.ready
    process := Function.update q.process task process
    killPending := Function.update q.killPending task false }

variable {q} {task other : Nat} {channel : Channel}
  {selects : Nat × Channel → Bool}

theorem mem_tasks : task ∈ q.tasks ↔ task ∈ q.ready ∨ ∃ channel, (task, channel) ∈ q.blocked := by
  simp [tasks]

theorem mem_blocked_wakeWhere {entry : Nat × Channel} :
    entry ∈ (q.wakeWhere selects).blocked ↔ entry ∈ q.blocked ∧ selects entry = false := by
  simp [wakeWhere]

theorem tasks_wakeWhere : (q.wakeWhere selects).tasks.Perm q.tasks := by
  have split : (q.blocked.filter selects ++ q.blocked.filter fun entry => !selects entry).Perm
      q.blocked := List.filter_append_perm selects q.blocked
  have moved := (split.map Prod.fst).append_left q.ready
  rw [List.map_append, ← List.append_assoc] at moved
  exact (List.perm_append_comm.append_right _).trans moved

/-- `task_wake_one` wakes a task that waits on the channel, if there is one. -/
theorem wakeOne_cases [DecidableEq Channel] (q : TaskQueues Channel Proc) (channel : Channel) :
    q.wakeOne channel = q ∧ (∀ task, (task, channel) ∉ q.blocked) ∨
      ∃ task, (task, channel) ∈ q.blocked ∧ q.wakeOne channel = q.wakeTask task := by
  unfold wakeOne
  cases found : q.blocked.find? fun entry => entry.2 = channel with
  | none =>
    left
    refine ⟨rfl, fun task member => ?_⟩
    exact List.find?_eq_none.mp found _ member (decide_eq_true rfl)
  | some entry =>
    right
    have same : entry.2 = channel := by simpa using List.find?_some found
    refine ⟨entry.1, ?_, rfl⟩
    rw [← same]
    exact List.mem_of_find?_eq_some found

theorem tasks_wakeOne [DecidableEq Channel] (q : TaskQueues Channel Proc) (channel : Channel) :
    (q.wakeOne channel).tasks.Perm q.tasks := by
  rcases wakeOne_cases q channel with ⟨same, -⟩ | ⟨task, -, wakes⟩
  · rw [same]
  · rw [wakes]
    exact tasks_wakeWhere

theorem tasks_exit (isReady : task ∈ q.ready) : (q.exit task).tasks = q.tasks.erase task :=
  (List.erase_append_left _ isReady).symm

theorem mem_tasks_of_ready (isReady : task ∈ q.ready) : task ∈ q.tasks :=
  List.mem_append_left _ isReady

theorem tasks_block (isReady : task ∈ q.ready) (channel : Channel) :
    (q.block task channel).tasks.Perm q.tasks := by
  have moved : (q.ready.erase task ++ (q.blocked.map Prod.fst ++ [task])).Perm
      (task :: q.ready.erase task ++ q.blocked.map Prod.fst) := by
    rw [← List.append_assoc]
    exact List.perm_append_singleton task _
  unfold tasks block
  rw [List.map_append, List.map_singleton]
  exact moved.trans ((List.perm_cons_erase isReady).symm.append_right _)

/-- Some tasks have been woken, and nothing else has happened. -/
structure Woken (q after : TaskQueues Channel Proc) : Prop where
  tasks : after.tasks.Perm q.tasks
  process : after.process = q.process
  killPending : after.killPending = q.killPending
  blocked : ∀ entry ∈ after.blocked, entry ∈ q.blocked

theorem Woken.refl (q : TaskQueues Channel Proc) : Woken q q :=
  ⟨.refl _, rfl, rfl, fun _ => id⟩

theorem Woken.trans {middle after : TaskQueues Channel Proc} (first : Woken q middle)
    (second : Woken middle after) : Woken q after where
  tasks := second.tasks.trans first.tasks
  process := second.process.trans first.process
  killPending := second.killPending.trans first.killPending
  blocked entry member := first.blocked entry (second.blocked entry member)

theorem woken_wakeWhere (q : TaskQueues Channel Proc) (selects : Nat × Channel → Bool) :
    Woken q (q.wakeWhere selects) :=
  ⟨tasks_wakeWhere, rfl, rfl, fun _ member => (mem_blocked_wakeWhere.mp member).1⟩

end TaskQueues

end MiniOS
