import MiniOS.SchedulerStructure

/-!
# The order of wake-ups

Tasks on all channels share one blocked list.  They are appended to it when they block and taken
out of its middle when they are woken, so at all times it is sorted by the time at which its tasks
blocked.
-/

namespace MiniOS.Tasks

open Function Machine LinkedSegments

variable {Channel Proc : Type*}

/-- The scheduler, with the number of calls so far and the call in which each task blocked last. -/
structure Timed (Channel Proc : Type*) where
  scheduler : Option (Scheduler Channel Proc)
  calls : Nat
  since : Nat → Nat

/-- The blocked list consists of these tasks, and they are the tasks that are blocked. -/
structure Queued (s : Scheduler Channel Proc) (waiting : List Nat) : Prop where
  segment : Segment s.blockedNext s.blockedTasks waiting 0
  blocked : ∀ task ∈ s.tasks, s.state task = .blocked ↔ task ∈ waiting

structure InOrder (idle calls : Nat) (since : Nat → Nat) (s : Scheduler Channel Proc)
    (ring waiting : List Nat) : Prop where
  structured : Structured idle s ring waiting
  sorted : waiting.Pairwise fun earlier later => since earlier < since later
  past : ∀ task ∈ waiting, since task < calls

variable {s : Scheduler Channel Proc} {idle calls : Nat} {since : Nat → Nat} {ring waiting : List Nat}

theorem Structured.queued (structured : Structured idle s ring waiting) : Queued s waiting := by
  refine ⟨structured.waiting, fun task isTask => ⟨fun isBlocked => ?_, structured.blockedState task⟩⟩
  refine (List.mem_append.mp (structured.tasksPerm.mem_iff.mp isTask)).resolve_left fun isReady => ?_
  rw [structured.readyState task isReady] at isBlocked
  exact nomatch isBlocked

variable [DecidableEq Channel] [DecidableEq Proc]

def timedStep (t : Timed Channel Proc) (op : SchedulerOp Channel Proc) : Timed Channel Proc where
  scheduler := schedulerStep t.scheduler op
  calls := t.calls + 1
  since :=
    match t.scheduler, op with
    | some s, .taskBlockCurrent _ => update t.since s.currentTask t.calls
    | _, _ => t.since

theorem InOrder.step (inOrder : InOrder idle calls since s ring waiting)
    {op : SchedulerOp Channel Proc} (allowed : CallAllowed idle s op) :
    ∃ s' ring' waiting', schedulerCall s op = some s' ∧
      InOrder idle (calls + 1) (timedStep ⟨some s, calls, since⟩ op).since s' ring' waiting' := by
  obtain ⟨s', ring', waiting', result, structured, requeued⟩ :=
    inOrder.structured.schedulerCall allowed
  refine ⟨s', ring', waiting', result, ?_⟩
  cases op with
  | taskBlockCurrent channel =>
    obtain rfl : waiting' = waiting ++ [s.currentTask] := requeued
    change InOrder idle (calls + 1) (update since s.currentTask calls) s' ring' _
    -- the task that blocks was not in the list
    have others : ∀ task ∈ waiting, update since s.currentTask calls task = since task := by
      intro task member
      refine update_of_ne ?_ _ _
      rintro rfl
      exact (List.nodup_append.mp structured.blockedDistinct).2.2 _ member _ (by simp) rfl
    refine ⟨structured, List.pairwise_append.mpr ⟨?_, List.pairwise_singleton _ _, ?_⟩, ?_⟩
    · refine inOrder.sorted.imp_of_mem fun {earlier later} first second before => ?_
      rwa [others earlier first, others later second]
    · intro task member last isLast
      obtain rfl := List.mem_singleton.mp isLast
      rw [others task member, update_self]
      exact inOrder.past task member
    · intro task member
      rcases List.mem_append.mp member with old | new
      · rw [others task old]
        exact Nat.lt_succ_of_lt (inOrder.past task old)
      · rw [List.mem_singleton.mp new, update_self]
        exact Nat.lt_succ_self calls
  | _ =>
    have fewer : waiting'.Sublist waiting := requeued
    exact ⟨structured, inOrder.sorted.sublist fewer, fun task member =>
      Nat.lt_succ_of_lt (inOrder.past task (fewer.subset member))⟩

variable {idleTaskRunner kernelSpace mainTask idleTask idleStack : Nat}

/-- After every history the blocked list is sorted by the time at which its tasks blocked.
`task_wake_one` takes the first task on its channel out of it, `task_wake_all` all of them and
`task_kill_blocked` all tasks of a process, and these become ready. -/
theorem wakes_in_order (runner : idleTaskRunner ≠ 0) (space : kernelSpace ≠ 0)
    (frames : BootFrames mainTask idleTask idleStack) (ops : List (SchedulerOp Channel Proc))
    (admissible : Admissible timedStep (fun t => StepAllowed idleTask t.scheduler) ⟨some (taskingInit
      unstarted idleTaskRunner kernelSpace mainTask idleTask idleStack), 0, fun _ => 0⟩ ops) :
    let reached := run timedStep ⟨some (taskingInit unstarted idleTaskRunner kernelSpace mainTask
      idleTask idleStack), 0, fun _ => 0⟩ ops
    ∃ s waiting, reached.scheduler = some s ∧ Queued s waiting ∧
      (waiting.Pairwise fun earlier later => reached.since earlier < reached.since later) ∧
      (∀ channel, ∃ s', taskWakeOne s channel = some s' ∧ s'.tasks = s.tasks ∧
        Queued s' (waiting.eraseP fun task => s.waitChannel task = channel)) ∧
      (∀ channel, ∃ s', taskWakeAll s channel = some s' ∧ s'.tasks = s.tasks ∧
        Queued s' (waiting.filter fun task => s.waitChannel task ≠ channel)) ∧
      ∀ process, ∃ s', taskKillBlocked s (some process) = some s' ∧ s'.tasks = s.tasks ∧
        Queued s' (waiting.filter fun task => s.process task ≠ some process) := by
  have kept := run_invariant_of_admissible
    (fun t : Timed Channel Proc => ∃ s ring waiting, t.scheduler = some s ∧
      InOrder idleTask t.calls t.since s ring waiting) ?_ ?_ admissible
  · obtain ⟨s, ring, waiting, result, inOrder⟩ := kept
    have structured := inOrder.structured
    refine ⟨s, waiting, result, structured.queued, inOrder.sorted, fun channel => ?_,
      fun channel => ?_, fun process => ?_⟩
    · obtain ⟨s', ring', _, left, woke, structured', wakes⟩ := structured.wakeFrom
        (fun waitChannel _ _ => decide (waitChannel = channel)) true false
      obtain rfl := wakes.rest
      exact ⟨s', woke, wakes.keeps.tasks, structured'.queued⟩
    · obtain ⟨s', ring', _, left, woke, structured', wakes⟩ := structured.wakeFrom
        (fun waitChannel _ _ => decide (waitChannel = channel)) false false
      obtain rfl := wakes.rest
      exact ⟨s', woke, wakes.keeps.tasks, by simpa using structured'.queued⟩
    · obtain ⟨s', ring', left, killed, structured', keeps, rfl, -⟩ :=
        structured.taskKillBlocked process
      exact ⟨s', killed, keeps.tasks, structured'.queued⟩
  · rintro ⟨_, calls, since⟩ op ⟨s, ring, waiting, rfl, inOrder⟩ allowed
    exact inOrder.step (allowed s rfl)
  · obtain ⟨ring, structured⟩ := taskingInit_structured runner space frames
    exact ⟨_, ring, [], rfl, structured, .nil, nofun⟩

/-- Two tasks block on one channel. -/
def twoTasks : List (SchedulerOp Nat Nat) :=
  [.createTask 1 1 (some 7) 4 5, .taskBlockCurrent (some 9), .taskBlockCurrent (some 9)]

/-- Of the two, the task that blocked first is woken. -/
theorem wakes_in_order_twoTasks :
    ∃ s s', (run timedStep ⟨some (taskingInit unstarted 1 1 1 2 3), 0, fun _ => 0⟩
        twoTasks).scheduler = some s ∧
      Queued s [1, 4] ∧ taskWakeOne s (some 9) = some s' ∧ Queued s' [4] := by
  have one : 1 ≠ 0 := by decide
  obtain ⟨s, waiting, reached, queued, sorted, wakesOne, -⟩ := wakes_in_order one one
    (⟨by decide, by decide⟩ : BootFrames 1 2 3) twoTasks (by decide)
  have links : (run timedStep ⟨some (taskingInit unstarted 1 1 1 2 3), 0, fun _ => 0⟩
      twoTasks).scheduler.map (fun s => (s.blockedTasks, s.blockedNext 1, s.blockedNext 4,
        s.waitChannel 1)) = some (1, 4, 0, some 9) := by decide
  rw [reached] at links
  simp only [Option.map_some, Option.some.injEq, Prod.mk.injEq] at links
  obtain ⟨first, second, last, channel⟩ := links
  obtain rfl : waiting = [1, 4] := by
    have segment := queued.segment
    rw [first] at segment
    rcases waiting with _ | ⟨task, _ | ⟨later, rest⟩⟩
    · cases segment
    · obtain ⟨rfl, segment⟩ := segment
      rw [second] at segment
      cases segment
    · obtain ⟨rfl, segment⟩ := segment
      rw [second] at segment
      obtain ⟨rfl, segment⟩ := segment
      rw [last] at segment
      rcases rest with _ | ⟨none, rest⟩
      · rfl
      · -- the null pointer has never blocked
        obtain ⟨rfl, -⟩ := segment
        have before := (List.pairwise_cons.mp (List.pairwise_cons.mp sorted).2).1 0 (by simp)
        exact absurd before (by decide)
  obtain ⟨s', woke, -, left⟩ := wakesOne (some 9)
  refine ⟨s, s', reached, queued, woke, ?_⟩
  simpa [channel] using left

end MiniOS.Tasks
