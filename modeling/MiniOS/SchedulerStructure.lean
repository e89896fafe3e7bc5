import MiniOS.RunInvariant
import MiniOS.SchedulerLists

/-!
# The structure of the scheduler over whole runs

From the state that `tasking_init` leaves, any sequence of calls of the functions
of `task.c` keeps one ready ring and one blocked list that share out the tasks,
and gives the frames of every task that exits back exactly once.  The exit
callback of `task_exit` needs no case of its own: what it does to the lists are
further calls of the wake-up functions.
-/

namespace MiniOS.Tasks

open Function Machine LinkedSegments

variable {Channel Proc : Type*} {s : Scheduler Channel Proc} {idle : Nat}
  {ring blocked : List Nat}

/-- The frames of a task: its structure, and its stack unless it is the main task. -/
def taskFrames (s : Scheduler Channel Proc) (task : Nat) : List Nat :=
  if s.stackBottom task = 0 then [task] else [task, s.stackBottom task]

def retiredTasks (s : Scheduler Channel Proc) : List Nat :=
  if s.retiredTask = 0 then [] else [s.retiredTask]

def ownedFrames (s : Scheduler Channel Proc) : List Nat :=
  (s.tasks ++ retiredTasks s).flatMap (taskFrames s)

/-- The retired task in the form in which exits and reclamations are recorded. -/
def awaiting (s : Scheduler Channel Proc) : List (Nat × Nat) :=
  (retiredTasks s).map fun task => (task, s.stackBottom task)

structure Structured (idle : Nat) (s : Scheduler Channel Proc) (ring blocked : List Nat) : Prop
    extends Lists idle s ring blocked where
  tasksPerm : s.tasks.Perm (ring ++ blocked)
  framesDistinct : (ownedFrames s).Nodup
  ledger : s.exits = s.reaped ++ awaiting s

theorem mem_taskFrames (s : Scheduler Channel Proc) (task : Nat) : task ∈ taskFrames s task := by
  unfold taskFrames
  split <;> simp

variable {task : Nat}

theorem mem_ownedFrames (member : task ∈ s.tasks ++ retiredTasks s) : task ∈ ownedFrames s :=
  List.mem_flatMap.mpr ⟨task, member, mem_taskFrames s task⟩

section SameTasks

variable {s' : Scheduler Channel Proc} (stackBottom : s'.stackBottom = s.stackBottom)

include stackBottom

theorem taskFrames_congr : taskFrames s' = taskFrames s := by
  funext task
  rw [taskFrames, taskFrames, stackBottom]

variable (retiredTask : s'.retiredTask = s.retiredTask)

include retiredTask

theorem ownedFrames_congr (tasks : s'.tasks = s.tasks) : ownedFrames s' = ownedFrames s := by
  rw [ownedFrames, ownedFrames, retiredTasks, retiredTasks, taskFrames_congr stackBottom, tasks,
    retiredTask]

theorem awaiting_congr : awaiting s' = awaiting s := by
  rw [awaiting, awaiting, retiredTasks, retiredTasks, retiredTask, stackBottom]

end SameTasks

namespace Structured

variable (structured : Structured idle s ring blocked)

include structured

theorem enough : (ring ++ blocked).length ≤ s.tasks.length :=
  Nat.le_of_eq structured.tasksPerm.length_eq.symm

theorem retired_not_mem (some : s.retiredTask ≠ 0) : s.retiredTask ∉ s.tasks := by
  intro member
  have distinct := structured.framesDistinct
  rw [ownedFrames, List.flatMap_append, List.nodup_append] at distinct
  have own := mem_taskFrames s s.retiredTask
  have retired : s.retiredTask ∈ retiredTasks s := by simp [retiredTasks, some]
  exact distinct.2.2 _ (List.mem_flatMap.mpr ⟨_, member, own⟩) _
    (List.mem_flatMap.mpr ⟨_, retired, own⟩) rfl

variable {s' : Scheduler Channel Proc}

variable {ring' : List Nat}

/-- The invariant from new lists, when tasks, frames and records are as before. -/
theorem of_keeps {blocked' : List Nat} (lists : Lists idle s' ring' blocked')
    (perm : (ring' ++ blocked').Perm (ring ++ blocked)) (tasks : s'.tasks = s.tasks)
    (retiredTask : s'.retiredTask = s.retiredTask) (stackBottom : s'.stackBottom = s.stackBottom)
    (exits : s'.exits = s.exits) (reaped : s'.reaped = s.reaped) :
    Structured idle s' ring' blocked' where
  toLists := lists
  tasksPerm := by
    rw [tasks]
    exact structured.tasksPerm.trans perm.symm
  framesDistinct := by
    rw [ownedFrames_congr stackBottom retiredTask tasks]
    exact structured.framesDistinct
  ledger := by
    rw [exits, reaped, awaiting_congr stackBottom retiredTask]
    exact structured.ledger

theorem reaped_eq : (reapRetiredTask s).reaped = s.exits := by
  rw [structured.ledger]
  unfold reapRetiredTask awaiting retiredTasks
  split <;> simp

theorem reap : Structured idle (reapRetiredTask s) ring blocked where
  toLists := by
    rw [reapRetiredTask_eq]
    exact { structured.toLists with }
  tasksPerm := by
    rw [reapRetiredTask_eq]
    exact structured.tasksPerm
  framesDistinct := by
    rw [reapRetiredTask_eq]
    refine structured.framesDistinct.sublist ?_
    simp only [ownedFrames, retiredTasks, if_true, List.append_nil, List.flatMap_append]
    exact List.sublist_append_left _ _
  ledger := by
    have all := structured.reaped_eq
    rw [reapRetiredTask_eq]
    simp [awaiting, retiredTasks, all]

theorem schedule : ∃ ring', Structured idle (schedule s) ring' blocked := by
  obtain ⟨ring', lists, perm, result⟩ := structured.toLists.schedule
  have reclaimed := structured.reap
  refine ⟨ring', reclaimed.of_keeps lists (perm.append_right blocked) ?_ ?_ ?_ ?_ ?_⟩ <;>
    rw [result]

theorem taskBlockCurrent (channel : Option Channel) (notIdle : s.currentTask ≠ idle) :
    ∃ s' ring', taskBlockCurrent s channel = some s' ∧
      Structured idle s' ring' (blocked ++ [s.currentTask]) ∧ Blocks channel s s' := by
  obtain ⟨s', ring', result, ringEq, lists, blocks⟩ :=
    structured.toLists.taskBlockCurrent channel notIdle structured.enough
  refine ⟨s', ring', result, ?_, blocks⟩
  refine structured.of_keeps lists ?_ blocks.tasks blocks.retiredTask blocks.stackBottom
    blocks.exits blocks.reaped
  rw [ringEq, ← List.append_assoc, List.cons_append]
  exact List.perm_append_singleton _ _

/-- A wake-up function that moves the tasks of `woken` to the ready list. -/
theorem of_woken {woken left : List Nat} (lists : Lists idle s' ring' left)
    (ringPerm : ring'.Perm (woken ++ ring)) (split : blocked.Perm (woken ++ left))
    (keeps : KeepsTasks s s') : Structured idle s' ring' left := by
  refine structured.of_keeps lists ?_ keeps.tasks keeps.retiredTask keeps.stackBottom
    keeps.exits keeps.reaped
  have moved : (ring' ++ left).Perm (ring ++ (woken ++ left)) := by
    rw [← List.append_assoc]
    exact (ringPerm.trans List.perm_append_comm).append_right left
  exact moved.trans (split.symm.append_left ring)

theorem wakeFrom (selects : Option Channel → Option Proc → Nat → Bool) (once kill : Bool) :
    ∃ s' ring' woken left, wakeFrom selects once kill s.tasks.length none s = some s' ∧
      Structured idle s' ring' left ∧ Wakes selects once kill s s' blocked woken left := by
  have enough := structured.enough
  rw [List.length_append] at enough
  have lists : Lists idle s ring ([] ++ blocked) := structured.toLists
  obtain ⟨s', ring', woken, left, result, lists', ringPerm, wakes⟩ :=
    lists.wakeFrom selects once kill (by omega : blocked.length ≤ s.tasks.length)
  exact ⟨s', ring', woken, left, result,
    structured.of_woken lists' ringPerm wakes.split wakes.keeps, wakes⟩

theorem taskKillBlocked [DecidableEq Proc] (process : Proc) :
    ∃ s' ring' left, taskKillBlocked s (some process) = some s' ∧
      Structured idle s' ring' left ∧ KeepsTasks s s' ∧
      left = (blocked.filter fun task => s.process task ≠ some process) ∧
      (∀ task ∈ left, s'.waitChannel task = s.waitChannel task) ∧
      ∀ task, s'.killPending task = (s.killPending task ||
        (decide (task ∈ s.tasks) && decide (s.process task = some process))) := by
  obtain ⟨s', ring', woken, left, result, lists, ringPerm, split, keeps, rest, channels, flags⟩ :=
    structured.toLists.taskKillBlocked process structured.enough
  refine ⟨s', ring', left, result, structured.of_woken lists ringPerm split keeps, keeps, rest,
    channels, fun task => ?_⟩
  rw [flags, decide_eq_decide.mpr structured.tasksPerm.mem_iff]

theorem taskExit (notIdle : s.currentTask ≠ idle) :
    ∃ s' ring', taskExit s = some s' ∧ Structured idle s' ring' blocked ∧ Exits s s' := by
  obtain ⟨s', ring', result, ringEq, lists, exits⟩ :=
    structured.toLists.taskExit notIdle structured.enough
  have currentTask : s.currentTask ∈ s.tasks :=
    structured.tasksPerm.mem_iff.mpr (List.mem_append_left _ structured.toLists.current_mem)
  have retired : retiredTasks s' = [s.currentTask] := by
    simp [retiredTasks, exits.retiredTask, structured.toLists.current_ne_zero]
  refine ⟨s', ring', result, ⟨lists, ?_, ?_, ?_⟩, exits⟩
  · rw [exits.tasks]
    have perm := structured.tasksPerm.erase s.currentTask
    rwa [ringEq, List.cons_append, List.erase_cons_head] at perm
  · rw [ownedFrames, retired, exits.tasks, taskFrames_congr exits.stackBottom]
    have perm : (s.tasks.erase s.currentTask ++ [s.currentTask]).Perm s.tasks :=
      (List.perm_append_singleton _ _).trans (List.perm_cons_erase currentTask).symm
    refine (perm.flatMap_right _).nodup_iff.mpr ?_
    have distinct := structured.framesDistinct
    rw [ownedFrames, List.flatMap_append] at distinct
    exact (List.nodup_append.mp distinct).1
  · rw [exits.exits, exits.reaped, structured.reaped_eq, awaiting, retired, exits.stackBottom]
    rfl

end Structured

section Creating

/-- What is assumed of the two answers of `pmm_alloc_block`: each is null or a
frame that the scheduler does not have. -/
def FreshFrames (s : Scheduler Channel Proc) (newTask stack : Nat) : Prop :=
  newTask = 0 ∨ newTask ∉ ownedFrames s ∧ (stack = 0 ∨ stack ∉ ownedFrames s ∧ stack ≠ newTask)

variable {newTask : Nat}

theorem ownedFrames_writeNewTask (fresh : newTask ∉ ownedFrames s) (stack : Nat) :
    ownedFrames (writeNewTask s newTask stack) = ownedFrames s := by
  refine List.flatMap_congr fun task member => ?_
  have different : task ≠ newTask := by
    rintro rfl
    exact fresh (mem_ownedFrames member)
  simp only [taskFrames, writeNewTask, update_of_ne different]

/-- Writing a structure that belongs to no task changes no list. -/
theorem Structured.writeNewTask (structured : Structured idle s ring blocked)
    (fresh : newTask ∉ ownedFrames s) (stack : Nat) :
    Structured idle (writeNewTask s newTask stack) ring blocked := by
  have notTask : ∀ task ∈ s.tasks ++ retiredTasks s, task ≠ newTask := by
    rintro task member rfl
    exact fresh (mem_ownedFrames member)
  have notListed : ∀ task ∈ ring ++ blocked, task ≠ newTask := fun task member =>
    notTask task (List.mem_append_left _ (structured.tasksPerm.mem_iff.mpr member))
  exact { structured with
    waiting := structured.waiting.update fun member =>
      notListed newTask (List.mem_append_right _ member) rfl
    readyState := by
      intro task member
      simp only [Tasks.writeNewTask, update_of_ne (notListed task (List.mem_append_left _ member))]
      exact structured.readyState task member
    blockedState := by
      intro task member
      simp only [Tasks.writeNewTask, update_of_ne (notListed task (List.mem_append_right _ member))]
      exact structured.blockedState task member
    framesDistinct := by
      rw [ownedFrames_writeNewTask fresh]
      exact structured.framesDistinct
    ledger := by
      have same : awaiting (Tasks.writeNewTask s newTask stack) = awaiting s := by
        refine List.map_congr_left fun task member => ?_
        simp only [Tasks.writeNewTask, update_of_ne (notTask task (List.mem_append_right _ member))]
      rw [same]
      exact structured.ledger }

theorem Structured.createTask (structured : Structured idle s ring blocked)
    (entry addressSpace : Nat) (process : Option Proc) {stack : Nat}
    (fresh : FreshFrames s newTask stack) :
    ∃ ring', Structured idle (createTask s entry addressSpace process newTask stack).2 ring'
      blocked := by
  unfold Tasks.createTask
  by_cases refused : entry = 0 ∨ s.readyQueue = 0 ∨ addressSpace = 0
  · rw [if_pos refused]
    exact ⟨ring, structured⟩
  rw [if_neg refused]
  by_cases noTask : newTask = 0
  · rw [if_pos noTask]
    exact ⟨ring, structured⟩
  rw [if_neg noTask]
  obtain ⟨freshTask, freshStack⟩ := fresh.resolve_left noTask
  have written := structured.writeNewTask freshTask stack
  by_cases noStack : stack = 0
  · simp only [if_pos noStack]
    exact ⟨ring, written⟩
  simp only [if_neg noStack]
  obtain ⟨stackUnowned, stackDiffers⟩ := freshStack.resolve_left noStack
  let created := completeTask (Tasks.writeNewTask s newTask stack) addressSpace process newTask stack
  have lists : Lists idle created ring blocked :=
    { written.toLists with }
  have unlisted : newTask ∉ ring ++ blocked := fun member => freshTask
    (mem_ownedFrames (List.mem_append_left _ (structured.tasksPerm.mem_iff.mpr member)))
  obtain ⟨ring', lists', ringPerm⟩ := lists.addReadyTask unlisted noTask
  have keeps := addReadyTask_keepsTasks created newTask
  refine ⟨ring', lists', ?_, ?_, ?_⟩
  · rw [keeps.tasks]
    exact (structured.tasksPerm.cons newTask).trans (ringPerm.append_right blocked).symm
  · have frames : ownedFrames created = newTask :: stack :: ownedFrames s := by
      rw [← ownedFrames_writeNewTask freshTask stack]
      have own : taskFrames (Tasks.writeNewTask s newTask stack) newTask = [newTask, stack] := by
        simp [taskFrames, Tasks.writeNewTask, noStack]
      exact congrArg (· ++ _) own
    rw [ownedFrames_congr keeps.stackBottom keeps.retiredTask keeps.tasks, frames]
    refine List.nodup_cons.mpr ⟨?_, List.nodup_cons.mpr ⟨stackUnowned, structured.framesDistinct⟩⟩
    rw [List.mem_cons, not_or]
    exact ⟨stackDiffers.symm, freshTask⟩
  · rw [awaiting_congr keeps.stackBottom keeps.retiredTask, keeps.exits, keeps.reaped]
    exact written.ledger

/-- `create_task` leaves the fields of every other task alone. -/
theorem createTask_other (s : Scheduler Channel Proc) (entry addressSpace : Nat)
    (process : Option Proc) (stack : Nat) (other : task ≠ newTask) :
    (createTask s entry addressSpace process newTask stack).2.killPending task =
        s.killPending task ∧
      (createTask s entry addressSpace process newTask stack).2.process task = s.process task ∧
      (createTask s entry addressSpace process newTask stack).2.waitChannel task =
        s.waitChannel task := by
  unfold createTask
  split
  · exact ⟨rfl, rfl, rfl⟩
  split
  · exact ⟨rfl, rfl, rfl⟩
  simp only
  split
  · exact ⟨update_of_ne other _ _, rfl, update_of_ne other _ _⟩
  · simp only
    rw [addReadyTask_killPending, addReadyTask_waitChannel, update_of_ne other,
      (addReadyTask_keepsTasks _ newTask).process]
    exact ⟨update_of_ne other _ _, update_of_ne other _ _, update_of_ne other _ _⟩

end Creating

section Runs

variable {mainTask : Nat}

theorem startMainTask_structured (kernelSpace : Nat) (notNull : mainTask ≠ 0) : Structured mainTask
      (startMainTask (unstarted : Scheduler Channel Proc) kernelSpace mainTask) [mainTask] [] where
  ready := ⟨rfl, update_self ..⟩
  idleReady := by simp
  queueReady := by simp [startMainTask]
  waiting := rfl
  readyState := by simp [startMainTask]
  blockedState := by simp
  distinct := by simp
  notNull := by simpa using notNull.symm
  tasksPerm := List.Perm.refl _
  framesDistinct := by simp [ownedFrames, retiredTasks, taskFrames, startMainTask, unstarted]
  ledger := by simp [awaiting, retiredTasks, startMainTask, unstarted]

/-- The frames that `tasking_init` obtains: three different ones. -/
structure BootFrames (mainTask idleTask idleStack : Nat) : Prop where
  notNull : mainTask ≠ 0 ∧ idleTask ≠ 0 ∧ idleStack ≠ 0
  distinct : mainTask ≠ idleTask ∧ mainTask ≠ idleStack ∧ idleTask ≠ idleStack

variable {idleTaskRunner kernelSpace idleTask idleStack : Nat}

/-- The state after `tasking_init`. -/
theorem taskingInit_structured (runner : idleTaskRunner ≠ 0) (space : kernelSpace ≠ 0)
    (frames : BootFrames mainTask idleTask idleStack) :
    ∃ ring, Structured idleTask
      (taskingInit (unstarted : Scheduler Channel Proc) idleTaskRunner kernelSpace mainTask
        idleTask idleStack) ring [] := by
  obtain ⟨⟨main, idle, stack⟩, mainIdle, mainStack, idleDiffers⟩ := frames
  unfold taskingInit
  rw [if_neg (by simp [unstarted]), if_neg main]
  let started : Scheduler Channel Proc := startMainTask unstarted kernelSpace mainTask
  have structured : Structured mainTask started [mainTask] [] :=
    startMainTask_structured kernelSpace main
  have owned : ownedFrames started = [mainTask] := by
    simp [started, ownedFrames, retiredTasks, taskFrames, startMainTask, unstarted]
  have fresh : FreshFrames started idleTask idleStack := by
    refine Or.inr ⟨?_, Or.inr ⟨?_, idleDiffers.symm⟩⟩
    · rw [owned, List.mem_singleton]
      exact mainIdle.symm
    · rw [owned, List.mem_singleton]
      exact mainStack.symm
  obtain ⟨ring, created⟩ := structured.createTask idleTaskRunner kernelSpace none fresh
  refine ⟨ring, { created with idleReady := ?_ }⟩
  have idleTask_mem : idleTask ∈
      (createTask started idleTaskRunner kernelSpace none idleTask idleStack).2.tasks := by
    have accepted : ¬ (idleTaskRunner = 0 ∨ started.readyQueue = 0 ∨ kernelSpace = 0) := by
      simp [started, startMainTask, runner, space, main]
    unfold createTask
    rw [if_neg accepted, if_neg idle]
    simp only [if_neg stack]
    rw [(addReadyTask_keepsTasks _ idleTask).tasks]
    simp [completeTask]
  simpa using created.tasksPerm.mem_iff.mp idleTask_mem

/-- A ready task runs after fewer switches than there are tasks. -/
theorem Structured.ready_runs (structured : Structured idle s ring blocked)
    (member : task ∈ s.tasks) (ready : s.state task = .ready) :
    ∃ count < s.tasks.length, (Tasks.schedule^[count] s).currentTask = task := by
  rw [structured.tasksPerm.length_eq, List.length_append]
  rcases List.mem_append.mp (structured.tasksPerm.mem_iff.mp member) with inRing | waits
  · obtain ⟨count, few, runs⟩ := structured.toLists.schedule_reaches structured.ready inRing
    exact ⟨count, Nat.lt_add_right _ few, runs⟩
  · rw [structured.blockedState task waits] at ready
    cases ready

theorem ready_runs_idle : ∃ count < 2,
    (schedule^[count] (taskingInit unstarted 1 1 1 2 3 : Scheduler Nat Nat)).currentTask = 2 := by
  obtain ⟨ring, structured⟩ := @taskingInit_structured Nat Nat 1 1 1 2 3 (by decide) (by decide)
    ⟨by decide, by decide⟩
  exact structured.ready_runs (by decide) rfl

/-- The scheduler as a user of `task.c` sees it. -/
structure SchedulerSound (idle : Nat) (s : Scheduler Channel Proc) : Prop where
  /-- The ready list is a ring through the current task and the idle task, the
  blocked list ends, and the two share out the tasks. -/
  lists : ∃ ring blocked,
    Segment s.next s.currentTask ring s.currentTask ∧ s.currentTask ∈ ring ∧ idle ∈ ring ∧
      Segment s.blockedNext s.blockedTasks blocked 0 ∧ 0 ∉ ring ++ blocked ∧
      (ring ++ blocked).Nodup ∧ (∀ task, task ∈ s.tasks ↔ task ∈ ring ++ blocked) ∧
      (∀ task ∈ ring, s.state task = .ready) ∧ ∀ task ∈ blocked, s.state task = .blocked
  /-- A retired task is neither current nor in a list. -/
  retired : s.retiredTask ≠ 0 → s.retiredTask ≠ s.currentTask ∧ s.retiredTask ∉ s.tasks
  /-- No frame is part of two tasks that have not been reclaimed. -/
  frames : (ownedFrames s).Nodup
  /-- The tasks reclaimed so far are those that exited, in order and each once, up
  to the one that is retired. -/
  ledger : s.exits = s.reaped ++ awaiting s
  /-- The next `schedule` or `task_exit` completes the reclamation. -/
  scheduleReaps : (schedule s).reaped = s.exits
  exitReaps : ∀ s', taskExit s = some s' → s'.reaped = s.exits

theorem reaped_of_taskExit (exits : taskExit s = some s') :
    s'.reaped = (reapRetiredTask s).reaped := by
  unfold taskExit at exits
  simp only at exits
  split at exits
  · contradiction
  split at exits
  · contradiction
  split at exits
  · contradiction
  rw [← Option.some.inj exits]
  rfl

theorem Structured.sound (structured : Structured idle s ring blocked) : SchedulerSound idle s where
  lists := ⟨ring, blocked, structured.ready, structured.toLists.current_mem,
    structured.idleReady, structured.waiting, structured.notNull, structured.distinct,
    fun _ => structured.tasksPerm.mem_iff, structured.readyState, structured.blockedState⟩
  retired := by
    intro some
    have gone := structured.retired_not_mem some
    refine ⟨fun same => gone ?_, gone⟩
    rw [same]
    exact structured.tasksPerm.mem_iff.mpr
      (List.mem_append_left _ structured.toLists.current_mem)
  frames := structured.framesDistinct
  ledger := structured.ledger
  scheduleReaps := by
    obtain ⟨-, -, -, result⟩ := structured.toLists.schedule
    rw [result]
    exact structured.reaped_eq
  exitReaps := fun _ exits => (reaped_of_taskExit exits).trans structured.reaped_eq

theorem taskWakeTask_null (s : Scheduler Channel Proc) : taskWakeTask s 0 = some s :=
  if_pos rfl

/-- A call of a function of `task.c`, with the answers of `pmm_alloc_block` where it
asks for frames. -/
inductive SchedulerOp (Channel Proc : Type*) where
  | createTask (entry addressSpace : Nat) (process : Option Proc) (newTask stack : Nat)
  | schedule
  | taskBlockCurrent (channel : Option Channel)
  | taskWakeOne (channel : Option Channel)
  | taskWakeAll (channel : Option Channel)
  | taskWakeTask (task : Nat)
  | taskKillBlocked (process : Option Proc)
  | taskExit

variable [DecidableEq Channel] [DecidableEq Proc]

def schedulerCall (s : Scheduler Channel Proc) :
    SchedulerOp Channel Proc → Option (Scheduler Channel Proc)
  | .createTask entry addressSpace process newTask stack =>
    some (createTask s entry addressSpace process newTask stack).2
  | .schedule => some (schedule s)
  | .taskBlockCurrent channel => taskBlockCurrent s channel
  | .taskWakeOne channel => taskWakeOne s channel
  | .taskWakeAll channel => taskWakeAll s channel
  | .taskWakeTask task => taskWakeTask s task
  | .taskKillBlocked process => taskKillBlocked s process
  | .taskExit => taskExit s

/-- One call; `none` stands for a call that did not return. -/
def schedulerStep (s : Option (Scheduler Channel Proc)) (op : SchedulerOp Channel Proc) :
    Option (Scheduler Channel Proc) :=
  s.bind fun s => schedulerCall s op

/-- The manager hands out frames that are not in use, and the idle task does
nothing but wait for interrupts. -/
def CallAllowed (idle : Nat) (s : Scheduler Channel Proc) : SchedulerOp Channel Proc → Prop
  | .createTask _ _ _ newTask stack => FreshFrames s newTask stack
  | .taskBlockCurrent _ => s.currentTask ≠ idle
  | .taskExit => s.currentTask ≠ idle
  | _ => True

instance (idle : Nat) (s : Scheduler Channel Proc) (op : SchedulerOp Channel Proc) :
    Decidable (CallAllowed idle s op) := by
  cases op <;> unfold CallAllowed <;> try unfold FreshFrames
  all_goals infer_instance

def StepAllowed (idle : Nat) (s : Option (Scheduler Channel Proc))
    (op : SchedulerOp Channel Proc) : Prop :=
  ∀ running ∈ s, CallAllowed idle running op

instance (idle : Nat) (s : Option (Scheduler Channel Proc)) (op : SchedulerOp Channel Proc) :
    Decidable (StepAllowed idle s op) :=
  inferInstanceAs (Decidable (∀ running ∈ s, CallAllowed idle running op))

/-- A task that blocks goes to the end of the blocked list; all other calls at most take tasks out
of it. -/
def Requeued (s : Scheduler Channel Proc) (blocked blocked' : List Nat) :
    SchedulerOp Channel Proc → Prop
  | .taskBlockCurrent _ => blocked' = blocked ++ [s.currentTask]
  | _ => blocked'.Sublist blocked

theorem Structured.schedulerCall (structured : Structured idle s ring blocked)
    {op : SchedulerOp Channel Proc} (allowed : CallAllowed idle s op) :
    ∃ s' ring' blocked', schedulerCall s op = some s' ∧ Structured idle s' ring' blocked' ∧
      Requeued s blocked blocked' op := by
  cases op with
  | createTask entry addressSpace process newTask stack =>
    obtain ⟨ring', created⟩ := structured.createTask entry addressSpace process allowed
    exact ⟨_, ring', blocked, rfl, created, .refl _⟩
  | schedule =>
    obtain ⟨ring', scheduled⟩ := structured.schedule
    exact ⟨_, ring', blocked, rfl, scheduled, .refl _⟩
  | taskBlockCurrent channel =>
    obtain ⟨s', ring', result, parked, -⟩ := structured.taskBlockCurrent channel allowed
    exact ⟨s', ring', _, result, parked, rfl⟩
  | taskWakeOne channel =>
    obtain ⟨s', ring', _, left, result, woken, wakes⟩ := structured.wakeFrom
      (fun waitChannel _ _ => decide (waitChannel = channel)) true false
    exact ⟨s', ring', left, result, woken, wakes.order⟩
  | taskWakeAll channel =>
    obtain ⟨s', ring', _, left, result, woken, wakes⟩ := structured.wakeFrom
      (fun waitChannel _ _ => decide (waitChannel = channel)) false false
    exact ⟨s', ring', left, result, woken, wakes.order⟩
  | taskWakeTask task =>
    by_cases null : task = 0
    · subst null
      exact ⟨s, ring, blocked, taskWakeTask_null s, structured, .refl _⟩
    · obtain ⟨s', ring', _, left, result, woken, wakes⟩ := structured.wakeFrom
        (fun _ _ waiting => decide (waiting = task)) true false
      exact ⟨s', ring', left, (if_neg null).trans result, woken, wakes.order⟩
  | taskKillBlocked process =>
    cases process with
    | none => exact ⟨s, ring, blocked, rfl, structured, .refl _⟩
    | some process =>
      obtain ⟨s', ring', left, result, killed, -, rest, -⟩ :=
        structured.taskKillBlocked process
      exact ⟨s', ring', left, result, killed, rest ▸ List.filter_sublist⟩
  | taskExit =>
    obtain ⟨s', ring', result, exited, -⟩ := structured.taskExit allowed
    exact ⟨s', ring', blocked, result, exited, .refl _⟩

/-- Every sequence of calls after `tasking_init` returns and keeps the scheduler
sound. -/
theorem run_schedulerSound (runner : idleTaskRunner ≠ 0) (space : kernelSpace ≠ 0)
    (frames : BootFrames mainTask idleTask idleStack) {ops : List (SchedulerOp Channel Proc)}
    (admissible : Admissible schedulerStep (StepAllowed idleTask)
      (some (taskingInit unstarted idleTaskRunner kernelSpace mainTask idleTask idleStack)) ops) :
    ∃ s, run schedulerStep
        (some (taskingInit unstarted idleTaskRunner kernelSpace mainTask idleTask idleStack)) ops =
          some s ∧ SchedulerSound idleTask s := by
  have kept := run_invariant_of_admissible
    (fun state => ∃ s ring blocked, state = some s ∧ Structured idleTask s ring blocked) ?_ ?_
    admissible
  · obtain ⟨s, ring, blocked, result, structured⟩ := kept
    exact ⟨s, result, structured.sound⟩
  · rintro _ op ⟨s, ring, blocked, rfl, structured⟩ allowed
    obtain ⟨s', ring', blocked', result, kept, -⟩ := structured.schedulerCall (allowed s rfl)
    exact ⟨s', ring', blocked', result, kept⟩
  · obtain ⟨ring, structured⟩ := taskingInit_structured runner space frames
    exact ⟨_, ring, [], rfl, structured⟩

/-- A task is created, waits on a channel while the idle task runs, is woken,
exits and is reclaimed. -/
theorem run_schedulerSound_lifetime :
    let start : Option (Scheduler Nat Nat) := some (taskingInit unstarted 1 1 1 2 3)
    let ops : List (SchedulerOp Nat Nat) :=
      [.createTask 1 1 (some 7) 4 5, .schedule, .taskBlockCurrent (some 9),
        .taskWakeAll (some 9), .schedule, .schedule, .taskKillBlocked (some 7), .taskExit,
        .schedule]
    Admissible schedulerStep (StepAllowed 2) start ops ∧
      (∃ s, run schedulerStep start ops = some s ∧ SchedulerSound 2 s) ∧
      (run schedulerStep start ops).map (·.reaped) = some [(4, 5)] := by
  refine ⟨by decide, run_schedulerSound (by decide) (by decide) ⟨by decide, by decide⟩
    (by decide), by decide⟩

end Runs

end MiniOS.Tasks
