import MiniOS.WaitInvariant

/-!
# Killed tasks and waiting tasks over whole runs

The invariant of waiting tasks along every run.  Two things follow from it: a task
that is marked for termination is never blocked and exits as soon as it comes back
from a wait or takes a timer tick, and no task is left waiting on a pipe that has
what it waits for.
-/

namespace MiniOS.Waits

open Function Machine Kernel Tasks LinkedSegments

variable {Proc : Type*} {idle : Nat} {m : WaitState Proc}

theorem Settled.killPending_eq {m' : WaitState Proc} (settled : Settled idle m m') :
    m'.killPending = m.killPending := by
  rw [WaitState.killPending, WaitState.killPending, settled.calm.killPending,
    settled.calm.keeps.currentTask]

theorem FreshFrames.ne {newTask stack task : Nat} (fresh : FreshFrames m.sched newTask stack)
    (member : task ∈ m.sched.tasks) (notNull : task ≠ 0) : task ≠ newTask := by
  rintro rfl
  exact (fresh.resolve_left notNull).1 (mem_ownedFrames (List.mem_append_left _ member))

/-- Marks outlive every operation: a task that is still there keeps its mark. -/
def KeepsMarks (s s' : Scheduler (Channel Proc) Proc) : Prop :=
  ∀ task ∈ s.tasks, task ∈ s'.tasks → s.killPending task = true → s'.killPending task = true

/-- `tasking_init` marks nobody, and the idle task belongs to no process. -/
theorem taskingInit_unmarked {mainTask : Nat} (notNull : mainTask ≠ 0)
    (idleTaskRunner kernelSpace idleTask idleStack : Nat) :
    (taskingInit (unstarted : Scheduler (Channel Proc) Proc) idleTaskRunner kernelSpace mainTask
        idleTask idleStack).killPending idleTask = false ∧
      (taskingInit (unstarted : Scheduler (Channel Proc) Proc) idleTaskRunner kernelSpace mainTask
        idleTask idleStack).process idleTask = none := by
  have main : ∀ task, (startMainTask (unstarted : Scheduler (Channel Proc) Proc) kernelSpace
      mainTask).killPending task = false ∧ (startMainTask (unstarted : Scheduler (Channel Proc)
        Proc) kernelSpace mainTask).process task = none := by
    intro task
    by_cases same : task = mainTask <;> simp [startMainTask, unstarted, same]
  unfold taskingInit
  rw [if_neg (by simp [unstarted]), if_neg notNull, Tasks.createTask]
  split
  · exact main idleTask
  split
  · exact main idleTask
  simp only
  split
  · exact ⟨update_self .., (main idleTask).2⟩
  · simp only
    rw [addReadyTask_killPending, (addReadyTask_keepsTasks _ idleTask).process]
    exact ⟨update_self .., update_self ..⟩

theorem waitStart_sound {idleTaskRunner kernelSpace mainTask idleTask idleStack : Nat}
    (runner : idleTaskRunner ≠ 0) (space : kernelSpace ≠ 0)
    (frames : BootFrames mainTask idleTask idleStack) :
    WaitsSound idleTask ∅
      (waitStart idleTaskRunner kernelSpace mainTask idleTask idleStack : WaitState Proc) := by
  obtain ⟨ring, structured⟩ := taskingInit_structured runner space frames
  refine ⟨ring, [], structured, by simp, ?_, rfl, Pipe.newPipe_valid, by simp⟩
  exact taskingInit_unmarked frames.notNull.1 idleTaskRunner kernelSpace idleTask idleStack

section Steps

variable (sound : WaitsSound idle ∅ m)

include sound

theorem WaitsSound.ne_idle_of_resuming (resuming : m.resuming = true) :
    m.sched.currentTask ≠ idle := by
  obtain ⟨ring, blocked, waiting⟩ := sound
  intro same
  rw [WaitState.resuming, same, waiting.idleRuns] at resuming
  contradiction

theorem WaitsSound.ne_idle_of_killed (killed : m.killPending = true) :
    m.sched.currentTask ≠ idle := by
  obtain ⟨ring, blocked, waiting⟩ := sound
  intro same
  rw [WaitState.killPending, same, waiting.idleSpared.1] at killed
  contradiction

/-- The current task stands between two operations again. -/
theorem WaitsSound.back (notIdle : m.sched.currentTask ≠ idle) :
    WaitsSound idle ∅ { m with point := update m.point m.sched.currentTask .running } := by
  refine sound.of_fields rfl ?_ rfl
  simp only [update_of_ne notIdle.symm]
  exact sound.idleRuns

theorem WaitsSound.releaseSleepSlot (slot : SleepSlot) :
    Settled idle m (releaseSleepSlot m slot) := by
  unfold Waits.releaseSleepSlot
  split
  · exact ⟨rfl, sound.of_fields rfl sound.idleRuns rfl, Calm.refl _⟩
  · exact ⟨rfl, sound, Calm.refl _⟩

theorem WaitsSound.wakeTasks (tasks : List Nat) :
    ∃ m', wakeTasks tasks m = some m' ∧ Settled idle m m' := by
  induction tasks generalizing m with
  | nil => exact ⟨m, rfl, rfl, sound, Calm.refl _⟩
  | cons task tasks ih =>
    obtain ⟨m₁, woke, woken⟩ := sound.wakeTask task
    obtain ⟨m', rest, settled⟩ := ih woken.sound
    refine ⟨m', ?_, woken.settled.trans settled⟩
    rw [Waits.wakeTasks, woke, Option.bind_some, rest]

theorem WaitsSound.schedule :
    ∃ m', (m.onSched fun sched => some (Tasks.schedule sched)) = some m' ∧ Stepped idle m m' := by
  obtain ⟨ring, blocked, waiting⟩ := sound
  obtain ⟨ring', structured⟩ := waiting.structured.schedule
  obtain ⟨-, -, -, result⟩ := waiting.structured.toLists.schedule
  have killPending : (Tasks.schedule m.sched).killPending = m.sched.killPending := by
    rw [result, reapRetiredTask_eq]
  have process : (Tasks.schedule m.sched).process = m.sched.process := by
    rw [result, reapRetiredTask_eq]
  have waitChannel : (Tasks.schedule m.sched).waitChannel = m.sched.waitChannel := by
    rw [result, reapRetiredTask_eq]
  have tasks : (Tasks.schedule m.sched).tasks = m.sched.tasks := by
    rw [result, reapRetiredTask_eq]
  refine ⟨{ m with sched := Tasks.schedule m.sched }, rfl, ⟨ring', blocked, structured, ?_, ?_,
    waiting.idleRuns, waiting.pipesValid, ?_⟩, ?_, ?_⟩
  · rw [killPending]
    exact waiting.unflagged
  · rw [killPending, process]
    exact waiting.idleSpared
  · rw [waitChannel]
    exact waiting.condition
  · simp [tasks]
  · simp [killPending]

theorem WaitsSound.startTask (entry addressSpace : Nat)
    (process : Option Proc) {newTask stack : Nat} (fresh : FreshFrames m.sched newTask stack) :
    WaitsSound idle ∅ (startTask m entry addressSpace process newTask stack) := by
  obtain ⟨ring, blocked, waiting⟩ := sound
  have other : ∀ task ∈ ring ++ blocked, task ≠ newTask := fun task member =>
    FreshFrames.ne fresh (waiting.structured.tasksPerm.mem_iff.mpr member)
      (waiting.structured.toLists.ne_zero member)
  have idleOther : idle ≠ newTask :=
    other idle (List.mem_append_left _ waiting.structured.idleReady)
  obtain ⟨ring', structured⟩ :=
    waiting.structured.createTask entry addressSpace process fresh
  refine ⟨ring', blocked, structured, ?_, ?_, ?_, waiting.pipesValid, ?_⟩
  · intro task member
    exact (createTask_other _ entry addressSpace process stack
      (other task (List.mem_append_right _ member))).1.trans (waiting.unflagged task member)
  · obtain ⟨flag, owner, -⟩ := createTask_other m.sched entry addressSpace process stack idleOther
    exact ⟨flag.trans waiting.idleSpared.1, owner.trans waiting.idleSpared.2⟩
  · simp only [Waits.startTask, update_of_ne idleOther]
    exact waiting.idleRuns
  · intro task member channel waitsOn notExempt
    have same := (createTask_other m.sched entry addressSpace process stack
      (other task (List.mem_append_right _ member))).2.2
    simp only [Waits.startTask, same] at waitsOn
    exact waiting.condition task member channel waitsOn notExempt

variable [DecidableEq Proc]

/-- A marked task that comes back from any wait exits. -/
theorem WaitsSound.resume_killed (resuming : m.resuming = true)
    (killed : m.killPending = true) (callback : List (CallbackAction Proc)) :
    ∃ m', resume m callback = some m' ∧ Left idle m m' := by
  have notIdle := sound.ne_idle_of_resuming resuming
  have back := sound.back notIdle
  unfold resume
  simp only [if_pos killed]
  rw [WaitState.resuming] at resuming
  cases place : m.point m.sched.currentTask with
  | running => simp [place] at resuming
  | killableWait wait =>
    obtain ⟨m', result, left⟩ := back.exitCurrent notIdle callback
    exact ⟨m', result, left.sound, left.ended⟩
  | pipeRead pipe len =>
    obtain ⟨m', result, left⟩ := exit_after_close callback (back.pipeCloseRead pipe) notIdle
    exact ⟨m', result, left.sound, left.ended⟩
  | pipeWrite call pipe buffer put =>
    obtain ⟨m', result, left⟩ := exit_after_close callback (back.pipeCloseWrite pipe) notIdle
    exact ⟨m', result, left.sound, left.ended⟩
  | timerSleep slot =>
    have settled := back.releaseSleepSlot slot
    obtain ⟨m', result, left⟩ :=
      settled.sound.exitCurrent (settled.notIdle notIdle) callback
    have whole := settled.left left
    exact ⟨m', result, whole.sound, whole.ended⟩

theorem WaitsSound.resume (callback : List (CallbackAction Proc)) :
    ∃ m', resume m callback = some m' ∧ Stepped idle m m' := by
  cases resuming : m.resuming with
  | false =>
    have place : m.point m.sched.currentTask = .running := by
      rw [WaitState.resuming] at resuming
      split at resuming
      · assumption
      · contradiction
    refine ⟨m, ?_, sound, (Calm.refl _).tracks⟩
    simp [Waits.resume, place]
  | true =>
    cases killed : m.killPending with
    | true =>
      obtain ⟨m', result, left⟩ := sound.resume_killed resuming killed callback
      exact ⟨m', result, left.stepped⟩
    | false =>
      have notIdle := sound.ne_idle_of_resuming resuming
      have back := sound.back notIdle
      unfold Waits.resume
      simp only [killed, Bool.false_eq_true, if_false]
      cases place : m.point m.sched.currentTask with
      | running => exact ⟨m, rfl, sound, (Calm.refl _).tracks⟩
      | killableWait wait | timerSleep slot => exact ⟨_, rfl, back, (Calm.refl _).tracks⟩
      | pipeRead pipe len =>
        obtain ⟨m', result, stepped⟩ := back.pipeReadLoop notIdle callback pipe len
        exact ⟨m', result, stepped.sound, stepped.tracks⟩
      | pipeWrite call pipe buffer put =>
        have enough : buffer.length - put < writeTurns buffer := by
          unfold writeTurns
          omega
        obtain ⟨m', result, stepped⟩ :=
          back.pipeWriteLoop notIdle callback call pipe buffer put enough
        exact ⟨m', result, stepped.sound, stepped.tracks⟩

theorem WaitsSound.wakeSleepers (slots : List SleepSlot) :
    ∃ m', wakeSleepers slots m = some m' ∧ Settled idle m m' := by
  induction slots generalizing m with
  | nil => exact ⟨m, rfl, rfl, sound, Calm.refl _⟩
  | cons slot slots ih =>
    rw [Waits.wakeSleepers]
    split
    · exact ih sound
    split
    case isTrue =>
      obtain ⟨m₁, woke, woken⟩ := sound.wakeAll_any (.sleepSlot slot)
      have cleared : WaitsSound idle ∅
          { m₁ with sleepingTasks := update m₁.sleepingTasks slot none } :=
        woken.sound.of_fields rfl woken.sound.idleRuns rfl
      obtain ⟨m', rest, settled⟩ := ih cleared
      refine ⟨m', ?_, woken.settled.trans { settled with }⟩
      rw [woke, Option.bind_some, rest]
    case isFalse => exact ih sound

/-- The beginning of `timer_callback`, up to `process_check_kill`. -/
theorem WaitsSound.tickSleepers : ∃ m', Waits.wakeSleepers (List.finRange 16)
        { m with timerTicks := (m.timerTicks + 1) % 2 ^ 32 } = some m' ∧ Settled idle m m' := by
  have ticked : WaitsSound idle ∅ { m with timerTicks := (m.timerTicks + 1) % 2 ^ 32 } :=
    sound.of_fields rfl sound.idleRuns rfl
  obtain ⟨m', result, settled⟩ := ticked.wakeSleepers (List.finRange 16)
  exact ⟨m', result, settled.point, settled.sound, settled.calm⟩

/-- A marked task that takes a timer tick exits. -/
theorem WaitsSound.timerCallback_killed (killed : m.killPending = true) (alarmed : List Nat)
    (callback : List (CallbackAction Proc)) :
    ∃ m', timerCallback m alarmed callback = some m' ∧ Left idle m m' := by
  obtain ⟨m₁, ticked, settled⟩ := sound.tickSleepers
  have stillKilled : m₁.killPending = true := settled.killPending_eq.trans killed
  obtain ⟨m', result, left⟩ := settled.sound.exitCurrent
    (settled.sound.ne_idle_of_killed stillKilled) callback
  refine ⟨m', ?_, settled.left left⟩
  simp only [timerCallback, ticked, Option.bind_some, if_pos stillKilled]
  exact result

theorem WaitsSound.timerCallback (alarmed : List Nat) (callback : List (CallbackAction Proc)) :
    ∃ m', timerCallback m alarmed callback = some m' ∧ Stepped idle m m' := by
  cases killed : m.killPending with
  | true =>
    obtain ⟨m', result, left⟩ := sound.timerCallback_killed killed alarmed callback
    exact ⟨m', result, left.stepped⟩
  | false =>
    obtain ⟨m₁, ticked, settled₁⟩ := sound.tickSleepers
    have notKilled : m₁.killPending = false := settled₁.killPending_eq.trans killed
    obtain ⟨m₂, woke, settled₂⟩ := settled₁.sound.wakeTasks alarmed
    obtain ⟨m', result, stepped⟩ := settled₂.sound.schedule
    refine ⟨m', ?_, (settled₁.trans settled₂).then stepped⟩
    simp only [Waits.timerCallback, ticked, Option.bind_some, notKilled, Bool.false_eq_true,
      if_false, woke]
    exact result

/-- What `process_request_kill` marks. -/
theorem WaitsSound.kill (process : Proc) :
    ∃ m', m.onSched (taskKillBlocked · (some process)) = some m' ∧ WaitsSound idle ∅ m' ∧
      m'.sched.tasks = m.sched.tasks ∧
      ∀ task, m'.sched.killPending task = (m.sched.killPending task ||
        (decide (task ∈ m.sched.tasks) && decide (m.sched.process task = some process))) := by
  obtain ⟨ring, blocked, waiting⟩ := sound
  obtain ⟨sched, ring', left, result, structured, keeps, rest, channels, flags⟩ :=
    waiting.structured.taskKillBlocked process
  simp only [rest, List.mem_filter, decide_eq_true_eq] at channels
  refine ⟨{ m with sched := sched }, ?_, ⟨ring', left, structured, ?_, ?_, waiting.idleRuns,
    waiting.pipesValid, ?_⟩, keeps.tasks, flags⟩
  · simp only [WaitState.onSched, result, Option.map_some]
  · intro task member
    rw [rest, List.mem_filter, decide_eq_true_eq] at member
    simp [flags, waiting.unflagged task member.1, member.2]
  · simp [flags, waiting.idleSpared, keeps.process]
  · intro task member channel waitsOn notExempt
    rw [rest, List.mem_filter, decide_eq_true_eq] at member
    simp only [channels task member] at waitsOn
    exact waiting.condition task member.1 channel waitsOn notExempt

theorem WaitsSound.perform {op : WaitOp Proc} (allowed : OpAllowed idle m op) :
    ∃ m', perform m op = some m' ∧ WaitsSound idle ∅ m' ∧ KeepsMarks m.sched m'.sched := by
  have finish : (∃ m', Waits.perform m op = some m' ∧ Stepped idle m m') →
      ∃ m', Waits.perform m op = some m' ∧ WaitsSound idle ∅ m' ∧ KeepsMarks m.sched m'.sched :=
    fun ⟨m', result, stepped⟩ => ⟨m', result, stepped.sound, fun task _ => stepped.tracks.flags task⟩
  have finishWoken : (∃ m', Waits.perform m op = some m' ∧ Woken idle ∅ m m') →
      ∃ m', Waits.perform m op = some m' ∧ WaitsSound idle ∅ m' ∧ KeepsMarks m.sched m'.sched :=
    fun ⟨m', result, woken⟩ => finish ⟨m', result, woken.settled.stepped⟩
  have finishSettled : (∃ m', Waits.perform m op = some m' ∧ Settled idle m m') →
      ∃ m', Waits.perform m op = some m' ∧ WaitsSound idle ∅ m' ∧ KeepsMarks m.sched m'.sched :=
    fun ⟨m', result, settled⟩ => finish ⟨m', result, settled.stepped⟩
  cases op with
  | pipeRead pipe len callback => exact finish (sound.pipeRead allowed callback pipe len)
  | pipeWrite pipe buffer callback => exact finish (sound.pipeWrite allowed callback pipe buffer)
  | pipeRefRead pipe => exact finishSettled ⟨_, rfl, sound.pipeRefRead pipe⟩
  | pipeRefWrite pipe => exact finishSettled ⟨_, rfl, sound.pipeRefWrite pipe⟩
  | pipeCloseRead pipe => exact finishSettled (sound.pipeCloseRead pipe)
  | pipeCloseWrite pipe => exact finishSettled (sound.pipeCloseWrite pipe)
  | wait wait callback => exact finish (sound.taskBlockKillable allowed callback wait)
  | timerSleep ticks callback => exact finish (sound.timerSleep allowed callback ticks)
  | taskWakeOne channel => exact finishWoken (sound.wakeOne channel)
  | taskWakeAll channel => exact finishWoken (sound.wakeAll_any channel)
  | taskWakeTask task => exact finishWoken (sound.wakeTask task)
  | processRequestKill process =>
    cases process with
    | none => exact ⟨m, rfl, sound, fun _ _ _ flag => flag⟩
    | some process =>
      obtain ⟨m', result, killed, -, flags⟩ := sound.kill process
      exact ⟨m', result, killed, fun task _ _ flag => by simp [flags, flag]⟩
  | createTask entry addressSpace process newTask stack =>
    refine ⟨_, rfl, sound.startTask entry addressSpace process allowed, ?_⟩
    intro task member _ flag
    obtain ⟨ring, blocked, waiting⟩ := sound
    have notNull := waiting.structured.toLists.ne_zero
      (waiting.structured.tasksPerm.mem_iff.mp member)
    have other := FreshFrames.ne allowed member notNull
    exact (createTask_other _ entry addressSpace process stack other).1.trans flag
  | taskExit callback =>
    obtain ⟨m', result, left⟩ := sound.exitCurrent allowed callback
    exact finish ⟨m', result, left.stepped⟩
  | timerTick alarmed callback => exact finish (sound.timerCallback alarmed callback)
  | resume callback => exact finish (sound.resume callback)

theorem WaitsSound.waitCall {op : WaitOp Proc} (allowed : OpAllowed idle m op) :
    ∃ m', waitCall m op = some m' ∧ WaitsSound idle ∅ m' ∧ KeepsMarks m.sched m'.sched := by
  by_cases isResume : ∃ callback, op = .resume callback
  · obtain ⟨callback, rfl⟩ := isResume
    exact sound.perform allowed
  · have same : Waits.waitCall m op = if m.resuming then some m else Waits.perform m op := by
      cases op <;> first | rfl | exact absurd ⟨_, rfl⟩ isResume
    rw [same]
    split
    · exact ⟨m, rfl, sound, fun _ _ _ flag => flag⟩
    · exact sound.perform allowed

end Steps

section Runs

variable [DecidableEq Proc]

structure KillsEffective (m : WaitState Proc) : Prop where
  /-- No marked task is in the blocked list. -/
  noneBlocked : ∃ blocked, Segment m.sched.blockedNext m.sched.blockedTasks blocked 0 ∧
    ∀ task ∈ blocked, m.sched.killPending task = false
  /-- A marked task that comes back from a wait exits. -/
  returnExits : m.killPending = true → m.resuming = true → ∀ callback,
    ∃ m', waitCall m (.resume callback) = some m' ∧ Ended m.sched m'.sched
  /-- A marked task that takes a timer tick exits. -/
  tickExits : m.killPending = true → m.resuming = false → ∀ alarmed callback,
    ∃ m', waitCall m (.timerTick alarmed callback) = some m' ∧ Ended m.sched m'.sched
  /-- A request marks every task of the process and takes back no mark. -/
  killMarks : m.resuming = false → ∀ process,
    ∃ m', waitCall m (.processRequestKill (some process)) = some m' ∧
      m'.sched.tasks = m.sched.tasks ∧
      ∀ task ∈ m.sched.tasks, m'.sched.killPending task =
        (m.sched.killPending task || decide (m.sched.process task = some process))

theorem WaitsSound.killsEffective (sound : WaitsSound idle ∅ m) : KillsEffective m where
  noneBlocked := by
    obtain ⟨ring, blocked, waiting⟩ := sound
    exact ⟨blocked, waiting.structured.waiting, waiting.unflagged⟩
  returnExits := by
    intro killed resuming callback
    obtain ⟨m', result, left⟩ := sound.resume_killed resuming killed callback
    exact ⟨m', result, left.ended⟩
  tickExits := by
    intro killed running alarmed callback
    obtain ⟨m', result, left⟩ := sound.timerCallback_killed killed alarmed callback
    refine ⟨m', ?_, left.ended⟩
    simpa [Waits.waitCall, running, Waits.perform] using result
  killMarks := by
    intro running process
    obtain ⟨m', result, -, tasks, flags⟩ := sound.kill process
    refine ⟨m', ?_, tasks, fun task member => by simp [flags, member]⟩
    simpa [Waits.waitCall, running, Waits.perform] using result

section Boot

variable {idleTaskRunner kernelSpace mainTask idleTask idleStack : Nat}
  (runner : idleTaskRunner ≠ 0) (space : kernelSpace ≠ 0)
  (frames : BootFrames mainTask idleTask idleStack) {ops : List (WaitOp Proc)}
  (admissible : Admissible waitStep (WaitAllowed idleTask)
    (some (waitStart idleTaskRunner kernelSpace mainTask idleTask idleStack)) ops)

include runner space frames admissible

theorem run_waitsSound :
    ∃ m, run waitStep (some (waitStart idleTaskRunner kernelSpace mainTask idleTask idleStack))
      ops = some m ∧ WaitsSound idleTask ∅ m := by
  refine run_invariant_of_admissible
    (fun state => ∃ m, state = some m ∧ WaitsSound idleTask ∅ m) ?_ ?_ admissible
  · rintro _ op ⟨m, rfl, sound⟩ allowed
    obtain ⟨m', result, sound', -⟩ := sound.waitCall (allowed m rfl)
    exact ⟨m', result, sound'⟩
  · exact ⟨_, rfl, waitStart_sound runner space frames⟩

/-- In every state of every run killed tasks do not wait, and they keep their marks
until they exit. -/
theorem run_killsEffective :
    ∃ m, run waitStep (some (waitStart idleTaskRunner kernelSpace mainTask idleTask idleStack))
        ops = some m ∧ KillsEffective m ∧
      ∀ op, OpAllowed idleTask m op →
        ∃ m', waitCall m op = some m' ∧ KeepsMarks m.sched m'.sched := by
  obtain ⟨m, result, sound⟩ := run_waitsSound runner space frames admissible
  refine ⟨m, result, sound.killsEffective, fun op allowed => ?_⟩
  obtain ⟨m', next, -, marks⟩ := sound.waitCall allowed
  exact ⟨m', next, marks⟩

omit runner space frames admissible

/-- A reader that waits on an empty pipe is killed and exits when it runs again. -/
theorem run_killsEffective_reader : let start : Option (WaitState Nat) := some (waitStart 1 1 1 2 3)
    let ops : List (WaitOp Nat) :=
      [.createTask 1 1 (some 7) 4 5, .timerTick [] [], .pipeRead 0 5 [], .timerTick [] [],
        .processRequestKill (some 7), .timerTick [] [], .resume []]
    Admissible waitStep (WaitAllowed 2) start ops ∧
      (∃ m, run waitStep start ops = some m ∧ KillsEffective m ∧
        ∀ op, OpAllowed 2 m op → ∃ m', waitCall m op = some m' ∧ KeepsMarks m.sched m'.sched) ∧
      (run waitStep start ops).map (·.sched.exits) = some [(4, 5)] := by
  refine ⟨by decide +kernel, run_killsEffective (by decide) (by decide)
    ⟨by decide, by decide⟩ (by decide +kernel), by decide +kernel⟩

include runner space frames admissible

/-- In every state of every run a task that waits in `pipe_read` finds the pipe empty
with a writer left, and one that waits in `pipe_write` finds it full with a reader
left. -/
theorem run_no_stranded_waiter :
    ∃ m, run waitStep (some (waitStart idleTaskRunner kernelSpace mainTask idleTask idleStack))
        ops = some m ∧
      ∃ blocked, Segment m.sched.blockedNext m.sched.blockedTasks blocked 0 ∧
        ∀ task ∈ blocked, ∀ pipe,
          (m.sched.waitChannel task = some (.pipeCount pipe) →
            (m.pipes pipe).count = 0 ∧ 0 < (m.pipes pipe).writers) ∧
          (m.sched.waitChannel task = some (.pipeReadPos pipe) →
            (m.pipes pipe).count = pipeBufSize ∧ 0 < (m.pipes pipe).readers) := by
  obtain ⟨m, result, ring, blocked, waiting⟩ := run_waitsSound runner space frames admissible
  refine ⟨m, result, blocked, waiting.structured.waiting, fun task member pipe => ⟨?_, ?_⟩⟩
  · intro waitsOn
    exact waiting.condition task member _ waitsOn (Set.notMem_empty _)
  · intro waitsOn
    exact waiting.condition task member _ waitsOn (Set.notMem_empty _)

end Boot

theorem run_no_stranded_waiter_reader :
    let start : Option (WaitState Nat) := some (waitStart 1 1 1 2 3)
    let ops : List (WaitOp Nat) :=
      [.createTask 1 1 (some 7) 4 5, .timerTick [] [], .pipeRead 0 5 []]
    Admissible waitStep (WaitAllowed 2) start ops ∧
      (∃ m, run waitStep start ops = some m ∧
        ∃ blocked, Segment m.sched.blockedNext m.sched.blockedTasks blocked 0 ∧
          ∀ task ∈ blocked, ∀ pipe,
            (m.sched.waitChannel task = some (.pipeCount pipe) →
              (m.pipes pipe).count = 0 ∧ 0 < (m.pipes pipe).writers) ∧
            (m.sched.waitChannel task = some (.pipeReadPos pipe) →
              (m.pipes pipe).count = pipeBufSize ∧ 0 < (m.pipes pipe).readers)) ∧
      (run waitStep start ops).map (fun m => (m.sched.blockedTasks, m.sched.waitChannel 4)) =
        some (4, some (.pipeCount 0)) := by
  refine ⟨by decide +kernel, run_no_stranded_waiter (by decide) (by decide)
    ⟨by decide, by decide⟩ (by decide +kernel), by decide +kernel⟩

end Runs

end MiniOS.Waits
