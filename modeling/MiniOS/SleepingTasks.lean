import MiniOS.WaitActions
import MiniOS.WaitRun

/-!
# Sleeping tasks

A task that sleeps owns a slot of `sleeping_tasks` until it is woken.  Slots outlive a sleep
that a signal ends early, and they change hands; what is shown here is that this never costs
another task its slot or its deadline.
-/

namespace MiniOS.Waits

open Function Machine Kernel Tasks

variable {Proc : Type*} {idle : Nat} {m m' : WaitState Proc}

/-- An operation that leaves the slots and the clock alone and puts nobody to sleep. -/
structure Quiet (m m' : WaitState Proc) : Prop where
  sleepingTasks : m'.sleepingTasks = m.sleepingTasks
  timerTicks : m'.timerTicks = m.timerTicks
  sleepers : NoNewSleeper m.sched m'.sched

theorem Action.quiet {before after : WaitState Proc × Option OpenWrite}
    (action : Action before after) : Quiet before.1 after.1 := by
  cases action with
  | schedule awake => exact ⟨rfl, rfl, awake⟩
  | _ => exact ⟨rfl, rfl, .refl _⟩

theorem Acts.quiet {writing : Option OpenWrite} {result : Option (WaitState Proc)}
    (acts : Acts m writing result) (isResult : result = some m') : Quiet m m' := by
  have quiets : ∀ last, Relation.ReflTransGen Action (m, writing) last → Quiet m last.1 := by
    intro last chain
    induction chain with
    | refl => exact ⟨rfl, rfl, .refl _⟩
    | tail chain action ih =>
      have quiet := action.quiet
      exact ⟨quiet.1.trans ih.1, quiet.2.trans ih.2, ih.3.trans quiet.3⟩
  exact quiets _ (acts m' isResult)

variable {slot : SleepSlot}

section Slots

variable {elapsed : Nat} {due : Nat → Nat}

/-- Every sleeping task has its slot with its own deadline, which lies ahead. -/
structure SleepersKept (m : WaitState Proc) (elapsed : Nat) (due : Nat → Nat) : Prop where
  clock : m.timerTicks = elapsed % 2 ^ 32
  slot : ∀ task slot, SleepsOn m.sched task slot →
    m.sleepingTasks slot = some (task, due task % 2 ^ 32)
  ahead : ∀ task slot, SleepsOn m.sched task slot → elapsed < due task ∧ due task ≤ elapsed + 0x7FFFFFFF

theorem SleepersKept.quiet (kept : SleepersKept m elapsed due) (quiet : Quiet m m') :
    SleepersKept m' elapsed due where
  clock := quiet.timerTicks.trans kept.clock
  slot := fun task slot sleeps => by
    rw [quiet.sleepingTasks]
    exact kept.slot task slot (quiet.sleepers task slot sleeps)
  ahead := fun task slot sleeps => kept.ahead task slot (quiet.sleepers task slot sleeps)

theorem WaitsSound.current_awake (sound : WaitsSound idle ∅ m) (slot : SleepSlot) :
    ¬ SleepsOn m.sched m.sched.currentTask slot := by
  rintro ⟨-, blocked, -⟩
  obtain ⟨ring, waiting, holds⟩ := sound
  have ready := holds.structured.readyState _ holds.structured.toLists.current_mem
  rw [ready] at blocked
  exact nomatch blocked

/-- A killed sleeper gives back only its own slot. -/
theorem SleepersKept.releaseSleepSlot (kept : SleepersKept m elapsed due)
    (awake : ∀ slot, ¬ SleepsOn m.sched m.sched.currentTask slot) (slot : SleepSlot) :
    SleepersKept (releaseSleepSlot m slot) elapsed due := by
  unfold Waits.releaseSleepSlot
  split
  · next owns =>
    refine ⟨kept.clock, fun task other sleeps => ?_, kept.ahead⟩
    dsimp only at sleeps ⊢
    rw [update_of_ne, kept.slot task other sleeps]
    rintro rfl
    rw [kept.slot task other sleeps, Option.map_some, Option.some_inj] at owns
    exact awake other (owns ▸ sleeps)
  · exact kept

/-- Sleepers keep their slots, and those on the given slots have a deadline ahead. -/
def StillDue (due : Nat → Nat) (slots : List SleepSlot) (m m' : WaitState Proc) : Prop :=
  m'.timerTicks = m.timerTicks ∧ ∀ task slot, SleepsOn m'.sched task slot →
    SleepsOn m.sched task slot ∧ m'.sleepingTasks slot = some (task, due task % 2 ^ 32) ∧
      (slot ∈ slots → tickReached m.timerTicks (due task % 2 ^ 32) = false)

theorem StillDue.cons {slots : List SleepSlot} (rest : StillDue due slots m m')
    (pending : ∀ task, SleepsOn m.sched task slot →
      tickReached m.timerTicks (due task % 2 ^ 32) = false) :
    StillDue due (slot :: slots) m m' := by
  refine ⟨rest.1, fun task other sleeps => ?_⟩
  obtain ⟨slept, entry, ahead⟩ := rest.2 task other sleeps
  refine ⟨slept, entry, fun member => ?_⟩
  rcases List.mem_cons.mp member with rfl | later
  · exact pending task slept
  · exact ahead later

end Slots

variable [DecidableEq Proc]

section Sleeping

variable {elapsed : Nat} {due : Nat → Nat}

/-- A run with the number of ticks so far and the deadline of the last sleep of every task. -/
structure SleepLog (Proc : Type*) where
  machine : Option (WaitState Proc)
  elapsed : Nat
  due : Nat → Nat

/-- An operation, with the deadline that a call of `timer_sleep` asks for. -/
def logStep (log : SleepLog Proc) (op : WaitOp Proc) : SleepLog Proc where
  machine := waitStep log.machine op
  elapsed :=
    match log.machine, op with
    | some m, .timerTick _ _ => if m.resuming then log.elapsed else log.elapsed + 1
    | _, _ => log.elapsed
  due :=
    match log.machine, op with
    | some m, .timerSleep ticks _ =>
      if m.resuming then log.due else update log.due m.sched.currentTask (log.elapsed + ticks)
    | _, _ => log.due

variable (sound : WaitsSound idle ∅ m)

include sound

/-- `task_wake_all` leaves nobody asleep on the slot. -/
theorem WaitsSound.wakeAll_slot (woke : Waits.wakeAll m (.sleepSlot slot) = some m') (task : Nat) :
    ¬ SleepsOn m'.sched task slot := by
  rintro ⟨member, blocked, channel⟩
  obtain ⟨ring, waiting, holds⟩ := sound
  obtain ⟨s', ring', woken, left, result, structured, wakes⟩ := holds.structured.wakeFrom
    (fun waitChannel _ _ => decide (waitChannel = some (.sleepSlot slot))) false false
  obtain ⟨sched, called, rfl⟩ := Option.map_eq_some_iff.mp woke
  obtain rfl : s' = sched := Option.some.inj (result.symm.trans called)
  rcases List.mem_append.mp (structured.tasksPerm.mem_iff.mp member) with ready | stays
  · rw [structured.readyState task ready] at blocked
    exact nomatch blocked
  · have spared := wakes.complete rfl task stays
    rw [picks, ← wakes.left_channel holds.structured.blockedDistinct task stays, channel] at spared
    simp at spared

omit sound in
/-- The loop of `timer_callback`. -/
theorem wakeSleepers_stillDue (slots : List SleepSlot) :
    ∀ m m' : WaitState Proc, WaitsSound idle ∅ m → wakeSleepers slots m = some m' →
      (∀ task slot, SleepsOn m.sched task slot → m.sleepingTasks slot = some (task, due task % 2 ^ 32)) →
      StillDue due slots m m' := by
  induction slots with
  | nil =>
    intro m m' sound woke kept
    obtain rfl := Option.some.inj woke
    exact ⟨rfl, fun task slot sleeps => ⟨sleeps, kept task slot sleeps, by simp⟩⟩
  | cons slot slots ih =>
    intro m m' sound woke kept
    rw [wakeSleepers] at woke
    split at woke
    · next free =>
      refine (ih m m' sound woke kept).cons fun task sleeps => ?_
      rw [kept task slot sleeps] at free
      cases free
    · next owner wakeTick entry =>
      split at woke
      · obtain ⟨m₁, isWoken, woke⟩ := Option.bind_eq_some_iff.mp woke
        have quiet := (acts_wakeAll m _).quiet isWoken
        obtain ⟨m₂, sameWoken, woken⟩ := sound.wakeAll_any (.sleepSlot slot)
        obtain rfl : m₁ = m₂ := Option.some.inj (isWoken.symm.trans sameWoken)
        have nobody := sound.wakeAll_slot isWoken
        have elsewhere : ∀ task other, SleepsOn m₁.sched task other → other ≠ slot := by
          rintro task other sleeps rfl
          exact nobody task sleeps
        have cleared : WaitsSound idle ∅ { m₁ with sleepingTasks := update m₁.sleepingTasks slot none } :=
          woken.sound.of_fields rfl woken.sound.idleRuns rfl
        obtain ⟨clock, rest⟩ := ih _ m' cleared woke fun task other sleeps => by
          dsimp only
          rw [update_of_ne (elsewhere task other sleeps), quiet.sleepingTasks]
          exact kept task other (quiet.sleepers task other sleeps)
        refine ⟨clock.trans quiet.timerTicks, fun task other sleeps => ?_⟩
        obtain ⟨slept, entry, ahead⟩ := rest task other sleeps
        refine ⟨quiet.sleepers task other slept, entry, fun member => ?_⟩
        rw [← quiet.timerTicks]
        exact ahead ((List.mem_cons.mp member).resolve_left (elsewhere task other slept))
      · next notReached =>
        refine (ih m m' sound woke kept).cons fun task sleeps => ?_
        obtain ⟨rfl, rfl⟩ := Prod.mk.inj (Option.some.inj (entry.symm.trans (kept task slot sleeps)))
        simpa using notReached

variable {callback : List (CallbackAction Proc)}

variable (kept : SleepersKept m elapsed due)

include kept

theorem SleepersKept.timerCallback {alarmed : List Nat}
    (ticked : timerCallback m alarmed callback = some m') : SleepersKept m' (elapsed + 1) due := by
  obtain ⟨m₁, woke, ended⟩ := timerCallback_acts callback ticked
  have later : WaitsSound idle ∅ { m with timerTicks := (m.timerTicks + 1) % 2 ^ 32 } :=
    sound.of_fields rfl sound.idleRuns rfl
  obtain ⟨clock, stillDue⟩ := wakeSleepers_stillDue _ _ m₁ later woke kept.slot
  have awake : SleepersKept m₁ (elapsed + 1) due := by
    refine ⟨?_, fun task slot sleeps => (stillDue task slot sleeps).2.1, fun task slot sleeps => ?_⟩
    · rw [clock]
      dsimp only
      rw [kept.clock, Nat.mod_add_mod]
    · obtain ⟨slept, -, ahead⟩ := stillDue task slot sleeps
      have before := kept.ahead task slot slept
      have notReached := ahead (List.mem_finRange slot)
      dsimp only at notReached
      rw [kept.clock, Nat.mod_add_mod, tickReached, decide_eq_false_iff_not] at notReached
      have different : elapsed + 1 ≠ due task := by
        intro reached
        rw [← reached] at notReached
        omega
      omega
  exact awake.quiet (ended.quiet rfl)

theorem SleepersKept.timerSleep {ticks : Nat} (slept : timerSleep m ticks callback = some m') :
    SleepersKept m' elapsed (update due m.sched.currentTask (elapsed + ticks)) := by
  have same : ∀ task slot, SleepsOn m.sched task slot →
      update due m.sched.currentTask (elapsed + ticks) task = due task := by
    intro task slot sleeps
    refine update_of_ne ?_ _ _
    rintro rfl
    exact sound.current_awake slot sleeps
  have kept' : SleepersKept m elapsed (update due m.sched.currentTask (elapsed + ticks)) :=
    ⟨kept.clock, fun task slot sleeps => by rw [same task slot sleeps, kept.slot task slot sleeps],
      fun task slot sleeps => by rw [same task slot sleeps]; exact kept.ahead task slot sleeps⟩
  rw [Waits.timerSleep] at slept
  split at slept
  · obtain rfl := Option.some.inj slept
    exact kept'
  next proper =>
  split at slept
  · exact kept'.quiet ((acts_exitCurrent callback m).quiet slept)
  split at slept
  · obtain rfl := Option.some.inj slept
    exact kept'
  · next slot found =>
    have free := List.find?_some found
    obtain ⟨blocked, isBlocked, rfl⟩ := Option.map_eq_some_iff.mp slept
    obtain ⟨sched, called, rfl⟩ := Option.map_eq_some_iff.mp isBlocked
    have sleepers := taskBlockCurrent_sleepers called
    have elsewhere : ∀ task other, SleepsOn m.sched task other → other ≠ slot := by
      rintro task other sleeps rfl
      rw [kept.slot task other sleeps] at free
      exact nomatch free
    refine ⟨kept.clock, fun task other sleeps => ?_, fun task other sleeps => ?_⟩
    · dsimp only
      rcases sleepers task other sleeps with old | ⟨rfl, isSlot⟩
      · rw [update_of_ne (elsewhere task other old), kept'.slot task other old]
      · obtain rfl : slot = other := by simpa using isSlot
        rw [update_self, update_self, kept.clock, Nat.mod_add_mod]
    · rcases sleepers task other sleeps with old | ⟨rfl, -⟩
      · exact kept'.ahead task other old
      · dsimp only
        rw [update_self]
        omega

theorem SleepersKept.resume (resumed : resume m callback = some m') :
    SleepersKept m' elapsed due := by
  rcases resume_acts callback m with acts | ⟨slot, isExit⟩
  · exact kept.quiet (acts.quiet resumed)
  · have back : SleepersKept { m with point := update m.point m.sched.currentTask .running } elapsed due :=
      kept.quiet ⟨rfl, rfl, .refl _⟩
    rw [isExit] at resumed
    exact (back.releaseSleepSlot sound.current_awake slot).quiet
      ((acts_exitCurrent callback _).quiet resumed)

omit kept

variable {op : WaitOp Proc}

theorem SleepersKept.step (kept : SleepersKept m elapsed due) (called : waitCall m op = some m') :
    SleepersKept m' (logStep ⟨some m, elapsed, due⟩ op).elapsed (logStep ⟨some m, elapsed, due⟩ op).due := by
  by_cases isResume : ∃ callback, op = .resume callback
  · obtain ⟨callback, rfl⟩ := isResume
    exact kept.resume sound called
  have isPerform : waitCall m op = if m.resuming then some m else perform m op := by
    cases op <;> first | rfl | exact absurd ⟨_, rfl⟩ isResume
  rw [isPerform] at called
  cases resuming : m.resuming with
  | true =>
    rw [resuming, if_pos rfl] at called
    obtain rfl := Option.some.inj called
    cases op <;> simpa [logStep, resuming] using kept
  | false =>
    rw [resuming, if_neg Bool.false_ne_true] at called
    by_cases isTick : ∃ alarmed callback, op = .timerTick alarmed callback
    · obtain ⟨alarmed, callback, rfl⟩ := isTick
      simpa [logStep, resuming] using kept.timerCallback sound called
    by_cases isSleep : ∃ ticks callback, op = .timerSleep ticks callback
    · obtain ⟨ticks, callback, rfl⟩ := isSleep
      simpa [logStep, resuming] using kept.timerSleep sound called
    have acts : Acts m none (perform m op) :=
      perform_acts (by simpa using isSleep) (by simpa using isTick) (by simpa using isResume)
    have quiet := kept.quiet (acts.quiet called)
    cases op <;> first
      | exact quiet
      | exact absurd ⟨_, _, rfl⟩ isTick
      | exact absurd ⟨_, _, rfl⟩ isSleep

omit sound

/-- In every run a blocked sleeper has a slot of its own with its deadline in it, and the
deadline lies ahead, so the tick that reaches it wakes the sleeper. -/
theorem run_sleepersKept {idleTaskRunner kernelSpace mainTask idleTask idleStack : Nat}
    (runner : idleTaskRunner ≠ 0) (space : kernelSpace ≠ 0)
    (frames : BootFrames mainTask idleTask idleStack) {ops : List (WaitOp Proc)}
    (admissible : Admissible logStep (fun log => WaitAllowed idleTask log.machine)
      ⟨some (waitStart idleTaskRunner kernelSpace mainTask idleTask idleStack), 0, fun _ => 0⟩ ops) :
    ∃ m elapsed due,
      run logStep ⟨some (waitStart idleTaskRunner kernelSpace mainTask idleTask idleStack), 0, fun _ => 0⟩
        ops = ⟨some m, elapsed, due⟩ ∧
      SleepersKept m elapsed due ∧
      ∀ task other slot, SleepsOn m.sched task slot → SleepsOn m.sched other slot → task = other := by
  have invariant := run_invariant_of_admissible (fun log : SleepLog Proc => ∃ m elapsed due,
    log = ⟨some m, elapsed, due⟩ ∧ WaitsSound idleTask ∅ m ∧ SleepersKept m elapsed due)
    (fun log op holds allowed => ?_) ?_ admissible
  · obtain ⟨m, elapsed, due, isEnd, -, kept⟩ := invariant
    refine ⟨m, elapsed, due, isEnd, kept, fun task other slot first second => ?_⟩
    have same := (kept.slot task slot first).symm.trans (kept.slot other slot second)
    exact (Prod.mk.inj (Option.some.inj same)).1
  · obtain ⟨m, elapsed, due, rfl, sound, kept⟩ := holds
    obtain ⟨m', called, sound', -⟩ := sound.waitCall (allowed m rfl)
    refine ⟨m', _, _, ?_, sound', kept.step sound called⟩
    rw [← called]
    rfl
  · obtain ⟨ring, structured⟩ := taskingInit_structured runner space frames
    have nobody : ∀ task slot, ¬ SleepsOn (taskingInit (unstarted : Scheduler (Channel Proc) Proc)
        idleTaskRunner kernelSpace mainTask idleTask idleStack) task slot := by
      rintro task slot ⟨member, blocked, -⟩
      have ready := structured.readyState task (by simpa using structured.tasksPerm.mem_iff.mp member)
      rw [ready] at blocked
      exact nomatch blocked
    exact ⟨_, 0, fun _ => 0, rfl, waitStart_sound runner space frames, rfl,
      fun task slot sleeps => absurd sleeps (nobody task slot),
      fun task slot sleeps => absurd sleeps (nobody task slot)⟩

/-- Two tasks sleep; the first is woken early and its slot stays taken until its deadline. -/
theorem run_sleepersKept_two :
    let start : SleepLog Nat := ⟨some (waitStart 1 1 1 2 3), 0, fun _ => 0⟩
    let ops : List (WaitOp Nat) :=
      [.createTask 1 1 (some 7) 4 5, .createTask 1 1 (some 8) 6 7, .timerTick [] [], .timerSleep 9 [],
        .timerSleep 5 [], .taskWakeTask 6, .timerTick [] []]
    Admissible logStep (fun log => WaitAllowed 2 log.machine) start ops ∧
      (∃ m elapsed due, run logStep start ops = ⟨some m, elapsed, due⟩ ∧ SleepersKept m elapsed due ∧
        ∀ task other slot, SleepsOn m.sched task slot → SleepsOn m.sched other slot → task = other) ∧
      (run logStep start ops).machine.map (fun m => (m.sleepingTasks 0, m.sleepingTasks 1,
        m.sched.state 6, m.sched.waitChannel 4)) =
        some (some (6, 10), some (4, 6), .ready, some (.sleepSlot 1)) := by
  refine ⟨by decide +kernel, run_sleepersKept (by decide) (by decide) ⟨by decide, by decide⟩
    (by decide +kernel), by decide +kernel⟩

end Sleeping

end MiniOS.Waits
