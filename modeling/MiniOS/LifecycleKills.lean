import MiniOS.LifecycleFamilies

/-!
# Kills

After `process_kill` has returned 0, the tasks of the process are marked and stay marked
until the last one is gone, and nobody else has been marked.  There are two conditions.
A task that is marked already creates no thread, because a new task is not marked.  And
while the shell is between `process_find` and `task_kill_blocked`, the slot that was found
is not given to a process with another number.
-/

namespace MiniOS.Lifecycle

open Function Paging Machine
open Kernel

variable {m after : Life} {slot other : ProcessSlot} {task : Nat}

/-- The shell is inside `process_kill`. -/
def Point.killing : Point → Bool
  | .killFind _ _ => true
  | .killMark _ _ _ => true
  | _ => false

/-- What the shell knows inside `process_kill` about the process that it has tested: if
this is still running, it has the number, and it is in the slot that was found. -/
def Standing (m : Life) : Point → Prop
  | .killFind pid serial => serial < m.nextSerial ∧
      ∀ slot, (m.processes slot).state = .running → m.serial slot = serial →
        (m.processes slot).pid = pid
  | .killMark _ slot serial => serial < m.nextSerial ∧
      ∀ place, (m.processes place).state = .running → m.serial place = serial → place = slot
  | _ => True

/-- Killed processes have no unmarked task, and marks have hit the right process. -/
structure KillsReach (m : Life) : Prop where
  marked : ∀ serial ∈ m.history.killed, ∀ task ∈ m.queues.tasks, m.owner task = some serial →
    m.queues.killPending task = true
  old : ∀ serial ∈ m.history.killed, serial < m.nextSerial
  right : ∀ entry ∈ m.history.marked, entry.1 = entry.2
  stands : ∀ task ∈ m.queues.tasks, Standing m (m.point task)

/-- A task that was there keeps owner and mark; a new one belongs to no killed process. -/
structure Tame (m after : Life) : Prop where
  tasks : ∀ task ∈ after.queues.tasks,
    task ∈ m.queues.tasks ∧ after.owner task = m.owner task ∧
        after.queues.killPending task = m.queues.killPending task ∧
          (after.point task = m.point task ∨ (after.point task).killing = false) ∨
      (∀ serial ∈ m.history.killed, after.owner task ≠ some serial) ∧
        (after.point task).killing = false
  slots : ∀ slot, (after.processes slot).state = .running →
    (m.processes slot).state = .running ∧ after.serial slot = m.serial slot ∧
        (after.processes slot).pid = (m.processes slot).pid ∨
      m.nextSerial ≤ after.serial slot
  nextSerial : m.nextSerial ≤ after.nextSerial
  killed : after.history.killed = m.history.killed
  marks : after.history.marked = m.history.marked

variable {point : Point}

theorem standing_of_not_killing (idle : point.killing = false) : Standing m point := by
  cases point with
  | killFind | killMark => cases idle
  | _ => trivial

theorem Standing.of_tame (tame : Tame m after) (standing : Standing m point) :
    Standing after point := by
  have was : ∀ {serial : Nat} {place : ProcessSlot}, serial < m.nextSerial →
      (after.processes place).state = .running → after.serial place = serial →
        (m.processes place).state = .running ∧ m.serial place = serial ∧
          (after.processes place).pid = (m.processes place).pid := by
    intro serial place old running isSerial
    rcases tame.slots place running with ⟨wasRunning, sameSerial, samePid⟩ | isNew
    · exact ⟨wasRunning, sameSerial.symm.trans isSerial, samePid⟩
    · omega
  cases point with
  | killFind pid serial =>
    obtain ⟨old, isPid⟩ := standing
    refine ⟨Nat.lt_of_lt_of_le old tame.nextSerial, fun place running isSerial => ?_⟩
    obtain ⟨wasRunning, wasSerial, samePid⟩ := was old running isSerial
    exact samePid.trans (isPid place wasRunning wasSerial)
  | killMark pid slot serial =>
    obtain ⟨old, isSlot⟩ := standing
    refine ⟨Nat.lt_of_lt_of_le old tame.nextSerial, fun place running isSerial => ?_⟩
    obtain ⟨wasRunning, wasSerial, _⟩ := was old running isSerial
    exact isSlot place wasRunning wasSerial
  | _ => trivial

theorem KillsReach.of_tame (reach : KillsReach m) (tame : Tame m after) : KillsReach after where
  marked := by
    rw [tame.killed]
    intro serial isKilled task live isOwner
    rcases tame.tasks task live with ⟨wasLive, sameOwner, sameMark, _⟩ | ⟨notKilled, _⟩
    · rw [sameMark]
      exact reach.marked serial isKilled task wasLive (sameOwner.symm.trans isOwner)
    · exact absurd isOwner (notKilled serial isKilled)
  old := by
    rw [tame.killed]
    exact fun serial isKilled => Nat.lt_of_lt_of_le (reach.old serial isKilled) tame.nextSerial
  right := by
    rw [tame.marks]
    exact reach.right
  stands task live := by
    rcases tame.tasks task live with ⟨wasLive, _, _, samePoint | idle⟩ | ⟨_, idle⟩
    · rw [samePoint]
      exact (reach.stands task wasLive).of_tame tame
    · exact standing_of_not_killing idle
    · exact standing_of_not_killing idle

variable {asked : Int}

theorem killsReach_taskKillBlocked (reach : KillsReach m) (populated : Populated m none)
    (isPid : (m.processes slot).state = .running → (m.processes slot).pid = asked) :
    KillsReach (taskKillBlocked m asked slot) where
  marked serial isKilled task live isOwner := by
    have wasLive := TaskQueues.tasks_wakeWhere.mem_iff.mp live
    have wasMarked := reach.marked serial isKilled task wasLive isOwner
    change (m.queues.killPending task || _) = true
    rw [wasMarked, Bool.true_or]
  old := reach.old
  right := by
    intro entry isMarked
    rcases List.mem_append.mp isMarked with isNew | wasMarked
    · obtain ⟨task, isVictim, isEntry⟩ := List.mem_map.mp isNew
      rw [List.mem_filter, Bool.and_eq_true, Bool.not_eq_true'] at isVictim
      obtain ⟨live, marks, unmarked⟩ := isVictim
      have isOf : m.queues.process task = some slot := by
        change (m.queues.killPending task || decide (task ∈ m.queues.tasks ∧ _)) = true at marks
        rw [unmarked, Bool.false_or, decide_eq_true_eq] at marks
        exact marks.2
      rw [← isEntry]
      change asked = (m.queues.process task).elim 0 _
      rw [isOf]
      exact (isPid (populated.member task live slot isOf).running).symm
    · exact reach.right entry wasMarked
  stands task live := by
    have standing := reach.stands task (TaskQueues.tasks_wakeWhere.mem_iff.mp live)
    change Standing _ (m.point task)
    generalize m.point task = point at standing ⊢
    cases point with
    | _ => exact standing

theorem killPending_taskKillBlocked (live : task ∈ m.queues.tasks)
    (isOf : m.queues.process task = some slot) :
    (taskKillBlocked m asked slot).queues.killPending task = true := by
  change (m.queues.killPending task || decide (task ∈ m.queues.tasks ∧ _)) = true
  rw [decide_eq_true ⟨live, isOf⟩, Bool.or_true]

variable {serial : Nat}

theorem killsReach_noteKilled (reach : KillsReach m) (old : serial < m.nextSerial)
    (marked : ∀ task ∈ m.queues.tasks, m.owner task = some serial →
      m.queues.killPending task = true) : KillsReach (noteKilled m serial) where
  marked := List.forall_mem_cons.mpr ⟨marked, reach.marked⟩
  old := List.forall_mem_cons.mpr ⟨old, reach.old⟩
  right := reach.right
  stands task live := by
    have standing := reach.stands task live
    change Standing _ (m.point task)
    generalize m.point task = point at standing ⊢
    cases point with
    | _ => exact standing

theorem killsReach_setPoint (reach : KillsReach m) (standing : Standing m point) :
    KillsReach (m.setPoint task point) where
  marked := reach.marked
  old := reach.old
  right := reach.right
  stands other live := by
    have stands : Standing m (update m.point task point other) := by
      by_cases isTask : other = task
      · rw [isTask, update_self]
        exact standing
      · rw [update_of_ne isTask]
        exact reach.stands other live
    change Standing _ (update m.point task point other)
    generalize update m.point task point other = place at stands ⊢
    cases place with
    | _ => exact stands

/-- A task belongs to the process in the slot that holds its owner. -/
theorem Populated.slot_of_owner (populated : Populated m none) (live : task ∈ m.queues.tasks)
    (isOwner : m.owner task = some serial) :
    ∃ slot, m.queues.process task = some slot ∧ (m.processes slot).state = .running ∧
      m.serial slot = serial := by
  cases isOf : m.queues.process task with
  | none =>
    rw [populated.kernel task live isOf] at isOwner
    cases isOwner
  | some slot =>
    obtain ⟨running, _, owner, _⟩ := populated.member task live slot isOf
    exact ⟨slot, rfl, running, Option.some.inj (owner.symm.trans isOwner)⟩

/-- A marked task creates no thread, and the slot that the shell has found still holds the
process with the number that was asked for, if it holds a running one. -/
def KillsUndisturbed (m : Life) : Event → Prop
  | .threadCreate task _ => m.queues.killPending task = false
  | .resume task =>
    match m.point task with
    | .killMark pid slot _ =>
      (m.processes slot).state = .running → (m.processes slot).pid = pid
    | _ => True
  | _ => True

/-- Tasks have kept owner and mark, and running processes number and serial number. -/
theorem tame_of_same (tasks : after.queues.tasks ⊆ m.queues.tasks) (owner : after.owner = m.owner)
    (killPending : after.queues.killPending = m.queues.killPending)
    (point : ∀ task, after.point task = m.point task ∨ (after.point task).killing = false)
    (slots : ∀ slot, (after.processes slot).state = .running →
      (m.processes slot).state = .running ∧ (after.processes slot).pid = (m.processes slot).pid)
    (serial : after.serial = m.serial) (nextSerial : after.nextSerial = m.nextSerial)
    (killed : after.history.killed = m.history.killed)
    (marks : after.history.marked = m.history.marked) : Tame m after := by
  refine ⟨?_, ?_, nextSerial.ge, killed, marks⟩
  · intro task live
    exact .inl ⟨tasks live, congrFun owner task, congrFun killPending task, point task⟩
  · intro slot running
    obtain ⟨wasRunning, samePid⟩ := slots slot running
    exact .inl ⟨wasRunning, congrFun serial slot, samePid⟩

theorem setPoint_killing (idle : point.killing = false) (other : Nat) :
    update m.point task point other = m.point other ∨
      (update m.point task point other).killing = false := by
  by_cases isTask : other = task
  · rw [isTask, update_self]
    exact .inr idle
  · exact .inl (update_of_ne isTask ..)

theorem slots_update {record : Process} (state : record.state = (m.processes slot).state)
    (pid : record.pid = (m.processes slot).pid) (place : ProcessSlot)
    (running : (update m.processes slot record place).state = .running) :
    (m.processes place).state = .running ∧
      (update m.processes slot record place).pid = (m.processes place).pid := by
  by_cases isSlot : place = slot
  · rw [isSlot, update_self, state] at running
    rw [isSlot, update_self]
    exact ⟨running, pid⟩
  · rw [update_of_ne isSlot] at running ⊢
    exact ⟨running, rfl⟩

theorem slots_release (place : ProcessSlot)
    (running : (update m.processes slot .zero place).state = .running) :
    (m.processes place).state = .running ∧
      (update m.processes slot .zero place).pid = (m.processes place).pid := by
  by_cases isSlot : place = slot
  · rw [isSlot, update_self] at running
    cases running
  · rw [update_of_ne isSlot] at running ⊢
    exact ⟨running, rfl⟩

theorem Tame.finish (tame : Tame m after) (status : Int) :
    Tame m (processFinishExit after slot status) := by
  have running := fun place => @processFinishExit_running after slot place status
  obtain ⟨_, _, _, _, _, isFinished, woken⟩ := processFinishExit_frame after slot status
  rw [isFinished] at running ⊢
  refine ⟨fun task live => ?_, fun place still => ?_, tame.nextSerial, tame.killed, tame.marks⟩
  · have was := tame.tasks task (woken.tasks.mem_iff.mp live)
    rwa [← woken.killPending] at was
  · obtain ⟨wasRunning, samePid⟩ := running place still
    rw [samePid]
    exact tame.slots place wasRunning

/-- A new task belongs to a process that is not killed. -/
theorem tame_created (process : ProcessSlot) (populated : Populated m none)
    (tasks : after.queues.tasks = m.nextTask :: m.queues.tasks)
    (owner : after.owner = update m.owner m.nextTask (some (after.serial process)))
    (killPending : after.queues.killPending = update m.queues.killPending m.nextTask false)
    (point : after.point = update m.point m.nextTask .running)
    (notKilled : after.serial process ∉ m.history.killed)
    (slots : ∀ slot, (after.processes slot).state = .running →
      (m.processes slot).state = .running ∧ after.serial slot = m.serial slot ∧
          (after.processes slot).pid = (m.processes slot).pid ∨
        m.nextSerial ≤ after.serial slot)
    (nextSerial : m.nextSerial ≤ after.nextSerial)
    (killed : after.history.killed = m.history.killed)
    (marks : after.history.marked = m.history.marked) : Tame m after := by
  refine ⟨?_, slots, nextSerial, killed, marks⟩
  intro task live
  rw [tasks] at live
  rw [owner, killPending, point]
  rcases List.mem_cons.mp live with isNew | wasLive
  · rw [isNew, update_self, update_self, update_self]
    refine .inr ⟨fun serial isKilled isOwner => ?_, rfl⟩
    exact notKilled (Option.some.inj isOwner ▸ isKilled)
  · have different := populated.old wasLive
    rw [update_of_ne different, update_of_ne different, update_of_ne different]
    exact .inl ⟨wasLive, rfl, rfl, .inl rfl⟩

theorem KillsReach.turn (reach : KillsReach m) (orderly : Orderly m) {event : Event}
    (allowed : KillsUndisturbed m event) (turn : Turn m event after) : KillsReach after := by
  have populated := orderly.populated
  have live : ∀ {task : Nat}, task ∈ m.queues.ready → task ∈ m.queues.tasks :=
    TaskQueues.mem_tasks_of_ready
  have all : m.queues.tasks ⊆ m.queues.tasks := fun _ => id
  have exited : ∀ {task : Nat}, task ∈ m.queues.ready → (m.queues.exit task).tasks ⊆ m.queues.tasks :=
    fun isReady other isLive => ((populated.mem_exit isReady).mp isLive).2
  have woken : ∀ {q : TaskQueues Channel ProcessSlot} {selects : Nat × Channel → Bool} {task : Nat},
      task ∈ (q.wakeWhere selects).tasks → task ∈ q.tasks :=
    fun isLive => TaskQueues.tasks_wakeWhere.subset isLive
  have stay : ∀ {point : Nat → Point} (task : Nat), point task = point task ∨
      (point task).killing = false :=
    fun _ => .inl rfl
  have keep : ∀ place, (m.processes place).state = .running →
      (m.processes place).state = .running ∧ (m.processes place).pid = (m.processes place).pid :=
    fun _ running => ⟨running, rfl⟩
  cases turn with
  | still => exact reach
  | goOn => exact killsReach_setPoint reach trivial
  | wasted => exact reach.of_tame (tame_of_same all rfl rfl stay keep rfl rfl rfl rfl)
  | stillborn nextPid isReady allocated =>
    rename_i task slot processes pid
    refine reach.of_tame ⟨fun _ isLive => .inl ⟨isLive, rfl, rfl, .inl rfl⟩, ?_, Nat.le_succ _, rfl, rfl⟩
    intro place running
    rw [Life.stillborn, destroySpace_processes] at running ⊢
    by_cases isSlot : place = slot
    · rw [isSlot, Life.release_self] at running
      cases running
    · rw [Life.release_of_ne _ isSlot] at running ⊢
      have same := claimed_of_ne (m := { m with nextSpace := m.nextSpace + 1 }) nextPid m.nextSpace
        allocated isSlot
      rw [same] at running ⊢
      exact .inl ⟨running, update_of_ne isSlot .., rfl⟩
  | launch nextPid isReady allocated =>
    rename_i task slot processes pid
    have isSerial : (Life.launched { m with nextSpace := m.nextSpace + 1 } slot processes nextPid
        m.nextSpace).serial slot = m.nextSerial := update_self ..
    refine reach.of_tame (tame_created slot populated rfl rfl rfl rfl ?_ ?_
      (Nat.le_succ _) rfl rfl)
    · rw [isSerial]
      exact fun isKilled => Nat.lt_irrefl _ (reach.old _ isKilled)
    · intro place running
      by_cases isSlot : place = slot
      · rw [isSlot, isSerial]
        exact .inr (Nat.le_refl _)
      · have same := launched_of_ne (m := { m with nextSpace := m.nextSpace + 1 }) nextPid
          m.nextSpace allocated isSlot
        rw [same] at running ⊢
        exact .inl ⟨running, update_of_ne isSlot .., rfl⟩
  | thread isReady isOf =>
    rename_i task slot memory
    have owner := (populated.member task (live isReady) slot isOf).owner
    refine reach.of_tame (tame_created slot populated rfl rfl rfl rfl ?_ ?_
      (Nat.le_refl _) rfl rfl)
    · intro isKilled
      have marked := reach.marked _ isKilled task (live isReady) owner
      rw [KillsUndisturbed] at allowed
      rw [allowed] at marked
      cases marked
    · intro place running
      left
      by_cases isSlot : place = slot
      · rw [isSlot, threadAdded_self] at running
        rw [isSlot, threadAdded_self]
        exact ⟨running, rfl, rfl⟩
      · rw [threadAdded_of_ne m isSlot] at running ⊢
        exact ⟨running, rfl, rfl⟩
  | exec isReady isOf alone =>
    rename_i task slot
    obtain ⟨destroyed, isReplaced⟩ := replaced_eq m task slot
    rw [isReplaced]
    exact reach.of_tame (tame_of_same all rfl rfl stay (slots_update rfl rfl) rfl rfl rfl rfl)
  | leave isReady =>
    exact reach.of_tame (tame_of_same (exited isReady) rfl rfl stay keep rfl rfl rfl rfl)
  | mainLeaves isReady =>
    exact reach.of_tame
      (tame_of_same (exited isReady) rfl rfl stay (slots_update rfl rfl) rfl rfl rfl rfl)
  | mainFinishes isReady isOf isMain noThreads status =>
    rename_i task slot
    have left : Tame m (m.mainLeftLast task slot status) :=
      tame_of_same (exited isReady) rfl rfl stay (slots_update rfl rfl) rfl rfl rfl rfl
    exact reach.of_tame (left.finish status)
  | threadLeaves isReady =>
    exact reach.of_tame (tame_of_same (fun _ isLive => exited isReady (woken isLive)) rfl rfl stay
      (slots_update rfl rfl) rfl rfl rfl rfl)
  | threadFinishes isReady isOf isThread isLast =>
    rename_i task slot
    have left : Tame m ((m.threadLeft task slot).wakeAll (.threadCount slot)) :=
      tame_of_same (fun _ isLive => exited isReady (woken isLive)) rfl rfl stay
        (slots_update rfl rfl) rfl rfl rfl rfl
    exact reach.of_tame (left.finish _)
  | block isReady reason =>
    rename_i task channel point
    have idle : point.killing = false := by
      cases reason with
      | _ => rfl
    exact reach.of_tame (tame_of_same (TaskQueues.tasks_block isReady channel).subset rfl rfl
      (setPoint_killing idle) keep rfl rfl rfl rfl)
  | reap =>
    exact reach.of_tame (tame_of_same all rfl rfl (setPoint_killing rfl) slots_release rfl rfl rfl rfl)
  | release =>
    exact reach.of_tame (tame_of_same all rfl rfl stay slots_release rfl rfl rfl rfl)
  | detach =>
    exact reach.of_tame (tame_of_same all rfl rfl stay (slots_update rfl rfl) rfl rfl rfl rfl)
  | wake => exact reach.of_tame (tame_of_same (fun _ => woken) rfl rfl stay keep rfl rfl rfl rfl)
  | requestKill found =>
    exact killsReach_taskKillBlocked reach populated fun _ => (processFind_eq_some found).2
  | kill found running =>
    rename_i pid slot
    have used := inUse_of_running running
    refine killsReach_noteKilled (killsReach_taskKillBlocked reach populated
      fun _ => (processFind_eq_some found).2) (orderly.related.old slot used) ?_
    intro task isLive isOwner
    have wasLive := woken isLive
    obtain ⟨place, isOf, isRunning, isSerial⟩ := populated.slot_of_owner wasLive isOwner
    have isSlot := orderly.related.serials place slot (inUse_of_running isRunning) used isSerial
    exact killPending_taskKillBlocked wasLive (isSlot ▸ isOf)
  | shellTest isReady isShell found running =>
    rename_i task pid slot
    have used := inUse_of_running running
    refine killsReach_setPoint reach ⟨orderly.related.old slot used, ?_⟩
    intro place isRunning isSerial
    rw [orderly.related.serials place slot (inUse_of_running isRunning) used isSerial]
    exact (processFind_eq_some found).2
  | shellMissed isReady stands missing =>
    rename_i task pid serial
    have standing := reach.stands task (live isReady)
    rw [stands] at standing
    have pointed : KillsReach (m.setPoint task .running) := killsReach_setPoint reach trivial
    refine killsReach_noteKilled pointed standing.1 ?_
    intro other isLive isOwner
    obtain ⟨place, _, isRunning, isSerial⟩ := populated.slot_of_owner isLive isOwner
    exact absurd (standing.2 place isRunning isSerial)
      (processFind_eq_none missing place (inUse_of_running isRunning))
  | shellFound isReady stands found =>
    rename_i task pid slot serial
    have standing := reach.stands task (live isReady)
    rw [stands] at standing
    refine killsReach_setPoint reach ⟨standing.1, fun place isRunning isSerial => ?_⟩
    have isFound := orderly.related.distinct.processFind (inUse_of_running isRunning)
    rw [standing.2 place isRunning isSerial] at isFound
    exact Option.some.inj (isFound.symm.trans found)
  | shellMark isReady stands =>
    rename_i task pid slot serial
    have standing := reach.stands task (live isReady)
    rw [stands] at standing
    rw [KillsUndisturbed, stands] at allowed
    have pointed : KillsReach (m.setPoint task .running) := killsReach_setPoint reach trivial
    refine killsReach_noteKilled (killsReach_taskKillBlocked pointed
      (populated.of_unmoved (unmoved_setPoint m task .running)) allowed) standing.1 ?_
    intro other isLive isOwner
    have wasLive := woken isLive
    obtain ⟨place, isOf, isRunning, isSerial⟩ := populated.slot_of_owner wasLive isOwner
    have isSlot := standing.2 place isRunning isSerial
    exact killPending_taskKillBlocked wasLive (isSlot ▸ isOf)

end MiniOS.Lifecycle
