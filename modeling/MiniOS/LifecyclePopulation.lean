import MiniOS.LifecycleTurns

/-!
# Tasks, processes and address spaces

Whatever is launched, forked, created, replaced, left and killed, every task runs in the
address space of its process, and this space has not been destroyed.  A process ends
when its last task leaves, once, with the status of its main task.
-/

namespace MiniOS.Lifecycle

open Function Paging Machine
open Kernel

structure Member (m : Life) (task : Nat) (slot : ProcessSlot) : Prop where
  running : (m.processes slot).state = .running
  space : m.space task = (m.processes slot).addressSpace
  owner : m.owner task = some (m.serial slot)
  kind : m.onExit task = .threadOnExit ∨
    m.onExit task = .processTaskExit ∧ (m.processes slot).task = some task ∧
      (m.processes slot).mainExited = false

def Life.isThread (m : Life) (slot : ProcessSlot) (task : Nat) : Bool :=
  decide (m.queues.process task = some slot) && decide (m.onExit task = .threadOnExit)

def Life.threads (m : Life) (slot : ProcessSlot) : Nat := m.queues.tasks.countP (m.isThread slot)

/-- What holds for a running process: it has an address space of its own, it has not
ended, and the status of its main task is known exactly if this has left. -/
structure Alive (m : Life) (slot : ProcessSlot) : Prop where
  space : ∃ id, (m.processes slot).addressSpace = .user id ∧ id < m.nextSpace ∧
    id ∉ m.history.destroyed
  started : m.serial slot ∈ m.history.started
  unfinished : m.serial slot ∉ m.history.finished.map Prod.fst
  status : (m.processes slot).mainExited = true →
    m.history.mainStatus (m.serial slot) = some (m.processes slot).exitStatus

/-- The tasks of a running process: as many threads as it counts, and its main task or,
once that has left, at least one thread. -/
structure Staffed (m : Life) (slot : ProcessSlot) : Prop where
  threads : (m.processes slot).threadCount = m.threads slot
  main : (m.processes slot).mainExited = false →
    ∃ task ∈ m.queues.tasks, m.queues.process task = some slot ∧ m.onExit task = .processTaskExit
  deferred : (m.processes slot).mainExited = true → 0 < (m.processes slot).threadCount

/-- Tasks and running processes fit together.  The process `leaving` has lost its last
task and is about to end. -/
structure Populated (m : Life) (leaving : Option ProcessSlot) : Prop where
  distinct : m.queues.tasks.Nodup
  numbered : ∀ task ∈ m.queues.tasks, task < m.nextTask
  member : ∀ task ∈ m.queues.tasks, ∀ slot, m.queues.process task = some slot → Member m task slot
  kernel : ∀ task ∈ m.queues.tasks, m.queues.process task = none → m.owner task = none
  alive : ∀ slot, (m.processes slot).state = .running → Alive m slot
  staffed : ∀ slot, (m.processes slot).state = .running → leaving ≠ some slot → Staffed m slot
  empty : ∀ slot, leaving = some slot → ∀ task ∈ m.queues.tasks, m.queues.process task ≠ some slot
  separate : ∀ slot other, (m.processes slot).state = .running →
    (m.processes other).state = .running → slot ≠ other →
      (m.processes slot).addressSpace ≠ (m.processes other).addressSpace ∧
        m.serial slot ≠ m.serial other
  gone : ∀ serial ∈ m.history.started,
    (∃ slot, (m.processes slot).state = .running ∧ m.serial slot = serial) ∨
      serial ∈ m.history.finished.map Prod.fst
  startedOld : ∀ serial ∈ m.history.started, serial < m.nextSerial
  finishedStarted : ∀ entry ∈ m.history.finished, entry.1 ∈ m.history.started ∧
    m.history.mainStatus entry.1 = some entry.2
  finishedOnce : (m.history.finished.map Prod.fst).Nodup
  destroyedOld : ∀ id ∈ m.history.destroyed, id < m.nextSpace
  destroyedOnce : m.history.destroyed.Nodup
  drained : ∀ slot, (m.processes slot).state ≠ .running ∨ leaving = some slot →
    (m.processes slot).threadCount = 0
  dead : ∀ slot, (m.processes slot).state = .zombie →
    (m.serial slot, (m.processes slot).exitStatus) ∈ m.history.finished

variable {m after : Life} {leaving : Option ProcessSlot} {slot other : ProcessSlot} {task : Nat}

/-- A process is still running, or still not, with the same space and tasks. -/
structure SameVitals (before after : Process) : Prop where
  running : after.state = .running ↔ before.state = .running
  fields : before.state = .running →
    after.addressSpace = before.addressSpace ∧ after.task = before.task ∧
      after.threadCount = before.threadCount ∧ after.mainExited = before.mainExited ∧
        after.exitStatus = before.exitStatus
  drained : before.threadCount = 0 → after.threadCount = 0
  dead : after.state = .zombie → before.state = .zombie ∧ after.exitStatus = before.exitStatus

theorem SameVitals.refl (proc : Process) : SameVitals proc proc :=
  ⟨Iff.rfl, fun _ => ⟨rfl, rfl, rfl, rfl, rfl⟩, id, fun zombie => ⟨zombie, rfl⟩⟩

theorem SameVitals.of_eq {before after : Process} (same : after = before) : SameVitals before after :=
  same ▸ .refl _

theorem SameVitals.released {proc : Process} (stopped : proc.state ≠ .running) :
    SameVitals proc .zero :=
  ⟨⟨fun running => (nomatch running), fun running => absurd running stopped⟩,
    fun running => absurd running stopped, fun _ => rfl, fun zombie => (nomatch zombie)⟩

theorem SameVitals.inUse {before after : Process} (same : SameVitals before after)
    (used : after.state ≠ .unused) : before.state ≠ .unused := by
  cases isState : after.state with
  | unused => exact absurd isState used
  | running =>
    rw [same.running.mp isState]
    decide
  | zombie =>
    rw [(same.dead isState).1]
    decide

/-- Tasks may have been blocked, woken and marked, and processes that do not run may have
been released; everything else that concerns tasks and running processes is as before. -/
structure Unmoved (m after : Life) : Prop where
  tasks : after.queues.tasks.Perm m.queues.tasks
  process : after.queues.process = m.queues.process
  onExit : after.onExit = m.onExit
  space : after.space = m.space
  owner : after.owner = m.owner
  serial : ∀ slot, InUse after.processes slot → after.serial slot = m.serial slot
  vitals : ∀ slot, SameVitals (m.processes slot) (after.processes slot)
  counters : after.nextTask = m.nextTask ∧ after.nextSpace = m.nextSpace ∧
    m.nextSerial ≤ after.nextSerial
  started : after.history.started = m.history.started
  mainStatus : after.history.mainStatus = m.history.mainStatus
  finished : after.history.finished = m.history.finished
  destroyed : after.history.destroyed = m.history.destroyed

theorem Unmoved.refl (m : Life) : Unmoved m m :=
  ⟨.refl _, rfl, rfl, rfl, rfl, fun _ _ => rfl, fun _ => .refl _, ⟨rfl, rfl, Nat.le_refl _⟩, rfl,
    rfl, rfl, rfl⟩

theorem Unmoved.trans {middle : Life} (first : Unmoved m middle) (second : Unmoved middle after) :
    Unmoved m after where
  tasks := second.tasks.trans first.tasks
  process := second.process.trans first.process
  onExit := second.onExit.trans first.onExit
  space := second.space.trans first.space
  owner := second.owner.trans first.owner
  serial slot used := (second.serial slot used).trans (first.serial slot ((second.vitals slot).inUse used))
  vitals slot := by
    refine ⟨(second.vitals slot).running.trans (first.vitals slot).running, fun running => ?_, ?_, ?_⟩
    · have before := (first.vitals slot).fields running
      have later := (second.vitals slot).fields ((first.vitals slot).running.mpr running)
      obtain ⟨space, task, count, exited, status⟩ := later
      rw [space, task, count, exited, status]
      exact before
    · exact (second.vitals slot).drained ∘ (first.vitals slot).drained
    · intro zombie
      obtain ⟨wasZombie, status⟩ := (second.vitals slot).dead zombie
      obtain ⟨firstZombie, firstStatus⟩ := (first.vitals slot).dead wasZombie
      exact ⟨firstZombie, status.trans firstStatus⟩
  counters := by
    obtain ⟨task, space, serial⟩ := second.counters
    obtain ⟨firstTask, firstSpace, firstSerial⟩ := first.counters
    exact ⟨task.trans firstTask, space.trans firstSpace, Nat.le_trans firstSerial serial⟩
  started := second.started.trans first.started
  mainStatus := second.mainStatus.trans first.mainStatus
  finished := second.finished.trans first.finished
  destroyed := second.destroyed.trans first.destroyed

theorem Unmoved.threads (unmoved : Unmoved m after) (slot : ProcessSlot) :
    after.threads slot = m.threads slot := by
  have same : after.isThread slot = m.isThread slot := by
    funext task
    rw [Life.isThread, Life.isThread, unmoved.process, unmoved.onExit]
  rw [Life.threads, Life.threads, same]
  exact unmoved.tasks.countP_eq _

theorem unmoved_setPoint (m : Life) (task : Nat) (point : Point) : Unmoved m (m.setPoint task point) :=
  { Unmoved.refl m with }

theorem unmoved_block (isReady : task ∈ m.queues.ready) (channel : Channel) (point : Point) :
    Unmoved m (m.block task channel point) :=
  { Unmoved.refl m with tasks := TaskQueues.tasks_block isReady channel }

theorem unmoved_of_woken {queues : TaskQueues Channel ProcessSlot} (woken : m.queues.Woken queues) :
    Unmoved m { m with queues := queues } :=
  { Unmoved.refl m with tasks := woken.tasks, process := woken.process }

theorem unmoved_wakeAll (m : Life) (channel : Channel) : Unmoved m (m.wakeAll channel) :=
  unmoved_of_woken (TaskQueues.woken_wakeWhere ..)

/-- A process that does not run is released. -/
theorem unmoved_release (stopped : (m.processes slot).state ≠ .running) :
    Unmoved m (m.release slot) := by
  refine { Unmoved.refl m with serial := fun _ _ => rfl, vitals := fun other => ?_ }
  by_cases isSlot : other = slot
  · subst isSlot
    rw [Life.release_self]
    exact .released stopped
  · rw [Life.release_of_ne m isSlot]
    exact .refl _

theorem unmoved_leaveChildren (m : Life) (pid : Int) : Unmoved m (leaveChildren m pid) := by
  refine { Unmoved.refl m with serial := fun _ _ => rfl, vitals := fun slot => ?_ }
  rcases leaveChildren_cases m pid slot with ⟨same, -⟩ | ⟨zombie, -, isZero⟩ | ⟨-, -, changed⟩
  · rw [same]
    exact .refl _
  · rw [isZero]
    exact .released (by simp [zombie])
  · rw [changed]
    exact { SameVitals.refl (m.processes slot) with }

theorem unmoved_detach (m : Life) (slot : ProcessSlot) :
    Unmoved m (m.modifyProcess slot fun proc => { proc with parentPid := 0, autoReap := true }) := by
  refine { Unmoved.refl m with serial := fun _ _ => rfl, vitals := fun other => ?_ }
  by_cases isSlot : other = slot
  · subst isSlot
    rw [Life.modifyProcess_self]
    exact { SameVitals.refl (m.processes other) with }
  · rw [Life.modifyProcess_of_ne m isSlot]
    exact .refl _

theorem unmoved_noteKilled (m : Life) (serial : Nat) : Unmoved m (noteKilled m serial) :=
  { Unmoved.refl m with }

theorem unmoved_taskKillBlocked (m : Life) (asked : Int) (slot : ProcessSlot) :
    Unmoved m (taskKillBlocked m asked slot) :=
  { Unmoved.refl m with tasks := TaskQueues.tasks_wakeWhere }

structure SameTask (m after : Life) (task : Nat) : Prop where
  process : after.queues.process task = m.queues.process task
  onExit : after.onExit task = m.onExit task
  space : after.space task = m.space task
  owner : after.owner task = m.owner task

variable {own : Set ProcessSlot}

/-- The processes outside `own` and their tasks are as before.  If a process of `own` was
running, its number may have been finished and its address space destroyed. -/
structure Elsewhere (m after : Life) (own : Set ProcessSlot) : Prop where
  vitals : ∀ place ∉ own, SameVitals (m.processes place) (after.processes place)
  serial : ∀ place ∉ own, InUse after.processes place → after.serial place = m.serial place
  came : ∀ task ∈ after.queues.tasks, (∀ slot ∈ own, after.queues.process task ≠ some slot) →
    task ∈ m.queues.tasks ∧ SameTask m after task
  stayed : ∀ task ∈ m.queues.tasks, ∀ place ∉ own, m.queues.process task = some place →
    task ∈ after.queues.tasks ∧ SameTask m after task
  threads : ∀ place ∉ own, after.threads place = m.threads place
  nextSpace : after.nextSpace = m.nextSpace
  started : m.history.started ⊆ after.history.started
  finished : ∀ place ∉ own, (m.processes place).state = .running →
    m.serial place ∈ after.history.finished.map Prod.fst →
      m.serial place ∈ m.history.finished.map Prod.fst
  destroyed : ∀ place ∉ own, (m.processes place).state = .running → ∀ id ∈ after.history.destroyed,
    (m.processes place).addressSpace = .user id → id ∈ m.history.destroyed
  mainStatus : ∀ serial, (serial ∈ m.history.finished.map Prod.fst ∨
      ∃ place ∉ own, (m.processes place).state = .running ∧ m.serial place = serial) →
    after.history.mainStatus serial = m.history.mainStatus serial

/-- What a step has to establish for a process that it concerns. -/
structure Accounted (m after : Life) (slot : ProcessSlot) (leaving : Option ProcessSlot) : Prop where
  member : ∀ task ∈ after.queues.tasks, after.queues.process task = some slot →
    Member after task slot
  alive : (after.processes slot).state = .running → Alive after slot
  staffed : (after.processes slot).state = .running → leaving ≠ some slot → Staffed after slot
  empty : leaving = some slot → ∀ task ∈ after.queues.tasks, after.queues.process task ≠ some slot
  drained : (after.processes slot).state ≠ .running ∨ leaving = some slot →
    (after.processes slot).threadCount = 0
  dead : (after.processes slot).state = .zombie →
    (after.serial slot, (after.processes slot).exitStatus) ∈ after.history.finished
  separate : (after.processes slot).state = .running → ∀ place, place ≠ slot →
    (m.processes place).state = .running →
      (m.processes place).addressSpace ≠ (after.processes slot).addressSpace ∧
        m.serial place ≠ after.serial slot
  still : (m.processes slot).state = .running →
    (after.processes slot).state = .running ∧ after.serial slot = m.serial slot ∨
      m.serial slot ∈ after.history.finished.map Prod.fst

theorem Elsewhere.populated {before : Option ProcessSlot} (elsewhere : Elsewhere m after own)
    (populated : Populated m before) (single : own.Subsingleton)
    (accounted : ∀ slot ∈ own, Accounted m after slot leaving)
    (sameLeaving : ∀ place ∉ own, leaving = some place ↔ before = some place)
    (distinct : after.queues.tasks.Nodup)
    (numbered : ∀ task ∈ after.queues.tasks, task < after.nextTask)
    (new : ∀ serial ∈ after.history.started, serial ∈ m.history.started ∨
      ∃ slot, (after.processes slot).state = .running ∧ after.serial slot = serial)
    (startedOld : ∀ serial ∈ after.history.started, serial < after.nextSerial)
    (more : m.history.finished ⊆ after.history.finished)
    (finished : ∀ entry ∈ after.history.finished, entry ∈ m.history.finished ∨
      entry.1 ∈ after.history.started ∧ after.history.mainStatus entry.1 = some entry.2)
    (finishedOnce : (after.history.finished.map Prod.fst).Nodup)
    (destroyedOld : ∀ id ∈ after.history.destroyed, id < after.nextSpace)
    (destroyedOnce : after.history.destroyed.Nodup) : Populated after leaving := by
  have running := fun place other => (elsewhere.vitals place other).running
  have serial : ∀ place ∉ own, (after.processes place).state = .running →
      after.serial place = m.serial place :=
    fun place other isRunning => elsewhere.serial place other (inUse_of_running isRunning)
  have space : ∀ place ∉ own, (after.processes place).state = .running →
      (after.processes place).addressSpace = (m.processes place).addressSpace :=
    fun place other isRunning =>
      ((elsewhere.vitals place other).fields ((running place other).mp isRunning)).1
  have came : ∀ task ∈ after.queues.tasks, ∀ place ∉ own, after.queues.process task = some place →
      task ∈ m.queues.tasks ∧ SameTask m after task :=
    fun task live place other isOf => elsewhere.came task live fun slot isOwn isIn =>
      other (Option.some.inj (isOf.symm.trans isIn) ▸ isOwn)
  constructor
  case distinct => exact distinct
  case numbered => exact numbered
  case member =>
    intro task live place isOf
    by_cases isOwn : place ∈ own
    · exact (accounted place isOwn).member task live isOf
    · obtain ⟨wasLive, same⟩ := came task live place isOwn isOf
      obtain ⟨wasRunning, isSpace, owner, kind⟩ :=
        populated.member task wasLive place (same.process.symm.trans isOf)
      obtain ⟨sameSpace, sameTask, _, sameExited, _⟩ := (elsewhere.vitals place isOwn).fields wasRunning
      have isRunning := (running place isOwn).mpr wasRunning
      refine ⟨isRunning, ?_, ?_, ?_⟩
      · rw [same.space, sameSpace, isSpace]
      · rw [same.owner, serial place isOwn isRunning, owner]
      · rwa [same.onExit, sameTask, sameExited]
  case kernel =>
    intro task live isKernel
    obtain ⟨wasLive, same⟩ := elsewhere.came task live (by simp [isKernel])
    rw [same.owner]
    exact populated.kernel task wasLive (same.process.symm.trans isKernel)
  case alive =>
    intro place isRunning
    by_cases isOwn : place ∈ own
    · exact (accounted place isOwn).alive isRunning
    · have wasRunning := (running place isOwn).mp isRunning
      obtain ⟨⟨id, isSpace, old, kept⟩, started, unfinished, status⟩ :=
        populated.alive place wasRunning
      obtain ⟨sameSpace, _, _, sameExited, sameStatus⟩ :=
        (elsewhere.vitals place isOwn).fields wasRunning
      have known := elsewhere.mainStatus _ (.inr ⟨place, isOwn, wasRunning, rfl⟩)
      refine ⟨⟨id, sameSpace.trans isSpace, elsewhere.nextSpace ▸ old, fun gone => ?_⟩, ?_, ?_, ?_⟩
      · exact kept (elsewhere.destroyed place isOwn wasRunning id gone isSpace)
      · rw [serial place isOwn isRunning]
        exact elsewhere.started started
      · rw [serial place isOwn isRunning]
        exact mt (elsewhere.finished place isOwn wasRunning) unfinished
      · rwa [serial place isOwn isRunning, known, sameExited, sameStatus]
  case staffed =>
    intro place isRunning stays
    by_cases isOwn : place ∈ own
    · exact (accounted place isOwn).staffed isRunning stays
    · have wasRunning := (running place isOwn).mp isRunning
      obtain ⟨threads, main, deferred⟩ :=
        populated.staffed place wasRunning (mt (sameLeaving place isOwn).mpr stays)
      obtain ⟨_, _, sameCount, sameExited, _⟩ := (elsewhere.vitals place isOwn).fields wasRunning
      rw [← sameExited] at main deferred
      refine ⟨?_, fun notExited => ?_, sameCount.symm ▸ deferred⟩
      · rw [sameCount, threads, elsewhere.threads place isOwn]
      · obtain ⟨task, live, isOf, isMain⟩ := main notExited
        obtain ⟨stillLive, same⟩ := elsewhere.stayed task live place isOwn isOf
        exact ⟨task, stillLive, same.process.trans isOf, same.onExit.trans isMain⟩
  case empty =>
    intro place isLeaving task live isOf
    by_cases isOwn : place ∈ own
    · exact (accounted place isOwn).empty isLeaving task live isOf
    · obtain ⟨wasLive, same⟩ := came task live place isOwn isOf
      exact populated.empty place ((sameLeaving place isOwn).mp isLeaving) task wasLive
        (same.process.symm.trans isOf)
  case separate =>
    intro place other isRunning otherRunning different
    by_cases isOwn : place ∈ own
    · have notOwn : other ∉ own := fun otherOwn => different (single isOwn otherOwn)
      obtain ⟨spaces, serials⟩ := (accounted place isOwn).separate isRunning other different.symm
        ((running other notOwn).mp otherRunning)
      rw [space other notOwn otherRunning, serial other notOwn otherRunning]
      exact ⟨spaces.symm, serials.symm⟩
    · have wasRunning := (running place isOwn).mp isRunning
      rw [space place isOwn isRunning, serial place isOwn isRunning]
      by_cases otherOwn : other ∈ own
      · exact (accounted other otherOwn).separate otherRunning place different wasRunning
      · rw [space other otherOwn otherRunning, serial other otherOwn otherRunning]
        exact populated.separate place other wasRunning ((running other otherOwn).mp otherRunning)
          different
  case gone =>
    intro number isStarted
    rcases new number isStarted with wasStarted | isNew
    · rcases populated.gone number wasStarted with ⟨place, wasRunning, isSerial⟩ | wasFinished
      · by_cases isOwn : place ∈ own
        · rw [← isSerial]
          exact ((accounted place isOwn).still wasRunning).imp_left fun stays => ⟨place, stays⟩
        · have isRunning := (running place isOwn).mpr wasRunning
          exact .inl ⟨place, isRunning, (serial place isOwn isRunning).trans isSerial⟩
      · exact .inr (List.map_subset _ more wasFinished)
    · exact .inl isNew
  case startedOld => exact startedOld
  case finishedStarted =>
    intro entry isFinished
    rcases finished entry isFinished with wasFinished | isNew
    · obtain ⟨isStarted, known⟩ := populated.finishedStarted entry wasFinished
      have same := elsewhere.mainStatus _ (.inl (List.mem_map_of_mem wasFinished))
      exact ⟨elsewhere.started isStarted, same.trans known⟩
    · exact isNew
  case finishedOnce => exact finishedOnce
  case destroyedOld => exact destroyedOld
  case destroyedOnce => exact destroyedOnce
  case drained =>
    intro place stopped
    by_cases isOwn : place ∈ own
    · exact (accounted place isOwn).drained stopped
    · refine (elsewhere.vitals place isOwn).drained (populated.drained place ?_)
      exact stopped.imp (mt (running place isOwn).mpr) (sameLeaving place isOwn).mp
  case dead =>
    intro place zombie
    by_cases isOwn : place ∈ own
    · exact (accounted place isOwn).dead zombie
    · obtain ⟨wasZombie, status⟩ := (elsewhere.vitals place isOwn).dead zombie
      rw [elsewhere.serial place isOwn (inUse_of_zombie zombie), status]
      exact more (populated.dead place wasZombie)

theorem Unmoved.elsewhere (unmoved : Unmoved m after) : Elsewhere m after ∅ := by
  have same : ∀ task, SameTask m after task := fun task => ⟨congrFun unmoved.process task,
    congrFun unmoved.onExit task, congrFun unmoved.space task, congrFun unmoved.owner task⟩
  refine ⟨fun place _ => unmoved.vitals place, fun place _ => unmoved.serial place,
    fun task live _ => ⟨unmoved.tasks.mem_iff.mp live, same task⟩,
    fun task live _ _ _ => ⟨unmoved.tasks.mem_iff.mpr live, same task⟩,
    fun place _ => unmoved.threads place, unmoved.counters.2.1, ?_, ?_, ?_,
    fun serial _ => congrFun unmoved.mainStatus serial⟩
  · exact unmoved.started ▸ List.Subset.refl _
  · exact fun _ _ _ => unmoved.finished ▸ id
  · exact fun _ _ _ id gone _ => unmoved.destroyed ▸ gone

theorem Populated.of_unmoved (populated : Populated m leaving) (unmoved : Unmoved m after) :
    Populated after leaving := by
  obtain ⟨nextTask, nextSpace, nextSerial⟩ := unmoved.counters
  refine unmoved.elsewhere.populated populated Set.subsingleton_empty nofun (fun _ _ => Iff.rfl)
    (unmoved.tasks.nodup_iff.mpr populated.distinct) ?_ ?_ ?_ ?_ ?_ ?_ ?_ ?_
  · intro task live
    rw [nextTask]
    exact populated.numbered task (unmoved.tasks.mem_iff.mp live)
  · exact fun serial isStarted => .inl (unmoved.started ▸ isStarted)
  · rw [unmoved.started]
    exact fun serial isStarted => Nat.lt_of_lt_of_le (populated.startedOld serial isStarted) nextSerial
  · exact unmoved.finished ▸ List.Subset.refl _
  · exact fun entry isFinished => .inl (unmoved.finished ▸ isFinished)
  · rw [unmoved.finished]
    exact populated.finishedOnce
  · rw [unmoved.destroyed, nextSpace]
    exact populated.destroyedOld
  · rw [unmoved.destroyed]
    exact populated.destroyedOnce

variable {status : Int} {id : SpaceId}

/-- The process whose last task has left loses its address space and becomes a zombie. -/
theorem populated_becomeZombie (populated : Populated m (some slot))
    (wasRunning : (m.processes slot).state = .running)
    (isSpace : (m.processes slot).addressSpace = .user id)
    (known : m.history.mainStatus (m.serial slot) = some status) :
    Populated (becomeZombie (m.destroySpace (.user id)) slot status) none := by
  have self := becomeZombie_self (m.destroySpace (.user id)) slot status
  have alive := populated.alive slot wasRunning
  obtain ⟨same, isSame, old, kept⟩ := alive.space
  rw [isSpace, SpacePtr.user.injEq] at isSame
  subst isSame
  have apart := fun place different isRunning =>
    populated.separate place slot isRunning wasRunning different
  have others : Elsewhere m (becomeZombie (m.destroySpace (.user id)) slot status) {slot} := by
    refine ⟨fun place other => .of_eq (becomeZombie_of_ne _ other status), fun _ _ _ => rfl,
      fun _ live _ => ⟨live, rfl, rfl, rfl, rfl⟩, fun _ live _ _ _ => ⟨live, rfl, rfl, rfl, rfl⟩,
      fun _ _ => rfl, rfl, List.Subset.refl _, ?_, ?_, fun _ _ => rfl⟩
    · intro place different isRunning ended
      exact (List.mem_cons.mp ended).resolve_left (apart place different isRunning).2
    · intro place different isRunning gone isGone isIn
      refine (List.mem_cons.mp isGone).resolve_left ?_
      rintro rfl
      exact (apart place different isRunning).1 (isIn.trans isSpace.symm)
  refine others.populated populated Set.subsingleton_singleton ?_ ?_ populated.distinct
    populated.numbered (fun _ => .inl) populated.startedOld (List.subset_cons_self ..)
    (List.forall_mem_cons.mpr ⟨.inr ⟨alive.started, known⟩, fun _ => .inl⟩)
    (List.nodup_cons.mpr ⟨alive.unfinished, populated.finishedOnce⟩)
    (List.forall_mem_cons.mpr ⟨old, populated.destroyedOld⟩)
    (List.nodup_cons.mpr ⟨kept, populated.destroyedOnce⟩)
  · rintro _ rfl
    refine ⟨?_, ?_, ?_, nofun, ?_, ?_, ?_, fun _ => .inr List.mem_cons_self⟩
    · exact fun task live isOf => absurd isOf (populated.empty _ rfl task live)
    · rw [self]
      exact nofun
    · rw [self]
      exact nofun
    · rw [self]
      exact fun _ => populated.drained _ (.inr rfl)
    · rw [self]
      exact fun _ => List.mem_cons_self
    · rw [self]
      exact nofun
  · intro place different
    simpa using Ne.symm different

theorem populated_processFinishExit (populated : Populated m (some slot))
    (running : (m.processes slot).state = .running)
    (known : m.history.mainStatus (m.serial slot) = some status) :
    Populated (processFinishExit m slot status) none := by
  have died : Populated (m.died slot status) none := by
    rw [Life.died]
    have unmoved := unmoved_leaveChildren m (m.processes slot).pid
    have sameSpace := ((unmoved.vitals slot).fields running).1
    generalize leaveChildren m (m.processes slot).pid = childless at unmoved sameSpace ⊢
    obtain ⟨id, isSpace, _⟩ := (populated.alive slot running).space
    rw [isSpace] at sameSpace
    have stillRunning := (unmoved.vitals slot).running.mpr running
    rw [← unmoved.mainStatus, ← unmoved.serial slot (inUse_of_running stillRunning)] at known
    rw [sameSpace]
    exact populated_becomeZombie (populated.of_unmoved unmoved) stillRunning sameSpace known
  have zombie := died_self m slot status
  rw [processFinishExit_eq]
  generalize m.died slot status = dead at died zombie ⊢
  obtain ⟨queues, isTold, woken⟩ := told_eq dead slot
  have told := unmoved_of_woken woken
  rw [isTold]
  split
  · exact died.of_unmoved (told.trans (unmoved_release (by simp [zombie])))
  · exact died.of_unmoved told

variable {other : Nat} (populated : Populated m none) (isReady : task ∈ m.queues.ready)

include populated isReady

theorem Populated.mem_exit :
    other ∈ (m.queues.exit task).tasks ↔ other ≠ task ∧ other ∈ m.queues.tasks := by
  rw [TaskQueues.tasks_exit isReady, populated.distinct.mem_erase_iff]

omit populated in
/-- A task that leaves was counted if it is a thread of the process. -/
theorem threads_leave (slot other : ProcessSlot)
    (record : Process) (mainStatus : Nat → Option Int) :
    (m.leave task slot record mainStatus).threads other =
      m.threads other - if m.isThread other task then 1 else 0 := by
  have counted := List.countP_erase (m.isThread other) m.queues.tasks task
  rw [← TaskQueues.tasks_exit isReady] at counted
  refine counted.trans ?_
  simp only [TaskQueues.mem_tasks_of_ready isReady, true_and]
  rfl

/-- A task that belongs to no process leaves. -/
theorem Populated.leave_kernel (isKernel : m.queues.process task = none) :
    Populated { m with queues := m.queues.exit task } none := by
  have mem : ∀ other, other ∈ (m.queues.exit task).tasks ↔ other ≠ task ∧ other ∈ m.queues.tasks :=
    fun other => populated.mem_exit isReady
  have threads : ∀ slot, Life.threads { m with queues := m.queues.exit task } slot = m.threads slot := by
    intro slot
    have counted := List.countP_erase (m.isThread slot) m.queues.tasks task
    rw [← TaskQueues.tasks_exit isReady] at counted
    refine counted.trans ?_
    simp [Life.isThread, isKernel, Life.threads]
  have others : Elsewhere m { m with queues := m.queues.exit task } ∅ := by
    refine ⟨fun _ _ => .refl _, fun _ _ _ => rfl, ?_, ?_, fun slot _ => threads slot, rfl,
      List.Subset.refl _, fun _ _ _ => id, fun _ _ _ _ gone _ => gone, fun _ _ => rfl⟩
    · exact fun other live _ => ⟨((mem other).mp live).2, rfl, rfl, rfl, rfl⟩
    · intro other live slot _ isOf
      refine ⟨(mem other).mpr ⟨fun same => ?_, live⟩, rfl, rfl, rfl, rfl⟩
      rw [same, isKernel] at isOf
      cases isOf
  exact others.populated populated Set.subsingleton_empty nofun (fun _ _ => Iff.rfl)
    ((TaskQueues.tasks_exit isReady).symm ▸ populated.distinct.erase task)
    (fun other live => populated.numbered other ((mem other).mp live).2) (fun _ => .inl)
    populated.startedOld (List.Subset.refl _) (fun _ => .inl) populated.finishedOnce
    populated.destroyedOld populated.destroyedOnce

variable (isOf : m.queues.process task = some slot)

include isOf

theorem Populated.leave {record : Process} {mainStatus : Nat → Option Int}
    (sameState : record.state = .running)
    (sameSpace : record.addressSpace = (m.processes slot).addressSpace)
    (elsewhere : ∀ serial, serial ≠ m.serial slot → mainStatus serial = m.history.mainStatus serial)
    (status : record.mainExited = true → mainStatus (m.serial slot) = some record.exitStatus)
    (kinds : ∀ other ∈ m.queues.tasks, other ≠ task → m.queues.process other = some slot →
      m.onExit other = .threadOnExit ∨
        m.onExit other = .processTaskExit ∧ record.task = some other ∧ record.mainExited = false)
    (leaves : leaving = none ∧ Staffed (m.leave task slot record mainStatus) slot ∨
      leaving = some slot ∧ record.threadCount = 0 ∧
        ∀ other ∈ m.queues.tasks, other ≠ task → m.queues.process other ≠ some slot) :
    Populated (m.leave task slot record mainStatus) leaving := by
  have wasRunning := (populated.member task (TaskQueues.mem_tasks_of_ready isReady) slot isOf).running
  have mem : ∀ other, other ∈ (m.queues.exit task).tasks ↔ other ≠ task ∧ other ∈ m.queues.tasks :=
    fun other => populated.mem_exit isReady
  have self := m.leave_self task slot record mainStatus
  have alive := populated.alive slot wasRunning
  have others : Elsewhere m (m.leave task slot record mainStatus) {slot} := by
    refine ⟨fun place other => .of_eq (update_of_ne other ..), fun _ _ _ => rfl, ?_, ?_, ?_, rfl,
      List.Subset.refl _, fun _ _ _ => id, fun _ _ _ _ gone _ => gone, fun serial known => ?_⟩
    · exact fun other live _ => ⟨((mem other).mp live).2, rfl, rfl, rfl, rfl⟩
    · intro other live place different isIn
      refine ⟨(mem other).mpr ⟨fun same => ?_, live⟩, rfl, rfl, rfl, rfl⟩
      exact different (Option.some.inj (isIn.symm.trans (same ▸ isOf)))
    · intro place different
      have notThread : m.isThread place task = false := by
        rw [Life.isThread, isOf, decide_eq_false (by simpa using Ne.symm different), Bool.false_and]
      rw [threads_leave isReady, notThread]
      rfl
    · refine elsewhere serial fun isOwn => ?_
      rcases known with ended | ⟨place, different, isRunning, isSerial⟩
      · exact alive.unfinished (isOwn ▸ ended)
      · exact (populated.separate place slot isRunning wasRunning different).2 (isSerial.trans isOwn)
  refine others.populated populated Set.subsingleton_singleton ?_ ?_ ?_ ?_ (fun _ => .inl)
    populated.startedOld (List.Subset.refl _) (fun _ => .inl) populated.finishedOnce
    populated.destroyedOld populated.destroyedOnce
  · rintro _ rfl
    constructor
    case member =>
      intro other live isIn
      obtain ⟨different, wasLive⟩ := (mem other).mp live
      obtain ⟨_, space, owner, _⟩ := populated.member other wasLive _ isIn
      refine ⟨self.symm ▸ sameState, ?_, owner, self.symm ▸ kinds other wasLive different isIn⟩
      rw [self, sameSpace]
      exact space
    case alive =>
      intro _
      refine ⟨?_, alive.started, alive.unfinished, self.symm ▸ status⟩
      rw [self, sameSpace]
      exact alive.space
    case staffed =>
      intro _ stays
      rcases leaves with ⟨_, staffed⟩ | ⟨isLeaving, _⟩
      · exact staffed
      · exact absurd isLeaving stays
    case empty =>
      intro isLeaving other live
      obtain ⟨different, wasLive⟩ := (mem other).mp live
      rcases leaves with ⟨stays, _⟩ | ⟨_, _, empty⟩
      · cases stays.symm.trans isLeaving
      · exact empty other wasLive different
    case drained =>
      rw [self]
      intro stopped
      rcases leaves with ⟨stays, _⟩ | ⟨_, noThreads, _⟩
      · cases stays.symm.trans (stopped.resolve_left (not_not_intro sameState))
      · exact noThreads
    case dead =>
      rw [self, sameState]
      exact nofun
    case separate =>
      intro _ place different isRunning
      rw [self, sameSpace]
      exact populated.separate place _ isRunning wasRunning different
    case still => exact fun _ => .inl ⟨self.symm ▸ sameState, rfl⟩
  · intro place different
    rcases leaves with ⟨rfl, _⟩ | ⟨rfl, _⟩
    · rfl
    · simpa using Ne.symm different
  · exact (TaskQueues.tasks_exit isReady).symm ▸ populated.distinct.erase task
  · exact fun other live => populated.numbered other ((mem other).mp live).2

/-- The main task leaves while there are threads. -/
theorem Populated.leave_deferred (isMain : m.onExit task = .processTaskExit)
    (hasThreads : 0 < (m.processes slot).threadCount) (status : Int) :
    Populated (m.mainLeft task slot status) none := by
  have live := TaskQueues.mem_tasks_of_ready isReady
  have member := populated.member task live slot isOf
  refine populated.leave isReady isOf member.running rfl ?_ ?_ ?_ (.inl ⟨rfl, ?_⟩)
  · exact fun serial different => update_of_ne different ..
  · exact fun _ => update_self ..
  · intro other otherLive different isIn
    refine .inl ((populated.member other otherLive slot isIn).kind.resolve_right ?_)
    rintro ⟨_, isOther, _⟩
    -- the record names the task that leaves as the main task
    rcases member.kind with isThread | ⟨_, isTask, _⟩
    · rw [isMain] at isThread
      cases isThread
    · rw [isTask, Option.some.injEq] at isOther
      exact different isOther.symm
  · obtain ⟨threads, _, _⟩ := populated.staffed slot member.running (by simp)
    have notThread : m.isThread slot task = false := by
      rw [Life.isThread, isMain]
      simp
    constructor
    · rw [threads_leave isReady, notThread, Life.leave_self]
      exact threads
    · rw [Life.leave_self]
      intro notExited
      cases notExited
    · rw [Life.leave_self]
      exact fun _ => hasThreads

omit isReady isOf in
theorem Populated.no_thread (running : (m.processes slot).state = .running)
    (none : (m.processes slot).threadCount = 0) :
    ∀ other ∈ m.queues.tasks, m.queues.process other = some slot → m.onExit other ≠ .threadOnExit := by
  intro other live isIn isThread
  rw [(populated.staffed slot running (by simp)).threads, Life.threads, List.countP_eq_zero] at none
  refine none other live ?_
  rw [Life.isThread, isIn, isThread]
  simp

omit isReady in
/-- The main task of a process without threads is its only task. -/
theorem Populated.alone (live : task ∈ m.queues.tasks)
    (noThreads : (m.processes slot).threadCount = 0) (otherLive : other ∈ m.queues.tasks)
    (otherOf : m.queues.process other = some slot) : other = task := by
  have member := populated.member task live slot isOf
  have otherMember := populated.member other otherLive slot otherOf
  have noThread := populated.no_thread member.running noThreads
  obtain ⟨_, isTask, _⟩ := member.kind.resolve_left (noThread task live isOf)
  obtain ⟨_, isOther, _⟩ := otherMember.kind.resolve_left (noThread other otherLive otherOf)
  exact Option.some.inj (isOther.symm.trans isTask)

theorem Populated.leave_main (isMain : m.onExit task = .processTaskExit)
    (noThreads : (m.processes slot).threadCount = 0) (status : Int) :
    Populated (m.mainLeftLast task slot status) (some slot) := by
  have live := TaskQueues.mem_tasks_of_ready isReady
  have member := populated.member task live slot isOf
  refine populated.leave isReady isOf member.running rfl ?_ ?_ ?_ (.inr ⟨rfl, noThreads, ?_⟩)
  · exact fun serial different => update_of_ne different ..
  · intro isExited
    rcases member.kind with isThread | ⟨_, _, notExited⟩
    · rw [isMain] at isThread
      cases isThread
    · rw [notExited] at isExited
      cases isExited
  · exact fun other otherLive _ isIn => (populated.member other otherLive slot isIn).kind
  · exact fun other otherLive different isIn =>
      different (populated.alone isOf live noThreads otherLive isIn)

theorem Populated.leave_thread (isThread : m.onExit task = .threadOnExit)
    (leaves : leaving = none ∧
        ¬ ((m.processes slot).threadCount - 1 = 0 ∧ (m.processes slot).mainExited = true) ∨
      leaving = some slot ∧
        (m.processes slot).threadCount - 1 = 0 ∧ (m.processes slot).mainExited = true) :
    Populated (m.threadLeft task slot) leaving := by
  have live := TaskQueues.mem_tasks_of_ready isReady
  have member := populated.member task live slot isOf
  have staffed := populated.staffed slot member.running (by simp)
  have counted : m.isThread slot task = true := by
    rw [Life.isThread, isOf, isThread]
    simp
  have threads : (m.threadLeft task slot).threads slot = (m.processes slot).threadCount - 1 := by
    rw [Life.threadLeft, threads_leave isReady, counted, staffed.threads, if_pos rfl]
  refine populated.leave isReady isOf member.running rfl (fun _ _ => rfl) ?_ ?_ ?_
  · exact (populated.alive slot member.running).status
  · exact fun other otherLive _ isIn => (populated.member other otherLive slot isIn).kind
  · rcases leaves with ⟨stays, notLast⟩ | ⟨isLast, noThread, exited⟩
    · refine .inl ⟨stays, ?_⟩
      change Staffed (m.threadLeft task slot) slot
      constructor
      · rw [threads, threadLeft_self]
      · rw [threadLeft_self]
        intro notExited
        obtain ⟨other, otherLive, isIn, isMain⟩ := staffed.main notExited
        refine ⟨other, (populated.mem_exit isReady).mpr ⟨fun same => ?_, otherLive⟩, isIn, isMain⟩
        rw [same, isThread] at isMain
        cases isMain
      · rw [threadLeft_self]
        intro exited
        exact Nat.pos_of_ne_zero fun none => notLast ⟨none, exited⟩
    · refine .inr ⟨isLast, noThread, fun other otherLive different isIn => ?_⟩
      rcases (populated.member other otherLive slot isIn).kind with otherThread | ⟨_, _, notExited⟩
      · rw [noThread, Life.threads, List.countP_eq_zero] at threads
        refine threads other ((populated.mem_exit isReady).mpr ⟨different, otherLive⟩) ?_
        rw [Life.isThread, Bool.and_eq_true, decide_eq_true_eq, decide_eq_true_eq]
        exact ⟨isIn, otherThread⟩
      · rw [exited] at notExited
        cases notExited

omit isReady isOf

/-- The address space exists and belongs to no process. -/
structure FreshSpace (m : Life) (id : SpaceId) : Prop where
  old : id < m.nextSpace
  kept : id ∉ m.history.destroyed
  unowned : ∀ slot, (m.processes slot).state = .running → (m.processes slot).addressSpace ≠ .user id

theorem Populated.of_spaces {nextSpace : SpaceId} {destroyed : List SpaceId} (more : m.nextSpace ≤ nextSpace)
    (kept : ∀ slot, (m.processes slot).state = .running → ∀ id,
      (m.processes slot).addressSpace = .user id → id ∉ m.history.destroyed → id ∉ destroyed)
    (old : ∀ id ∈ destroyed, id < nextSpace) (once : destroyed.Nodup) :
    Populated
      { m with nextSpace := nextSpace, history := { m.history with destroyed := destroyed } } none := by
  refine { populated with
    member := ?_
    alive := ?_
    staffed := ?_
    destroyedOld := old
    destroyedOnce := once }
  · intro task live slot isOf
    exact { populated.member task live slot isOf with }
  · intro slot running
    obtain ⟨⟨id, isSpace, isOld, isKept⟩, started, unfinished, status⟩ := populated.alive slot running
    have stillKept := kept slot running id isSpace isKept
    exact ⟨⟨id, isSpace, Nat.lt_of_lt_of_le isOld more, stillKept⟩, started, unfinished, status⟩
  · intro slot running stays
    exact { populated.staffed slot running stays with }

theorem Populated.createSpace :
    Populated { m with nextSpace := m.nextSpace + 1 } none ∧
      FreshSpace { m with nextSpace := m.nextSpace + 1 } m.nextSpace := by
  refine ⟨populated.of_spaces (Nat.le_succ _) (fun _ _ _ _ kept => kept) ?_ populated.destroyedOnce,
    Nat.lt_succ_self _, ?_, ?_⟩
  · exact fun id isDestroyed => Nat.lt_succ_of_lt (populated.destroyedOld id isDestroyed)
  · exact fun isDestroyed => Nat.lt_irrefl _ (populated.destroyedOld _ isDestroyed)
  · intro slot running isSpace
    obtain ⟨id, isOther, old, _⟩ := (populated.alive slot running).space
    rw [isOther, SpacePtr.user.injEq] at isSpace
    exact Nat.lt_irrefl _ (isSpace ▸ old)

omit populated in
theorem FreshSpace.of_unmoved (fresh : FreshSpace m id) (unmoved : Unmoved m after) :
    FreshSpace after id where
  old := unmoved.counters.2.1.symm ▸ fresh.old
  kept := unmoved.destroyed.symm ▸ fresh.kept
  unowned slot running := by
    have wasRunning := (unmoved.vitals slot).running.mp running
    rw [((unmoved.vitals slot).fields wasRunning).1]
    exact fresh.unowned slot wasRunning

theorem Populated.destroySpace (fresh : FreshSpace m id) :
    Populated (m.destroySpace (.user id)) none := by
  refine populated.of_spaces (Nat.le_refl _) ?_ ?_ ?_
  · intro slot running other isSpace kept
    refine List.not_mem_cons_of_ne_of_not_mem (fun same => ?_) kept
    exact fresh.unowned slot running (same ▸ isSpace)
  · exact List.forall_mem_cons.mpr ⟨fresh.old, populated.destroyedOld⟩
  · exact List.nodup_cons.mpr ⟨fresh.kept, populated.destroyedOnce⟩

/-- A new task of a process has been added, and the record of this process may be another
one. -/
structure Entered (m after : Life) (slot : ProcessSlot) (onExit : ExitCallback) : Prop where
  tasks : after.queues.tasks = m.nextTask :: m.queues.tasks
  newProcess : after.queues.process m.nextTask = some slot
  newExit : after.onExit m.nextTask = onExit
  newSpace : after.space m.nextTask = (after.processes slot).addressSpace
  newOwner : after.owner m.nextTask = some (after.serial slot)
  same : ∀ task, task ≠ m.nextTask → SameTask m after task
  running : (after.processes slot).state = .running
  others : ∀ place, place ≠ slot →
    after.processes place = m.processes place ∧ after.serial place = m.serial place
  counters : after.nextTask = m.nextTask + 1 ∧ after.nextSpace = m.nextSpace
  startedMore : ∀ serial ∈ m.history.started, serial ∈ after.history.started
  mainStatus : after.history.mainStatus = m.history.mainStatus
  finished : after.history.finished = m.history.finished
  destroyed : after.history.destroyed = m.history.destroyed

section Enter

variable {onExit : ExitCallback} (entered : Entered m after slot onExit)

theorem Populated.old (live : task ∈ m.queues.tasks) : task ≠ m.nextTask :=
  Nat.ne_of_lt (populated.numbered task live)

include entered

/-- The threads of a process after a task has been added. -/
theorem Entered.threads (place : ProcessSlot) :
    after.threads place =
      m.threads place + if slot = place ∧ onExit = .threadOnExit then 1 else 0 := by
  have same : m.queues.tasks.countP (after.isThread place) =
      m.queues.tasks.countP (m.isThread place) := by
    apply List.countP_congr
    intro task live
    have same := entered.same task (populated.old live)
    rw [Life.isThread, Life.isThread, same.process, same.onExit]
  have isNew : after.isThread place m.nextTask = decide (slot = place ∧ onExit = .threadOnExit) := by
    rw [Life.isThread, entered.newProcess, entered.newExit, Bool.decide_and]
    simp only [Option.some.injEq]
  rw [Life.threads, entered.tasks, List.countP_cons, same, isNew, Life.threads]
  simp only [decide_eq_true_eq]

theorem Entered.elsewhere : Elsewhere m after {slot} where
  vitals place other := .of_eq (entered.others place other).1
  serial place other _ := (entered.others place other).2
  came task live notOf := by
    rw [entered.tasks] at live
    rcases List.mem_cons.mp live with rfl | wasLive
    · exact absurd entered.newProcess (notOf slot rfl)
    · exact ⟨wasLive, entered.same task (populated.old wasLive)⟩
  stayed task live _ _ _ := by
    rw [entered.tasks]
    exact ⟨List.mem_cons_of_mem _ live, entered.same task (populated.old live)⟩
  threads place different := by
    rw [entered.threads populated, if_neg fun both => different both.1.symm, Nat.add_zero]
  nextSpace := entered.counters.2
  started := entered.startedMore
  finished _ _ _ := entered.finished ▸ id
  destroyed _ _ _ _ gone _ := entered.destroyed ▸ gone
  mainStatus serial _ := congrFun entered.mainStatus serial

/-- The rest of the population does not notice a new task. -/
theorem Entered.population
    (kind : onExit = .threadOnExit ∨ onExit = .processTaskExit ∧
      (after.processes slot).task = some m.nextTask ∧ (after.processes slot).mainExited = false)
    (members : ∀ task ∈ m.queues.tasks, m.queues.process task = some slot → Member after task slot)
    (alive : Alive after slot) (staffed : Staffed after slot)
    (separate : ∀ place, place ≠ slot → (m.processes place).state = .running →
      (m.processes place).addressSpace ≠ (after.processes slot).addressSpace ∧
        m.serial place ≠ after.serial slot)
    (still : (m.processes slot).state = .running → after.serial slot = m.serial slot)
    (new : ∀ serial ∈ after.history.started,
      serial ∈ m.history.started ∨ after.serial slot = serial)
    (startedOld : ∀ serial ∈ after.history.started, serial < after.nextSerial) :
    Populated after none := by
  have mem : ∀ task, task ∈ after.queues.tasks → task = m.nextTask ∨ task ∈ m.queues.tasks := by
    intro task live
    rwa [entered.tasks, List.mem_cons] at live
  obtain ⟨nextTask, nextSpace⟩ := entered.counters
  refine (entered.elsewhere populated).populated populated Set.subsingleton_singleton ?_
    (fun _ _ => Iff.rfl) ?_ ?_ (fun serial isStarted => (new serial isStarted).imp_right fun isNew =>
      ⟨slot, entered.running, isNew⟩) startedOld ?_ ?_ ?_ ?_ ?_
  · rintro _ rfl
    refine ⟨?_, fun _ => alive, fun _ _ => staffed, nofun, ?_, ?_, fun _ => separate,
      fun ran => .inl ⟨entered.running, still ran⟩⟩
    · intro task live isOf
      rcases mem task live with rfl | wasLive
      · exact ⟨entered.running, entered.newSpace, entered.newOwner, entered.newExit.symm ▸ kind⟩
      · rw [(entered.same task (populated.old wasLive)).process] at isOf
        exact members task wasLive isOf
    · rintro (stopped | isLeaving)
      · exact absurd entered.running stopped
      · cases isLeaving
    · rw [entered.running]
      exact nofun
  · rw [entered.tasks]
    exact List.nodup_cons.mpr ⟨fun live => populated.old live rfl, populated.distinct⟩
  · intro task live
    rw [nextTask]
    rcases mem task live with rfl | wasLive
    · exact Nat.lt_succ_self _
    · exact Nat.lt_succ_of_lt (populated.numbered task wasLive)
  · exact fun _ wasFinished => entered.finished.symm ▸ wasFinished
  · exact fun _ isFinished => .inl (entered.finished ▸ isFinished)
  · rw [entered.finished]
    exact populated.finishedOnce
  · rw [entered.destroyed, nextSpace]
    exact populated.destroyedOld
  · rw [entered.destroyed]
    exact populated.destroyedOnce

omit entered

variable {processes : ProcessTable} {pid parent : Int} (nextPid : Int) (space : SpaceId)
  (allocated : Allocated m.processes processes parent slot pid)

include allocated

omit populated in
/-- Without memory for the task the slot is given back. -/
theorem unmoved_claimed_release :
    Unmoved m ((m.claimed slot processes nextPid space).release slot) := by
  have stopped : (m.processes slot).state ≠ .running := by
    rw [allocated.unused]
    decide
  refine { Unmoved.refl m with
    serial := fun place used => ?_
    vitals := fun place => ?_
    counters := ⟨rfl, rfl, Nat.le_succ _⟩ }
  · have different : place ≠ slot := by
      rintro rfl
      rw [InUse, Life.release_self] at used
      exact used rfl
    exact update_of_ne different ..
  · by_cases isSlot : place = slot
    · subst isSlot
      rw [Life.release_self]
      exact .released stopped
    · rw [Life.release_of_ne _ isSlot, claimed_of_ne _ _ allocated isSlot]
      exact .refl _

omit populated in
theorem entered_launched :
    Entered m (m.launched slot processes nextPid space) slot .processTaskExit where
  tasks := rfl
  newProcess := update_self ..
  newExit := update_self ..
  newSpace := by
    rw [launched_self nextPid space allocated]
    exact update_self ..
  newOwner := update_self ..
  same task different := ⟨update_of_ne different .., update_of_ne different ..,
    update_of_ne different .., update_of_ne different ..⟩
  running := by rw [launched_self nextPid space allocated]
  others place different := ⟨launched_of_ne _ _ allocated different, update_of_ne different ..⟩
  counters := ⟨rfl, rfl⟩
  startedMore serial isStarted := List.mem_cons_of_mem _ isStarted
  mainStatus := rfl
  finished := rfl
  destroyed := rfl

theorem Populated.launched (fresh : FreshSpace m space) :
    Populated (m.launched slot processes nextPid space) none := by
  have stopped : (m.processes slot).state ≠ .running := by
    rw [allocated.unused]
    decide
  have record := launched_self nextPid space allocated
  have entered := entered_launched nextPid space allocated
  have isSerial : (m.launched slot processes nextPid space).serial slot = m.nextSerial :=
    update_self ..
  have noMember : ∀ task ∈ m.queues.tasks, m.queues.process task ≠ some slot :=
    fun task live isOf => stopped (populated.member task live slot isOf).running
  have unused : ∀ serial ∈ m.history.started, serial ≠ m.nextSerial :=
    fun serial isStarted => Nat.ne_of_lt (populated.startedOld serial isStarted)
  refine entered.population populated (.inr ⟨rfl, ?_, ?_⟩) ?_ ⟨?_, ?_, ?_, ?_⟩ ⟨?_, ?_, ?_⟩ ?_
    (fun running => absurd running stopped) ?_ ?_
  · rw [record]
  · rw [record]
    rfl
  · exact fun task live isOf => absurd isOf (noMember task live)
  · refine ⟨space, ?_, fresh.old, fresh.kept⟩
    rw [record]
  · exact List.mem_cons_self
  · rw [isSerial]
    intro isFinished
    obtain ⟨entry, member, same⟩ := List.mem_map.mp isFinished
    exact unused _ (populated.finishedStarted entry member).1 same
  · rw [record]
    intro exited
    cases exited
  · have none : m.threads slot = 0 := by
      rw [Life.threads, List.countP_eq_zero]
      intro task live
      rw [Life.isThread, decide_eq_false (noMember task live)]
      simp
    rw [record, entered.threads populated, none, if_neg (by simp)]
    rfl
  · intro _
    exact ⟨m.nextTask, List.mem_cons_self, entered.newProcess, entered.newExit⟩
  · rw [record]
    intro exited
    cases exited
  · intro place different running
    rw [record, isSerial]
    refine ⟨fresh.unowned place running, ?_⟩
    exact unused _ (populated.alive place running).started
  · exact fun serial isStarted => (List.mem_cons.mp isStarted).symm.imp_right Eq.symm
  · intro serial isStarted
    rcases List.mem_cons.mp isStarted with isNew | wasStarted
    · rw [isNew.trans isSerial]
      exact Nat.lt_succ_self _
    · exact Nat.lt_succ_of_lt (populated.startedOld serial wasStarted)

theorem Populated.stillborn : Populated (m.stillborn slot processes nextPid) none := by
  obtain ⟨spaced, fresh⟩ := populated.createSpace
  have unmoved := unmoved_claimed_release (m := { m with nextSpace := m.nextSpace + 1 }) nextPid
    m.nextSpace allocated
  exact (spaced.of_unmoved unmoved).destroySpace (fresh.of_unmoved unmoved)

omit allocated

omit populated in
theorem entered_threadAdded (running : (m.processes slot).state = .running) :
    Entered m (m.threadAdded slot) slot .threadOnExit where
  tasks := rfl
  newProcess := update_self ..
  newExit := update_self ..
  newSpace := by
    rw [threadAdded_self]
    exact update_self ..
  newOwner := update_self ..
  same task different := ⟨update_of_ne different .., update_of_ne different ..,
    update_of_ne different .., update_of_ne different ..⟩
  running := by rw [threadAdded_self, running]
  others place different := ⟨threadAdded_of_ne m different, rfl⟩
  counters := ⟨rfl, rfl⟩
  startedMore _ isStarted := isStarted
  mainStatus := rfl
  finished := rfl
  destroyed := rfl

theorem Populated.threadAdded (running : (m.processes slot).state = .running) :
    Populated (m.threadAdded slot) none := by
  have record := threadAdded_self m slot
  have entered := entered_threadAdded running
  have alive := populated.alive slot running
  obtain ⟨threads, main, _⟩ := populated.staffed slot running (by simp)
  refine entered.population populated (.inl rfl) ?_ ⟨?_, alive.started, alive.unfinished, ?_⟩
    ⟨?_, ?_, ?_⟩ ?_ (fun _ => rfl) (fun _ => .inl) populated.startedOld
  · intro task live isOf
    obtain ⟨_, space, owner, kind⟩ := populated.member task live slot isOf
    have same := entered.same task (populated.old live)
    refine ⟨entered.running, ?_, same.owner.trans owner, ?_⟩
    · rw [record, same.space, space]
    · rwa [record, same.onExit]
  · rw [record]
    exact alive.space
  · rw [record]
    exact alive.status
  · rw [record, entered.threads populated, if_pos ⟨rfl, rfl⟩, ← threads]
  · rw [record]
    intro notExited
    obtain ⟨task, live, isOf, isMain⟩ := main notExited
    have same := entered.same task (populated.old live)
    exact ⟨task, List.mem_cons_of_mem _ live, same.process.trans isOf, same.onExit.trans isMain⟩
  · rw [record]
    exact fun _ => Nat.succ_pos _
  · intro place different isRunning
    rw [record]
    exact populated.separate place slot isRunning running different

theorem Populated.wasted : Populated (m.wasted nextPid) none := by
  obtain ⟨spaced, fresh⟩ := populated.createSpace
  have unmoved : Unmoved { m with nextSpace := m.nextSpace + 1 }
      { m with nextPid := nextPid, nextSpace := m.nextSpace + 1 } :=
    { Unmoved.refl { m with nextSpace := m.nextSpace + 1 } with }
  exact (spaced.of_unmoved unmoved).destroySpace (fresh.of_unmoved unmoved)

end Enter

include isOf

theorem Populated.swapped {space : SpaceId} (fresh : FreshSpace m space)
    (live : task ∈ m.queues.tasks) (noThreads : (m.processes slot).threadCount = 0) :
    Populated (m.swapped task slot space) none := by
  have wasRunning := (populated.member task live slot isOf).running
  have self := swapped_self m task slot space
  have others : Elsewhere m (m.swapped task slot space) {slot} := by
    have same : ∀ other, m.queues.process other ≠ some slot →
        SameTask m (m.swapped task slot space) other := by
      intro other notOf
      have different : other ≠ task := fun same => notOf (same ▸ isOf)
      exact ⟨rfl, rfl, update_of_ne different .., rfl⟩
    exact ⟨fun place other => .of_eq (swapped_of_ne m task other space), fun _ _ _ => rfl,
      fun other otherLive notOf => ⟨otherLive, same other (notOf slot rfl)⟩,
      fun other otherLive place different isIn => ⟨otherLive, same other fun isOwn =>
        different (Option.some.inj (isIn.symm.trans isOwn))⟩, fun _ _ => rfl,
      rfl, List.Subset.refl _, fun _ _ _ => id, fun _ _ _ _ gone _ => gone, fun _ _ => rfl⟩
  refine others.populated populated Set.subsingleton_singleton ?_ (fun _ _ => Iff.rfl)
    populated.distinct populated.numbered (fun _ => .inl) populated.startedOld (List.Subset.refl _)
    (fun _ => .inl) populated.finishedOnce populated.destroyedOld populated.destroyedOnce
  rintro _ rfl
  refine ⟨?_, fun _ => ?_, fun _ _ => ?_, nofun, ?_, ?_, ?_,
    fun _ => .inl ⟨self.symm ▸ wasRunning, rfl⟩⟩
  · intro other otherLive isIn
    obtain ⟨isRunning, _, owner, kind⟩ := populated.member other otherLive _ isIn
    refine ⟨self.symm ▸ isRunning, ?_, owner, self.symm ▸ kind⟩
    rw [self, populated.alone isOf live noThreads otherLive isIn]
    exact update_self ..
  · obtain ⟨_, started, unfinished, status⟩ := populated.alive _ wasRunning
    refine ⟨⟨space, ?_, fresh.old, fresh.kept⟩, started, unfinished, self.symm ▸ status⟩
    rw [self]
  · obtain ⟨threads, main, deferred⟩ := populated.staffed _ wasRunning (by simp)
    exact ⟨self.symm ▸ threads, self.symm ▸ main, self.symm ▸ deferred⟩
  · rw [self]
    exact fun _ => noThreads
  · rw [self, wasRunning]
    exact nofun
  · intro _ place different isRunning
    rw [self]
    exact ⟨fresh.unowned place isRunning,
      (populated.separate place _ isRunning wasRunning different).2⟩

theorem Populated.replaced (isReady : task ∈ m.queues.ready)
    (noThreads : (m.processes slot).threadCount = 0) :
    Populated (m.replaced task slot) none := by
  have live := TaskQueues.mem_tasks_of_ready isReady
  have wasRunning := (populated.member task live slot isOf).running
  obtain ⟨spaced, fresh⟩ := populated.createSpace
  obtain ⟨old, isOld, older, kept⟩ := (populated.alive slot wasRunning).space
  have swapped := spaced.swapped isOf fresh live noThreads
  rw [Life.replaced, isOld]
  refine swapped.destroySpace ⟨Nat.lt_succ_of_lt older, kept, ?_⟩
  intro place isRunning
  by_cases isSlot : place = slot
  · rw [isSlot, swapped_self]
    intro same
    exact Nat.lt_irrefl _ ((SpacePtr.user.inj same) ▸ older)
  · rw [swapped_of_ne _ task isSlot] at isRunning ⊢
    rw [← isOld]
    exact (populated.separate place slot isRunning wasRunning isSlot).1

omit isOf

theorem Populated.turn {event : Event} (turn : Turn m event after) :
    Populated after none := by
  have live : ∀ {task : Nat}, task ∈ m.queues.ready → task ∈ m.queues.tasks :=
    TaskQueues.mem_tasks_of_ready
  cases turn with
  | still => exact populated
  | goOn | shellTest | shellFound => exact populated.of_unmoved (unmoved_setPoint ..)
  | wasted nextPid => exact populated.wasted nextPid
  | stillborn nextPid isReady allocated => exact populated.stillborn nextPid allocated
  | launch nextPid isReady allocated =>
    obtain ⟨spaced, fresh⟩ := populated.createSpace
    exact spaced.launched nextPid _ allocated fresh
  | thread isReady isOf => exact populated.threadAdded (populated.member _ (live isReady) _ isOf).running
  | exec isReady isOf alone => exact populated.replaced isOf isReady alone
  | leave isReady noCallback =>
    rename_i task
    cases isOf : m.queues.process task with
    | none => exact populated.leave_kernel isReady isOf
    | some slot =>
      have noExit := noCallback.resolve_left (by simp [isOf])
      rcases (populated.member task (live isReady) slot isOf).kind with isThread | ⟨isMain, _⟩
      · rw [noExit] at isThread
        cases isThread
      · rw [noExit] at isMain
        cases isMain
  | mainLeaves isReady isOf isMain hasThreads status =>
    exact populated.leave_deferred isReady isOf isMain hasThreads status
  | mainFinishes isReady isOf isMain noThreads status =>
    have left := populated.leave_main isReady isOf isMain noThreads status
    refine populated_processFinishExit left ?_ (update_self ..)
    rw [Life.mainLeftLast, Life.leave_self]
    exact (populated.member _ (live isReady) _ isOf).running
  | threadLeaves isReady isOf isThread notLast =>
    exact (populated.leave_thread isReady isOf isThread (.inl ⟨rfl, notLast⟩)).of_unmoved
      (unmoved_wakeAll ..)
  | threadFinishes isReady isOf isThread isLast =>
    rename_i task slot
    have wasRunning := (populated.member _ (live isReady) _ isOf).running
    have left := (populated.leave_thread isReady isOf isThread (.inr ⟨rfl, isLast⟩)).of_unmoved
      (unmoved_wakeAll _ (.threadCount slot))
    refine populated_processFinishExit left ?_ ((populated.alive _ wasRunning).status isLast.2)
    rw [Life.wakeAll, threadLeft_self]
    exact wasRunning
  | block isReady => exact populated.of_unmoved (unmoved_block isReady ..)
  | reap isReady zombie =>
    refine populated.of_unmoved ((unmoved_setPoint ..).trans { unmoved_release ?_ with })
    exact zombie.symm ▸ (by decide)
  | release _ zombie => exact populated.of_unmoved (unmoved_release (zombie.symm ▸ (by decide)))
  | detach => exact populated.of_unmoved (unmoved_detach ..)
  | wake => exact populated.of_unmoved (unmoved_of_woken (TaskQueues.woken_wakeWhere ..))
  | requestKill => exact populated.of_unmoved (unmoved_taskKillBlocked ..)
  | kill => exact populated.of_unmoved ((unmoved_taskKillBlocked ..).trans (unmoved_noteKilled ..))
  | shellMissed => exact populated.of_unmoved ((unmoved_setPoint ..).trans (unmoved_noteKilled ..))
  | shellMark =>
    exact populated.of_unmoved (((unmoved_setPoint ..).trans (unmoved_taskKillBlocked ..)).trans
      (unmoved_noteKilled ..))

omit populated

theorem populated_lifeStart : Populated lifeStart none := by
  constructor
  case distinct | numbered => decide
  case member => exact fun _ _ _ isOf => nomatch isOf
  case kernel => exact fun _ _ _ => rfl
  case alive | staffed | empty | gone | startedOld | finishedStarted | destroyedOld | dead =>
    exact fun _ impossible => nomatch impossible
  case separate => exact fun _ _ running => nomatch running
  case finishedOnce | destroyedOnce => exact .nil
  case drained => exact fun _ _ => rfl

def lifeAfter (events : List Event) : Life := run lifeStep lifeStart events

theorem lifeAfter_populated (events : List Event) : Populated (lifeAfter events) none :=
  run_invariant (fun m => Populated m none)
    (fun m event populated => populated.turn (lifeStep_turn m event)) populated_lifeStart events

include populated

theorem Populated.threadCount_eq (slot : ProcessSlot) :
    (m.processes slot).threadCount = m.threads slot := by
  by_cases running : (m.processes slot).state = .running
  · exact (populated.staffed slot running (by simp)).threads
  · have none : m.threads slot = 0 := by
      rw [Life.threads, List.countP_eq_zero]
      intro task live isThread
      rw [Life.isThread, Bool.and_eq_true, decide_eq_true_eq] at isThread
      exact running (populated.member task live slot isThread.1).running
    rw [none, populated.drained slot (.inl running)]

theorem Populated.exists_member (running : (m.processes slot).state = .running) :
    ∃ task ∈ m.queues.tasks, m.queues.process task = some slot := by
  obtain ⟨threads, main, deferred⟩ := populated.staffed slot running (by simp)
  cases exited : (m.processes slot).mainExited with
  | false =>
    obtain ⟨task, live, isOf, _⟩ := main exited
    exact ⟨task, live, isOf⟩
  | true =>
    have some := deferred exited
    rw [threads, Life.threads, List.countP_pos_iff] at some
    obtain ⟨task, live, isThread⟩ := some
    rw [Life.isThread, Bool.and_eq_true, decide_eq_true_eq] at isThread
    exact ⟨task, live, isThread.1⟩

/-- A process has ended exactly if it has no tasks any more. -/
theorem Populated.finished_iff (serial : Nat) :
    serial ∈ m.history.finished.map Prod.fst ↔
      serial ∈ m.history.started ∧ ∀ task ∈ m.queues.tasks, m.owner task ≠ some serial := by
  constructor
  · intro isFinished
    obtain ⟨entry, member, isSerial⟩ := List.mem_map.mp isFinished
    refine ⟨isSerial ▸ (populated.finishedStarted entry member).1, fun task live isOwner => ?_⟩
    cases isOf : m.queues.process task with
    | none =>
      rw [populated.kernel task live isOf] at isOwner
      cases isOwner
    | some slot =>
      obtain ⟨running, _, owner, _⟩ := populated.member task live slot isOf
      rw [owner, Option.some.injEq] at isOwner
      exact (populated.alive slot running).unfinished (isOwner ▸ isFinished)
  · rintro ⟨isStarted, noTask⟩
    refine (populated.gone serial isStarted).resolve_left ?_
    rintro ⟨slot, running, isSerial⟩
    obtain ⟨task, live, isOf⟩ := populated.exists_member running
    refine noTask task live ?_
    rw [(populated.member task live slot isOf).owner, isSerial]

omit populated

/-- Threads are counted, no task is left without its address space, and every process
ends once, with its last task and the status of its main task. -/
theorem lifeAfter_spaces (events : List Event) :
    (∀ slot, ((lifeAfter events).processes slot).threadCount = (lifeAfter events).threads slot) ∧
      (∀ task ∈ (lifeAfter events).queues.tasks, ∀ slot,
        (lifeAfter events).queues.process task = some slot →
          (lifeAfter events).space task = ((lifeAfter events).processes slot).addressSpace ∧
            ∃ id, ((lifeAfter events).processes slot).addressSpace = .user id ∧
              id ∉ (lifeAfter events).history.destroyed) ∧
      (∀ serial, serial ∈ (lifeAfter events).history.finished.map Prod.fst ↔
        serial ∈ (lifeAfter events).history.started ∧
          ∀ task ∈ (lifeAfter events).queues.tasks, (lifeAfter events).owner task ≠ some serial) ∧
      ((lifeAfter events).history.finished.map Prod.fst).Nodup ∧
      (lifeAfter events).history.destroyed.Nodup ∧
      (∀ task slot space, (lifeAfter events).queues.process task = some slot →
        0 < ((lifeAfter events).processes slot).threadCount →
          processExecReset (lifeAfter events) task space = (false, lifeAfter events)) ∧
      (∀ entry ∈ (lifeAfter events).history.finished,
        (lifeAfter events).history.mainStatus entry.1 = some entry.2) ∧
      ∀ slot, ((lifeAfter events).processes slot).state = .zombie →
        (lifeAfter events).history.mainStatus ((lifeAfter events).serial slot) =
          some ((lifeAfter events).processes slot).exitStatus := by
  have populated := lifeAfter_populated events
  refine ⟨populated.threadCount_eq, ?_, populated.finished_iff, populated.finishedOnce,
    populated.destroyedOnce, ?_, ?_, ?_⟩
  · intro task live slot isOf
    have member := populated.member task live slot isOf
    obtain ⟨id, isSpace, _, kept⟩ := (populated.alive slot member.running).space
    exact ⟨member.space, id, isSpace, kept⟩
  · intro task slot space isOf hasThreads
    rw [processExecReset, isOf]
    exact if_pos hasThreads
  · exact fun entry isFinished => (populated.finishedStarted entry isFinished).2
  · exact fun slot zombie => (populated.finishedStarted _ (populated.dead slot zombie)).2

example : (lifeAfter [.spawn 0 true, .threadCreate 2 true, .exit 2 7, .exit 3 9]).history.finished =
    [(0, 7)] := by
  decide

/-- A process is running exactly as long as it has a task. -/
theorem lifeAfter_running_iff (events : List Event) (slot : ProcessSlot) :
    ((lifeAfter events).processes slot).state = .running ↔
      ∃ task ∈ (lifeAfter events).queues.tasks, (lifeAfter events).queues.process task = some slot :=
  have populated := lifeAfter_populated events
  ⟨populated.exists_member,
    fun ⟨task, live, isOf⟩ => (populated.member task live slot isOf).running⟩

/-- No two running processes have one address space. -/
theorem lifeAfter_spaces_separate (events : List Event) :
    {slot | ((lifeAfter events).processes slot).state = .running}.InjOn
      fun slot => ((lifeAfter events).processes slot).addressSpace := by
  intro slot running other runs same
  by_contra distinct
  exact ((lifeAfter_populated events).separate slot other running runs distinct).1 same

end MiniOS.Lifecycle
