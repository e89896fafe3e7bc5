import MiniOS.Lifecycle
import MiniOS.ProcessNumbers

/-!
# What a step does

The operations on tasks and processes share their parts: a task that waits may block,
leave or go on, and `process_wait` can do each of these when it is called and when it is
woken.  Every event amounts to one of a few turns, and what holds in all runs is shown
turn by turn.
-/

namespace MiniOS.Lifecycle

open Function Paging
open Kernel

variable {m : Life} {slot other : ProcessSlot} {task : Nat}
  {processes : ProcessTable} {nextPid pid parent : Int} {space : SpaceId}

def Life.claim (m : Life) (slot : ProcessSlot) (processes : ProcessTable) (nextPid : Int) : Life :=
  { m with
    processes := processes
    nextPid := nextPid
    serial := update m.serial slot m.nextSerial
    nextSerial := m.nextSerial + 1 }

theorem allocateSlot_cases (m : Life) (task : Nat) :
    (∃ nextPid, allocateSlot m task = (none, { m with nextPid := nextPid })) ∨
      ∃ slot processes nextPid pid, allocateSlot m task = (some slot, m.claim slot processes nextPid) ∧
        Allocated m.processes processes (m.currentPid task) slot pid := by
  rw [allocateSlot]
  rcases processAllocate_cases m.processes m.nextPid (m.currentPid task) with
    ⟨next, isNone, -⟩ | ⟨slot, processes, next, pid, isSome, allocated, -⟩
  · rw [isNone]
    exact .inl ⟨next, rfl⟩
  · rw [isSome]
    exact .inr ⟨slot, processes, next, pid, rfl, allocated⟩

def Life.claimed (m : Life) (slot : ProcessSlot) (processes : ProcessTable) (nextPid : Int)
    (space : SpaceId) : Life :=
  (m.claim slot processes nextPid).modifyProcess slot fun proc =>
    { proc with addressSpace := .user space }

variable (nextPid : Int) (space : SpaceId)
  (allocated : Allocated m.processes processes parent slot pid)

include allocated

theorem claimed_self :
    (m.claimed slot processes nextPid space).processes slot =
      { Process.zero with
        pid := pid, parentPid := parent, state := .running, addressSpace := .user space } := by
  rw [Life.claimed, Life.modifyProcess_self, Life.claim, allocated.after_eq]
  dsimp only
  rw [update_self]

theorem claimed_of_ne (different : other ≠ slot) :
    (m.claimed slot processes nextPid space).processes other = m.processes other := by
  rw [Life.claimed, Life.modifyProcess_of_ne _ different, Life.claim, allocated.after_eq]
  exact update_of_ne different ..

def Life.launched (m : Life) (slot : ProcessSlot) (processes : ProcessTable) (nextPid : Int)
    (space : SpaceId) : Life :=
  (startProcess (m.claimed slot processes nextPid space) slot space true).2

theorem launched_self :
    (m.launched slot processes nextPid space).processes slot =
      { Process.zero with
        pid := pid, parentPid := parent, state := .running, addressSpace := .user space,
        task := some m.nextTask } :=
  (update_self ..).trans (congrArg (fun proc : Process => { proc with task := some m.nextTask })
    (claimed_self nextPid space allocated))

theorem launched_of_ne (different : other ≠ slot) :
    (m.launched slot processes nextPid space).processes other = m.processes other :=
  (update_of_ne different ..).trans (claimed_of_ne _ _ allocated different)

omit allocated

variable (m)

def Life.threadAdded (slot : ProcessSlot) : Life :=
  createTask (m.modifyProcess slot fun proc => { proc with threadCount := proc.threadCount + 1 })
    .threadOnExit (m.processes slot).addressSpace slot

theorem threadAdded_self (slot : ProcessSlot) : (m.threadAdded slot).processes slot =
      { m.processes slot with threadCount := (m.processes slot).threadCount + 1 } :=
  m.modifyProcess_self slot fun proc => { proc with threadCount := proc.threadCount + 1 }

theorem threadAdded_of_ne (different : other ≠ slot) :
    (m.threadAdded slot).processes other = m.processes other :=
  m.modifyProcess_of_ne different fun proc => { proc with threadCount := proc.threadCount + 1 }

def Life.swapped (task : Nat) (slot : ProcessSlot) (space : SpaceId) : Life :=
  { m.modifyProcess slot fun proc => { proc with addressSpace := .user space } with
    space := update m.space task (.user space) }

theorem swapped_self (task : Nat) (slot : ProcessSlot) (space : SpaceId) :
    (m.swapped task slot space).processes slot =
      { m.processes slot with addressSpace := .user space } :=
  update_self ..

theorem swapped_of_ne (task : Nat) (different : other ≠ slot) (space : SpaceId) :
    (m.swapped task slot space).processes other = m.processes other :=
  update_of_ne different ..

/-- The process runs in a new address space, and the old one is destroyed. -/
def Life.replaced (task : Nat) (slot : ProcessSlot) : Life :=
  (Life.swapped { m with nextSpace := m.nextSpace + 1 } task slot m.nextSpace).destroySpace
    (m.processes slot).addressSpace

def Life.wasted (nextPid : Int) : Life :=
  Life.destroySpace { m with nextPid := nextPid, nextSpace := m.nextSpace + 1 } (.user m.nextSpace)

def Life.stillborn (slot : ProcessSlot) (processes : ProcessTable) (nextPid : Int) : Life :=
  (Life.release (Life.claimed { m with nextSpace := m.nextSpace + 1 } slot processes nextPid
    m.nextSpace) slot).destroySpace (.user m.nextSpace)

/-- A task has left, and the record of its process is another one. -/
def Life.leave (task : Nat) (slot : ProcessSlot) (record : Process)
    (mainStatus : Nat → Option Int) : Life :=
  { m with
    queues := m.queues.exit task
    processes := update m.processes slot record
    history := { m.history with mainStatus := mainStatus } }

theorem Life.leave_self (task : Nat) (slot : ProcessSlot) (record : Process)
    (mainStatus : Nat → Option Int) : (m.leave task slot record mainStatus).processes slot = record :=
  update_self ..

def Life.mainLeft (task : Nat) (slot : ProcessSlot) (status : Int) : Life :=
  m.leave task slot { m.processes slot with mainExited := true, exitStatus := status, task := none }
    (update m.history.mainStatus (m.serial slot) (some status))

def Life.mainLeftLast (task : Nat) (slot : ProcessSlot) (status : Int) : Life :=
  m.leave task slot (m.processes slot) (update m.history.mainStatus (m.serial slot) (some status))

def Life.threadLeft (task : Nat) (slot : ProcessSlot) : Life :=
  m.leave task slot { m.processes slot with threadCount := (m.processes slot).threadCount - 1 }
    m.history.mainStatus

theorem threadLeft_self (task : Nat) (slot : ProcessSlot) :
    (m.threadLeft task slot).processes slot =
      { m.processes slot with threadCount := (m.processes slot).threadCount - 1 } :=
  update_self ..

/-- What the end of a process does to a slot. -/
theorem leaveChildren_cases (pid : Int) (slot : ProcessSlot) :
    (leaveChildren m pid).processes slot = m.processes slot ∧
        (InUse m.processes slot → (m.processes slot).parentPid ≠ pid) ∨
      (m.processes slot).state = .zombie ∧ (m.processes slot).parentPid = pid ∧
        (leaveChildren m pid).processes slot = .zero ∨
      (m.processes slot).state = .running ∧ (m.processes slot).parentPid = pid ∧
        (leaveChildren m pid).processes slot =
          { m.processes slot with parentPid := 0, autoReap := true } := by
  rw [leaveChildren]
  dsimp only [abandonChildren]
  split
  case isTrue stays => exact .inl ⟨rfl, fun used => stays.resolve_left used⟩
  case isFalse isChild =>
    rw [not_or, not_ne_iff] at isChild
    split
    case isTrue zombie => exact .inr (.inl ⟨zombie, isChild.2, rfl⟩)
    case isFalse notZombie =>
      refine .inr (.inr ⟨?_, isChild.2, rfl⟩)
      cases isState : (m.processes slot).state with
      | unused => exact absurd isState isChild.1
      | running => rfl
      | zombie => exact absurd isState notZombie

theorem processSendSignal_eq (pid : Int) (signum : Signal) :
    ∃ queues, processSendSignal m pid signum = { m with queues := queues } ∧
      m.queues.Woken queues := by
  rw [processSendSignal]
  split
  · exact ⟨m.queues, rfl, .refl _⟩
  · split
    · exact ⟨m.queues, rfl, .refl _⟩
    · split
      · exact ⟨m.queues, rfl, .refl _⟩
      · exact ⟨_, rfl, TaskQueues.woken_wakeWhere ..⟩

theorem notifyParent_eq (parentPid : Int) :
    ∃ queues, notifyParent m parentPid = { m with queues := queues } ∧ m.queues.Woken queues := by
  rw [notifyParent]
  split
  · obtain ⟨queues, isSent, woken⟩ := processSendSignal_eq m parentPid sigchld
    rw [isSent]
    dsimp only
    split
    · exact ⟨queues, rfl, woken⟩
    · exact ⟨_, rfl, woken.trans (TaskQueues.woken_wakeWhere ..)⟩
  · exact ⟨m.queues, rfl, .refl _⟩

theorem destroySpace_eq (space : SpacePtr) : ∃ destroyed, m.destroySpace space =
      { m with history := { m.history with destroyed := destroyed } } := by
  cases space with
  | user id => exact ⟨id :: m.history.destroyed, rfl⟩
  | kernel | null => exact ⟨m.history.destroyed, rfl⟩

theorem destroySpace_processes (space : SpacePtr) :
    (m.destroySpace space).processes = m.processes := by
  obtain ⟨destroyed, isDestroyed⟩ := destroySpace_eq m space
  rw [isDestroyed]

theorem replaced_eq (task : Nat) (slot : ProcessSlot) :
    ∃ destroyed, m.replaced task slot =
      { Life.swapped { m with nextSpace := m.nextSpace + 1 } task slot m.nextSpace with
        history := { m.history with destroyed := destroyed } } :=
  destroySpace_eq ..

/-- The process has left its children and its address space and is a zombie. -/
def Life.died (slot : ProcessSlot) (status : Int) : Life :=
  becomeZombie
    ((leaveChildren m (m.processes slot).pid).destroySpace
      ((leaveChildren m (m.processes slot).pid).processes slot).addressSpace)
    slot status

def Life.told (slot : ProcessSlot) : Life :=
  (notifyParent m (m.processes slot).parentPid).wakeAll (.process slot)

theorem processFinishExit_eq (slot : ProcessSlot) (status : Int) : processFinishExit m slot status =
      if (((m.died slot status).told slot).processes slot).autoReap then
        ((m.died slot status).told slot).release slot
      else (m.died slot status).told slot :=
  rfl

theorem told_eq (slot : ProcessSlot) :
    ∃ queues, m.told slot = { m with queues := queues } ∧ m.queues.Woken queues := by
  obtain ⟨queues, isTold, woken⟩ := notifyParent_eq m (m.processes slot).parentPid
  rw [Life.told, isTold]
  exact ⟨_, rfl, woken.trans (TaskQueues.woken_wakeWhere ..)⟩

theorem died_self (slot : ProcessSlot) (status : Int) :
    ((m.died slot status).processes slot).state = .zombie := by
  rw [Life.died, becomeZombie_self]

theorem died_of_ne (different : other ≠ slot) (status : Int) :
    (m.died slot status).processes other =
      (leaveChildren m (m.processes slot).pid).processes other := by
  rw [Life.died, becomeZombie_of_ne _ different, destroySpace_processes]

theorem died_tasks (slot : ProcessSlot) (status : Int) :
    (m.died slot status).queues = m.queues ∧ (m.died slot status).point = m.point := by
  obtain ⟨destroyed, isDestroyed⟩ := destroySpace_eq (leaveChildren m (m.processes slot).pid)
    ((leaveChildren m (m.processes slot).pid).processes slot).addressSpace
  rw [Life.died, isDestroyed]
  exact ⟨rfl, rfl⟩

/-- The tasks are only woken.  Owners, serial numbers and kills are not touched. -/
theorem processFinishExit_frame (slot : ProcessSlot) (status : Int) :
    ∃ processes queues destroyed finished released, processFinishExit m slot status =
        { m with
          processes := processes
          queues := queues
          history :=
            { m.history with destroyed := destroyed, finished := finished, released := released } } ∧
      m.queues.Woken queues := by
  obtain ⟨destroyed, isDestroyed⟩ := destroySpace_eq (leaveChildren m (m.processes slot).pid)
    ((leaveChildren m (m.processes slot).pid).processes slot).addressSpace
  obtain ⟨queues, isTold, woken⟩ := told_eq (m.died slot status) slot
  rw [(died_tasks m slot status).1] at woken
  rw [processFinishExit_eq, isTold, Life.died, isDestroyed]
  split
  · exact ⟨_, queues, destroyed, _, _, rfl, woken⟩
  · exact ⟨_, queues, destroyed, _, _, rfl, woken⟩

variable {m}

/-- Why a task blocks on a channel, and where it goes on. -/
inductive Reason (m : Life) (task : Nat) : Channel → Point → Prop
  | wait {slot : ProcessSlot} {pid current : Int} (running : (m.processes slot).state = .running)
      (isPid : (m.processes slot).pid = pid)
      (isCurrent : m.currentPid task = current ∨ m.point task = .processWait slot pid current) :
      Reason m task (.process slot) (.processWait slot pid current)
  | waitpid {own : ProcessSlot} {pid : Int} (isOf : m.queues.process task = some own)
      (noZombie : ∀ slot, isChild m (m.processes own).pid pid slot = true →
        (m.processes slot).state ≠ .zombie)
      (hasChild : ∃ slot, isChild m (m.processes own).pid pid slot = true) :
      Reason m task (.waitpidEvent own) (.processWaitpid pid)
  | join {own : ProcessSlot} (isOf : m.queues.process task = some own)
      (hasThreads : 0 < (m.processes own).threadCount) :
      Reason m task (.threadCount own) .processThreadJoin
  | sleep (channel : Channel) : Reason m task channel .asleep

/-- What can become of the tasks and processes at an event. -/
inductive Turn (m : Life) : Event → Life → Prop
  | still {event : Event} : Turn m event m
  | goOn {event : Event} {task : Nat} (isReady : task ∈ m.queues.ready) :
      Turn m event (m.setPoint task .running)
  | wasted {event : Event} (nextPid : Int) : Turn m event (m.wasted nextPid)
  | stillborn {event : Event} {task : Nat} {slot : ProcessSlot} {processes : ProcessTable}
      {pid : Int} (nextPid : Int) (isReady : task ∈ m.queues.ready)
      (allocated : Allocated m.processes processes (m.currentPid task) slot pid) :
      Turn m event (m.stillborn slot processes nextPid)
  | launch {event : Event} {task : Nat} {slot : ProcessSlot} {processes : ProcessTable} {pid : Int}
      (nextPid : Int) (isReady : task ∈ m.queues.ready)
      (allocated : Allocated m.processes processes (m.currentPid task) slot pid) :
      Turn m event (Life.launched { m with nextSpace := m.nextSpace + 1 } slot processes nextPid
        m.nextSpace)
  | thread {task : Nat} {slot : ProcessSlot} {memory : Bool} (isReady : task ∈ m.queues.ready)
      (isOf : m.queues.process task = some slot) :
      Turn m (.threadCreate task memory) (m.threadAdded slot)
  | exec {event : Event} {task : Nat} {slot : ProcessSlot} (isReady : task ∈ m.queues.ready)
      (isOf : m.queues.process task = some slot) (alone : (m.processes slot).threadCount = 0) :
      Turn m event (m.replaced task slot)
  | leave {event : Event} {task : Nat} (isReady : task ∈ m.queues.ready)
      (noCallback : m.queues.process task = none ∨ m.onExit task = .none) :
      Turn m event { m with queues := m.queues.exit task }
  | mainLeaves {event : Event} {task : Nat} {slot : ProcessSlot} (isReady : task ∈ m.queues.ready)
      (isOf : m.queues.process task = some slot) (isMain : m.onExit task = .processTaskExit)
      (hasThreads : 0 < (m.processes slot).threadCount) (status : Int) :
      Turn m event (m.mainLeft task slot status)
  | mainFinishes {event : Event} {task : Nat} {slot : ProcessSlot} (isReady : task ∈ m.queues.ready)
      (isOf : m.queues.process task = some slot) (isMain : m.onExit task = .processTaskExit)
      (noThreads : (m.processes slot).threadCount = 0) (status : Int) :
      Turn m event (processFinishExit (m.mainLeftLast task slot status) slot status)
  | threadLeaves {event : Event} {task : Nat} {slot : ProcessSlot} (isReady : task ∈ m.queues.ready)
      (isOf : m.queues.process task = some slot) (isThread : m.onExit task = .threadOnExit)
      (notLast : ¬ ((m.processes slot).threadCount - 1 = 0 ∧ (m.processes slot).mainExited = true)) :
      Turn m event ((m.threadLeft task slot).wakeAll (.threadCount slot))
  | threadFinishes {event : Event} {task : Nat} {slot : ProcessSlot} (isReady : task ∈ m.queues.ready)
      (isOf : m.queues.process task = some slot) (isThread : m.onExit task = .threadOnExit)
      (isLast : (m.processes slot).threadCount - 1 = 0 ∧ (m.processes slot).mainExited = true) :
      Turn m event (processFinishExit ((m.threadLeft task slot).wakeAll (.threadCount slot)) slot
        (m.processes slot).exitStatus)
  | block {event : Event} {task : Nat} {channel : Channel} {point : Point}
      (isReady : task ∈ m.queues.ready) (reason : Reason m task channel point) :
      Turn m event (m.block task channel point)
  | reap {event : Event} {task : Nat} {slot : ProcessSlot} {asked : Option Int}
      (isReady : task ∈ m.queues.ready) (zombie : (m.processes slot).state = .zombie)
      (isParent : m.currentPid task = (m.processes slot).parentPid ∨
        ∃ pid, m.point task = .processWait slot pid (m.processes slot).parentPid)
      (isAsked : ∀ pid, asked = some pid → (m.processes slot).pid = pid) :
      Turn m event (reap (m.setPoint task .running) task slot asked)
  | release {pid : Int} {slot : ProcessSlot} (found : processFind m.processes pid = some slot)
      (zombie : (m.processes slot).state = .zombie) : Turn m (.detach pid) (m.release slot)
  | detach {pid : Int} {slot : ProcessSlot} (found : processFind m.processes pid = some slot)
      (notZombie : (m.processes slot).state ≠ .zombie) :
      Turn m (.detach pid)
        (m.modifyProcess slot fun proc => { proc with parentPid := 0, autoReap := true })
  | wake {event : Event} (selects : Nat × Channel → Bool) :
      Turn m event { m with queues := m.queues.wakeWhere selects }
  | requestKill {event : Event} {pid : Int} {slot : ProcessSlot}
      (found : processFind m.processes pid = some slot) : Turn m event (taskKillBlocked m pid slot)
  | kill {event : Event} {pid : Int} {slot : ProcessSlot}
      (found : processFind m.processes pid = some slot)
      (running : (m.processes slot).state = .running) :
      Turn m event (noteKilled (taskKillBlocked m pid slot) (m.serial slot))
  | shellTest {event : Event} {task : Nat} {pid : Int} {slot : ProcessSlot}
      (isReady : task ∈ m.queues.ready) (isShell : m.queues.process task = none)
      (found : processFind m.processes pid = some slot)
      (running : (m.processes slot).state = .running) :
      Turn m event (m.setPoint task (.killFind pid (m.serial slot)))
  | shellMissed {event : Event} {task : Nat} {pid : Int} {serial : Nat}
      (isReady : task ∈ m.queues.ready) (stands : m.point task = .killFind pid serial)
      (missing : processFind m.processes pid = none) :
      Turn m event (noteKilled (m.setPoint task .running) serial)
  | shellFound {event : Event} {task : Nat} {pid : Int} {slot : ProcessSlot} {serial : Nat}
      (isReady : task ∈ m.queues.ready) (stands : m.point task = .killFind pid serial)
      (found : processFind m.processes pid = some slot) :
      Turn m event (m.setPoint task (.killMark pid slot serial))
  | shellMark {task : Nat} {pid : Int} {slot : ProcessSlot} {serial : Nat}
      (isReady : task ∈ m.queues.ready) (stands : m.point task = .killMark pid slot serial) :
      Turn m (.resume task)
        (noteKilled (taskKillBlocked (m.setPoint task .running) pid slot) serial)

variable {event : Event} (isReady : task ∈ m.queues.ready)

include isReady

theorem turn_newProcess (memory : Bool) : Turn m event (orDestroy m.nextSpace
      (newProcess { m with nextSpace := m.nextSpace + 1 } task m.nextSpace memory)) := by
  rw [newProcess]
  rcases allocateSlot_cases { m with nextSpace := m.nextSpace + 1 } task with
    ⟨nextPid, isNone⟩ | ⟨slot, processes, nextPid, pid, isSome, allocated⟩
  · rw [isNone]
    exact .wasted nextPid
  · rw [isSome]
    cases memory with
    | false => exact .stillborn nextPid isReady allocated
    | true => exact .launch nextPid isReady allocated

theorem turn_sysFork (memory : Bool) : Turn m event (sysFork m task memory) := by
  rw [sysFork]
  split
  · exact .still
  · exact turn_newProcess isReady memory

omit isReady in
/-- A thread that could not be created was counted for a moment only. -/
theorem modifyProcess_threadCount (m : Life) (slot : ProcessSlot) :
    ((m.modifyProcess slot fun proc => { proc with threadCount := proc.threadCount + 1 }).modifyProcess
      slot fun proc => { proc with threadCount := proc.threadCount - 1 }) = m := by
  rw [Life.modifyProcess, Life.modifyProcess_self]
  dsimp only [Life.modifyProcess]
  rw [update_idem, Nat.add_sub_cancel, update_eq_self]

theorem turn_processThreadCreate (memory : Bool) :
    Turn m (.threadCreate task memory) (processThreadCreate m task memory) := by
  rw [processThreadCreate]
  split
  case h_1 => exact .still
  case h_2 slot isOf =>
    dsimp only
    split
    · exact .still
    · split
      · exact .thread isReady isOf
      · rw [modifyProcess_threadCount]
        exact .still

theorem turn_sysExecv : Turn m event (sysExecv m task) := by
  rw [sysExecv, createSpace]
  dsimp only
  rw [processExecReset]
  split
  case h_1 => exact .wasted m.nextPid
  case h_2 slot isOf =>
    split
    case isTrue => exact .wasted m.nextPid
    case isFalse alone => exact .exec isReady isOf (Nat.eq_zero_of_not_pos alone)

omit isReady in
theorem threadOnExit_exit (m : Life) (task : Nat) (slot : ProcessSlot) :
    threadOnExit { m with queues := m.queues.exit task } slot =
      if (m.processes slot).threadCount - 1 = 0 ∧ (m.processes slot).mainExited = true then
        processFinishExit ((m.threadLeft task slot).wakeAll (.threadCount slot)) slot
          (m.processes slot).exitStatus
      else (m.threadLeft task slot).wakeAll (.threadCount slot) := by
  have record : ((m.threadLeft task slot).wakeAll (.threadCount slot)).processes slot =
      { m.processes slot with threadCount := (m.processes slot).threadCount - 1 } :=
    threadLeft_self m task slot
  have unfolded : threadOnExit { m with queues := m.queues.exit task } slot =
      if (((m.threadLeft task slot).wakeAll (.threadCount slot)).processes slot).threadCount = 0 ∧
          (((m.threadLeft task slot).wakeAll (.threadCount slot)).processes slot).mainExited = true then
        processFinishExit ((m.threadLeft task slot).wakeAll (.threadCount slot)) slot
          (((m.threadLeft task slot).wakeAll (.threadCount slot)).processes slot).exitStatus
      else (m.threadLeft task slot).wakeAll (.threadCount slot) :=
    rfl
  rw [unfolded, record]

theorem turn_taskExit (status : Int) : Turn m event (taskExit m task status) := by
  rw [taskExit]
  dsimp only
  split
  case h_1 isKernel => exact .leave isReady (.inl isKernel)
  case h_2 slot isOf =>
    split
    case h_1 isNone => exact .leave isReady (.inr isNone)
    case h_2 isMain =>
      rw [processTaskExit]
      split
      case isTrue hasThreads => exact .mainLeaves isReady isOf isMain hasThreads status
      case isFalse noThreads =>
        have turn : Turn m event _ :=
          .mainFinishes isReady isOf isMain (Nat.eq_zero_of_not_pos noThreads) status
        rw [Life.mainLeftLast, Life.leave, update_eq_self] at turn
        exact turn
    case h_3 isThread =>
      rw [threadOnExit_exit]
      split
      case isTrue isLast => exact .threadFinishes isReady isOf isThread isLast
      case isFalse notLast => exact .threadLeaves isReady isOf isThread notLast

theorem turn_blockKillable {channel : Channel} {point : Point}
    (reason : Reason m task channel point) : Turn m event (blockKillable m task channel point) := by
  rw [blockKillable]
  split
  · exact turn_taskExit isReady taskKillStatus
  · exact .block isReady reason

variable {current : Int}

theorem turn_processWaitLoop (isPid : (m.processes slot).pid = pid)
    (isCurrent : m.currentPid task = current ∨ m.point task = .processWait slot pid current) :
    Turn m event (processWaitLoop m task slot pid current) := by
  rw [processWaitLoop]
  split
  case isTrue running => exact turn_blockKillable isReady (.wait running isPid isCurrent)
  case isFalse =>
    split
    case isTrue isChild =>
      obtain ⟨zombie, _, isParent⟩ := isChild
      subst isParent
      refine .reap isReady zombie (isCurrent.imp_right fun stands => ⟨pid, stands⟩) ?_
      exact fun asked isAsked => isPid.trans (Option.some.inj isAsked)
    case isFalse => exact .goOn isReady

theorem turn_processWait (pid : Int) : Turn m event (processWait m task pid) := by
  rw [processWait]
  split
  case h_1 => exact .still
  case h_2 slot found =>
    split
    · exact turn_processWaitLoop isReady (processFind_eq_some found).2 (.inl rfl)
    · exact .still

theorem turn_processWaitResume (stands : m.point task = .processWait slot pid current) :
    Turn m event (processWaitResume m task slot pid current) := by
  rw [processWaitResume]
  split
  case isTrue => exact .goOn isReady
  case isFalse unchanged =>
    rw [not_or, not_or, not_ne_iff] at unchanged
    exact turn_processWaitLoop isReady unchanged.2.1 (.inr stands)

omit isReady in
theorem isChild_eq_true : isChild m current pid slot = true ↔
    InUse m.processes slot ∧ (m.processes slot).parentPid = current ∧
      (0 < pid → (m.processes slot).pid = pid) := by
  rw [isChild, Bool.and_eq_true, Bool.and_eq_true, decide_eq_true_eq, decide_eq_true_eq,
    Bool.or_eq_true, decide_eq_true_eq, decide_eq_true_eq, and_assoc, ← Int.not_lt,
    ← imp_iff_not_or]
  rfl

theorem turn_processWaitpid (pid : Int) (nohang : Bool) :
    Turn m event (processWaitpid m task pid nohang) := by
  rw [processWaitpid]
  split
  case h_1 => exact .still
  case h_2 own isOf =>
    rw [processWaitpidLoop]
    split
    case h_1 slot found =>
      have matched := List.find?_some found
      rw [Bool.and_eq_true, decide_eq_true_eq, isChild_eq_true] at matched
      obtain ⟨⟨_, isParent, isAsked⟩, zombie⟩ := matched
      refine .reap isReady zombie (.inl ?_) ?_
      · rw [isParent, Life.currentPid, isOf]
      · intro asked isSome
        split at isSome
        case isTrue positive => exact (isAsked positive).trans (Option.some.inj isSome)
        case isFalse => cases isSome
    case h_2 missing =>
      split
      case isTrue hasChild =>
        refine turn_blockKillable isReady (.waitpid isOf ?_ ?_)
        · intro slot child zombie
          refine List.find?_eq_none.mp missing slot (List.mem_finRange slot) ?_
          rw [child, zombie]
          rfl
        · obtain ⟨slot, _, child⟩ := List.any_eq_true.mp ((Bool.and_eq_true _ _).mp hasChild).1
          exact ⟨slot, child⟩
      case isFalse => exact .goOn isReady

theorem turn_processThreadJoin : Turn m event (processThreadJoin m task) := by
  rw [processThreadJoin]
  split
  case h_1 => exact .still
  case h_2 own isOf =>
    split
    case isTrue hasThreads => exact turn_blockKillable isReady (.join isOf hasThreads)
    case isFalse => exact .goOn isReady

omit isReady in
theorem turn_processDetach (m : Life) (pid : Int) : Turn m (.detach pid) (processDetach m pid) := by
  rw [processDetach]
  split
  case h_1 => exact .still
  case h_2 slot found =>
    split
    case isTrue zombie => exact .release found zombie
    case isFalse notZombie => exact .detach found notZombie

omit isReady in
theorem turn_processSendSignal (m : Life) (pid : Int) (signum : Signal) :
    Turn m event (processSendSignal m pid signum) := by
  rw [processSendSignal]
  split
  · exact .still
  · split
    · exact .still
    · split
      · exact .still
      · exact .wake _

omit isReady in
theorem turn_processRequestKill (m : Life) (pid : Int) : Turn m event (processRequestKill m pid) := by
  rw [processRequestKill]
  split
  case h_1 => exact .still
  case h_2 slot found => exact .requestKill found

omit isReady in
theorem turn_processKill (m : Life) (pid : Int) : Turn m event (processKill m pid) := by
  rw [processKill]
  split
  case h_1 => exact .still
  case h_2 slot found =>
    split
    case isTrue running =>
      rw [processRequestKill, found]
      exact .kill found running
    case isFalse => exact .still

theorem turn_shellKillTest (isShell : m.queues.process task = none)
    (pid : Int) : Turn m event (shellKillTest m task pid) := by
  rw [shellKillTest]
  split
  case h_1 => exact .still
  case h_2 slot found =>
    split
    case isTrue running => exact .shellTest isReady isShell found running
    case isFalse => exact .still

theorem turn_resume : Turn m (.resume task) (resume m task) := by
  rw [resume]
  split
  case h_1 => exact .still
  case h_2 pid serial stands =>
    rw [shellKillFind]
    split
    case h_1 missing => exact .shellMissed isReady stands missing
    case h_2 slot found => exact .shellFound isReady stands found
  case h_3 pid slot serial stands => exact .shellMark isReady stands
  case h_4 slot pid current stands =>
    split
    · exact turn_taskExit isReady taskKillStatus
    · exact turn_processWaitResume isReady stands
  case h_5 pid stands =>
    split
    · exact turn_taskExit isReady taskKillStatus
    · exact turn_processWaitpid isReady pid false
  case h_6 stands =>
    split
    · exact turn_taskExit isReady taskKillStatus
    · exact turn_processThreadJoin isReady
  case h_7 stands => exact .goOn isReady

omit isReady

theorem Life.idle_ready (idle : m.idle task = true) : task ∈ m.queues.ready := by
  rw [Life.idle, Bool.and_eq_true, decide_eq_true_eq] at idle
  exact idle.1

/-- A task that cannot perform the operation does nothing. -/
theorem turn_if {condition : Prop} [Decidable condition] {after : Life}
    (turn : condition → Turn m event after) : Turn m event (if condition then after else m) := by
  split
  case isTrue holds => exact turn holds
  case isFalse => exact .still

theorem lifeStep_turn (m : Life) (event : Event) : Turn m event (lifeStep m event) := by
  cases event with
  | spawn task memory =>
    exact turn_if fun idle => turn_newProcess (Life.idle_ready idle) memory
  | fork task memory =>
    exact turn_if fun idle => turn_sysFork (Life.idle_ready idle) memory
  | threadCreate task memory =>
    exact turn_if fun idle => turn_processThreadCreate (Life.idle_ready idle) memory
  | exec task =>
    exact turn_if fun idle => turn_sysExecv (Life.idle_ready idle)
  | exit task status =>
    exact turn_if fun idle => turn_taskExit (Life.idle_ready idle) status
  | wait task pid =>
    exact turn_if fun idle => turn_processWait (Life.idle_ready idle) pid
  | waitpid task pid nohang =>
    exact turn_if fun idle => turn_processWaitpid (Life.idle_ready idle) pid nohang
  | threadJoin task =>
    exact turn_if fun idle => turn_processThreadJoin (Life.idle_ready idle)
  | sleep task channel =>
    exact turn_if fun idle => .block (Life.idle_ready idle) (.sleep channel)
  | kill task pid =>
    exact turn_if fun _ => turn_processKill m pid
  | shellKill task pid =>
    refine turn_if fun isShell => ?_
    rw [Bool.and_eq_true, Option.isNone_iff_eq_none] at isShell
    exact turn_shellKillTest (Life.idle_ready isShell.1) isShell.2 pid
  | resume task =>
    exact turn_if fun isReady => turn_resume isReady
  | requestKill pid => exact turn_processRequestKill m pid
  | sendSignal pid signum => exact turn_processSendSignal m pid signum
  | wake channel => exact .wake _
  | detach pid => exact turn_processDetach m pid

end MiniOS.Lifecycle
