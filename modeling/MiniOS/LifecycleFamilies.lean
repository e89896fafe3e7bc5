import MiniOS.LifecyclePopulation

/-!
# Parents, children and zombies

Numbers of processes in use are distinct, every process has a running parent or none,
and what is returned by `process_wait` and `process_waitpid` is the status of a child of
the caller, at most once.
-/

namespace MiniOS.Lifecycle

open Function Paging Machine
open Kernel

variable {m after : Life} {slot other : ProcessSlot} {task : Nat}

/-- The records of the slots in use, the processes that have been released and the
statuses that have been returned. -/
structure Related (m : Life) : Prop where
  distinct : NumbersDistinct m.processes
  positive : ∀ slot, InUse m.processes slot → 1 ≤ (m.processes slot).pid
  parent : ∀ slot, InUse m.processes slot → (m.processes slot).parentPid = 0 ∨
    ∃ other, (m.processes other).state = .running ∧
      (m.processes other).pid = (m.processes slot).parentPid
  serials : ∀ slot other, InUse m.processes slot → InUse m.processes other →
    m.serial slot = m.serial other → slot = other
  old : ∀ slot, InUse m.processes slot → m.serial slot < m.nextSerial
  kept : ∀ slot, InUse m.processes slot → some (m.serial slot) ∉ m.history.released
  releasedUsed : none ∉ m.history.released
  releasedOld : ∀ serial, some serial ∈ m.history.released → serial < m.nextSerial
  releasedOnce : m.history.released.Nodup
  reapedReleased : ∀ entry ∈ m.history.reaped, some entry.serial ∈ m.history.released
  reapedOnce : (m.history.reaped.map Reap.serial).Nodup
  reapedRight : ∀ entry ∈ m.history.reaped, entry.caller = entry.parentPid ∧
    (∀ pid, entry.asked = some pid → entry.pid = pid) ∧
      (entry.serial, entry.status) ∈ m.history.finished

/-- A task that waits in `process_wait` still has the number with which it has called. -/
def Callers (m : Life) : Prop :=
  ∀ task ∈ m.queues.tasks, ∀ slot pid current,
    m.point task = .processWait slot pid current → m.currentPid task = current

def Childless (m : Life) (slot : ProcessSlot) : Prop :=
  ∀ other, InUse m.processes other → (m.processes other).parentPid ≠ (m.processes slot).pid

/-- Slots in use stay in use under their numbers, and parents go on running; a process may
have lost its parent. -/
structure SameKin (m after : Life) : Prop where
  pid : ∀ slot, (after.processes slot).pid = (m.processes slot).pid
  used : ∀ slot, InUse after.processes slot ↔ InUse m.processes slot
  running : ∀ slot, (m.processes slot).state = .running →
    (after.processes slot).state = .running ∨ Childless m slot
  parent : ∀ slot, (after.processes slot).parentPid = (m.processes slot).parentPid ∨
    (after.processes slot).parentPid = 0
  serial : after.serial = m.serial
  nextSerial : after.nextSerial = m.nextSerial
  released : after.history.released = m.history.released
  reaped : after.history.reaped = m.history.reaped
  finished : ∀ entry ∈ m.history.finished, entry ∈ after.history.finished

/-- The slots in `gone` are released; a process that stays keeps its number, and its
parent if that goes on running. -/
theorem Related.dwindle (related : Related m) (gone : List ProcessSlot)
    (used : ∀ slot, InUse after.processes slot → InUse m.processes slot ∧ slot ∉ gone ∧
      (after.processes slot).pid = (m.processes slot).pid)
    (parent : ∀ slot, InUse after.processes slot → (after.processes slot).parentPid = 0 ∨
      (after.processes slot).parentPid = (m.processes slot).parentPid ∧
        ∀ other, (m.processes other).state = .running →
          (m.processes other).pid = (m.processes slot).parentPid →
          (after.processes other).state = .running ∧
            (after.processes other).pid = (m.processes other).pid)
    (isGone : ∀ slot ∈ gone, InUse m.processes slot) (once : gone.Nodup)
    (serial : after.serial = m.serial) (nextSerial : after.nextSerial = m.nextSerial)
    (released : after.history.released =
      gone.map (fun slot => some (m.serial slot)) ++ m.history.released)
    (reaped : after.history.reaped = m.history.reaped)
    (finished : ∀ entry ∈ m.history.finished, entry ∈ after.history.finished) : Related after := by
  constructor
  case distinct =>
    intro slot other slotUsed otherUsed samePid
    rw [(used slot slotUsed).2.2, (used other otherUsed).2.2] at samePid
    exact related.distinct slot other (used slot slotUsed).1 (used other otherUsed).1 samePid
  case positive =>
    intro slot slotUsed
    rw [(used slot slotUsed).2.2]
    exact related.positive slot (used slot slotUsed).1
  case parent =>
    intro slot slotUsed
    rcases parent slot slotUsed with isLost | ⟨isSame, goesOn⟩
    · exact .inl isLost
    · rw [isSame]
      refine (related.parent slot (used slot slotUsed).1).imp_right ?_
      rintro ⟨other, running, isParent⟩
      obtain ⟨stillRunning, samePid⟩ := goesOn other running isParent
      exact ⟨other, stillRunning, samePid.trans isParent⟩
  case serials =>
    intro slot other slotUsed otherUsed
    rw [serial]
    exact related.serials slot other (used slot slotUsed).1 (used other otherUsed).1
  case old =>
    intro slot slotUsed
    rw [serial, nextSerial]
    exact related.old slot (used slot slotUsed).1
  case kept =>
    intro slot slotUsed
    obtain ⟨wasUsed, stays, -⟩ := used slot slotUsed
    rw [serial, released, List.mem_append, List.mem_map]
    rintro (⟨other, otherGone, same⟩ | wasReleased)
    · rw [related.serials other slot (isGone other otherGone) wasUsed (Option.some.inj same)]
        at otherGone
      exact stays otherGone
    · exact related.kept slot wasUsed wasReleased
  case releasedUsed =>
    rw [released, List.mem_append]
    rintro (isNone | wasReleased)
    · simp at isNone
    · exact related.releasedUsed wasReleased
  case releasedOld =>
    rw [released, nextSerial]
    intro number isReleased
    rcases List.mem_append.mp isReleased with now | wasReleased
    · obtain ⟨slot, slotGone, same⟩ := List.mem_map.mp now
      rw [← Option.some.inj same]
      exact related.old slot (isGone slot slotGone)
    · exact related.releasedOld number wasReleased
  case releasedOnce =>
    rw [released]
    refine List.Nodup.append (once.map_on fun slot slotGone other otherGone same => ?_)
      related.releasedOnce fun _ now wasReleased => ?_
    · exact related.serials slot other (isGone slot slotGone) (isGone other otherGone)
        (Option.some.inj same)
    · obtain ⟨slot, slotGone, rfl⟩ := List.mem_map.mp now
      exact related.kept slot (isGone slot slotGone) wasReleased
  case reapedReleased =>
    rw [reaped, released]
    exact fun entry isReaped => List.mem_append_right _ (related.reapedReleased entry isReaped)
  case reapedOnce => exact reaped.symm ▸ related.reapedOnce
  case reapedRight =>
    rw [reaped]
    intro entry isReaped
    obtain ⟨isCaller, isAsked, isFinished⟩ := related.reapedRight entry isReaped
    exact ⟨isCaller, isAsked, finished _ isFinished⟩

theorem Related.of_sameKin (related : Related m) (same : SameKin m after) : Related after := by
  refine related.dwindle [] (fun slot used => ⟨(same.used slot).mp used, List.not_mem_nil, same.pid slot⟩)
    (fun slot used => (same.parent slot).symm.imp_right fun isSame => ⟨isSame, ?_⟩)
    (by simp) .nil same.serial same.nextSerial same.released same.reaped same.finished
  intro other running isParent
  refine ⟨(same.running other running).resolve_right fun childless => ?_, same.pid other⟩
  exact childless slot ((same.used slot).mp used) isParent.symm

/-- A record is replaced by one of the same family, or by that of a process that has ended
without children. -/
theorem sameKin_update {record : Process} (m : Life) (slot : ProcessSlot)
    (processes : after.processes = update m.processes slot record)
    (pid : record.pid = (m.processes slot).pid)
    (state : record.state = (m.processes slot).state ∨
      record.state = .zombie ∧ (m.processes slot).state = .running ∧ Childless m slot)
    (parent : record.parentPid = (m.processes slot).parentPid ∨ record.parentPid = 0)
    (serial : after.serial = m.serial) (nextSerial : after.nextSerial = m.nextSerial)
    (released : after.history.released = m.history.released)
    (reaped : after.history.reaped = m.history.reaped)
    (finished : ∀ entry ∈ m.history.finished, entry ∈ after.history.finished) :
    SameKin m after := by
  have self : after.processes slot = record := by rw [processes, update_self]
  have others : ∀ place, place ≠ slot → after.processes place = m.processes place :=
    fun place different => by rw [processes, update_of_ne different]
  refine ⟨fun place => ?_, fun place => ?_, fun place wasRunning => ?_, fun place => ?_, serial,
    nextSerial, released, reaped, finished⟩
  · by_cases isSlot : place = slot
    · rw [isSlot, self, pid]
    · rw [others place isSlot]
  · by_cases isSlot : place = slot
    · rw [InUse, InUse, isSlot, self]
      rcases state with same | ⟨zombie, running, -⟩
      · rw [same]
      · rw [zombie, running]
        decide
    · rw [InUse, InUse, others place isSlot]
  · by_cases isSlot : place = slot
    · subst isSlot
      rw [self]
      exact state.imp (fun same => same.trans wasRunning) fun ends => ends.2.2
    · exact .inl ((congrArg Process.state (others place isSlot)).trans wasRunning)
  · by_cases isSlot : place = slot
    · rw [isSlot, self]
      exact parent
    · exact .inl (congrArg Process.parentPid (others place isSlot))

/-- Nothing that concerns families is touched. -/
theorem sameKin_of_eq (processes : after.processes = m.processes) (serial : after.serial = m.serial)
    (nextSerial : after.nextSerial = m.nextSerial)
    (released : after.history.released = m.history.released)
    (reaped : after.history.reaped = m.history.reaped)
    (finished : after.history.finished = m.history.finished) : SameKin m after :=
  sameKin_update m 0 (processes.trans (update_eq_self 0 m.processes).symm) rfl (.inl rfl) (.inl rfl)
    serial nextSerial released reaped (finished ▸ fun _ => id)

theorem sameKin_destroySpace (m : Life) (space : SpacePtr) : SameKin m (m.destroySpace space) := by
  cases space with
  | user id | kernel | null => exact sameKin_of_eq rfl rfl rfl rfl rfl rfl

theorem sameKin_threadAdded (m : Life) (slot : ProcessSlot) : SameKin m (m.threadAdded slot) :=
  sameKin_update m slot rfl rfl (.inl rfl) (.inl rfl) rfl rfl rfl rfl fun _ => id

theorem sameKin_mainLeft (m : Life) (task : Nat) (slot : ProcessSlot) (status : Int) :
    SameKin m (m.mainLeft task slot status) :=
  sameKin_update m slot rfl rfl (.inl rfl) (.inl rfl) rfl rfl rfl rfl fun _ => id

theorem sameKin_mainLeftLast (m : Life) (task : Nat) (slot : ProcessSlot) (status : Int) :
    SameKin m (m.mainLeftLast task slot status) :=
  sameKin_update m slot rfl rfl (.inl rfl) (.inl rfl) rfl rfl rfl rfl fun _ => id

theorem sameKin_threadLeft (m : Life) (task : Nat) (slot : ProcessSlot) :
    SameKin m ((m.threadLeft task slot).wakeAll (.threadCount slot)) :=
  sameKin_update m slot rfl rfl (.inl rfl) (.inl rfl) rfl rfl rfl rfl fun _ => id

theorem sameKin_detach (m : Life) (slot : ProcessSlot) :
    SameKin m (m.modifyProcess slot fun proc => { proc with parentPid := 0, autoReap := true }) :=
  sameKin_update m slot rfl rfl (.inl rfl) (.inr rfl) rfl rfl rfl rfl fun _ => id

theorem sameKin_swapped (m : Life) (task : Nat) (slot : ProcessSlot) :
    SameKin m (Life.swapped { m with nextSpace := m.nextSpace + 1 } task slot m.nextSpace) :=
  sameKin_update m slot rfl rfl (.inl rfl) (.inl rfl) rfl rfl rfl rfl fun _ => id

theorem Related.childless_of_zombie (related : Related m)
    (zombie : (m.processes slot).state = .zombie) :
    Childless m slot := by
  intro other used isParent
  have isUsed := inUse_of_zombie zombie
  rcases related.parent other used with noParent | ⟨parent, running, isPid⟩
  · have positive := related.positive slot isUsed
    rw [← isParent, noParent] at positive
    exact absurd positive (by decide)
  · have same := related.distinct parent slot (inUse_of_running running) isUsed (isPid.trans isParent)
    rw [same, zombie] at running
    cases running

theorem release_inUse (used : InUse (m.release slot).processes other) :
    other ≠ slot ∧ InUse m.processes other := by
  have different : other ≠ slot := by
    rintro rfl
    rw [InUse, Life.release_self] at used
    exact used rfl
  rw [InUse, Life.release_of_ne m different] at used
  exact ⟨different, used⟩

theorem Life.release_released (used : InUse m.processes slot) :
    (m.release slot).history.released = some (m.serial slot) :: m.history.released := by
  rw [Life.release]
  exact congrArg (· :: m.history.released) (if_neg used)

variable (related : Related m)

include related

theorem Related.release (used : InUse m.processes slot)
    (childless : Childless m slot) : Related (m.release slot) := by
  have stays : ∀ {other}, InUse (m.release slot).processes other →
      (m.release slot).processes other = m.processes other :=
    fun isUsed => Life.release_of_ne m (release_inUse isUsed).1
  refine related.dwindle [slot] (fun other isUsed => ?_) (fun other isUsed => .inr ?_)
    (by simpa using used) (List.nodup_singleton slot) rfl rfl (Life.release_released used) rfl
    fun _ => id
  · obtain ⟨different, wasUsed⟩ := release_inUse isUsed
    rw [stays isUsed]
    exact ⟨wasUsed, by simpa using different, rfl⟩
  · rw [stays isUsed]
    refine ⟨rfl, fun parent running isParent => ?_⟩
    rw [Life.release_of_ne m]
    · exact ⟨running, rfl⟩
    · rintro rfl
      exact childless other (release_inUse isUsed).2 isParent.symm

theorem related_reap (zombie : (m.processes slot).state = .zombie)
    {asked : Option Int} (isCaller : m.currentPid task = (m.processes slot).parentPid)
    (isAsked : ∀ pid, asked = some pid → (m.processes slot).pid = pid)
    (isFinished : (m.serial slot, (m.processes slot).exitStatus) ∈ m.history.finished) :
    Related (reap m task slot asked) := by
  have used := inUse_of_zombie zombie
  have released := related.release used (related.childless_of_zombie zombie)
  have isReleased : some (m.serial slot) ∈ (m.release slot).history.released := by
    rw [Life.release_released used]
    exact List.mem_cons_self
  have isNew : m.serial slot ∉ m.history.reaped.map Reap.serial := by
    intro isReaped
    obtain ⟨entry, member, isSerial⟩ := List.mem_map.mp isReaped
    exact related.kept slot used (isSerial ▸ related.reapedReleased entry member)
  exact { released with
    reapedReleased := List.forall_mem_cons.mpr ⟨isReleased, released.reapedReleased⟩
    reapedOnce := List.nodup_cons.mpr ⟨isNew, released.reapedOnce⟩
    reapedRight :=
      List.forall_mem_cons.mpr ⟨⟨isCaller, isAsked, isFinished⟩, released.reapedRight⟩ }

omit related in
/-- The children that are left after the end of a process. -/
theorem leaveChildren_inUse {pid : Int} (used : InUse (leaveChildren m pid).processes slot) :
    InUse m.processes slot ∧ ((leaveChildren m pid).processes slot).pid = (m.processes slot).pid ∧
      (((leaveChildren m pid).processes slot).parentPid = (m.processes slot).parentPid ∧
          (m.processes slot).parentPid ≠ pid ∨
        ((leaveChildren m pid).processes slot).parentPid = 0) ∧
      ¬ ((m.processes slot).state = .zombie ∧ (m.processes slot).parentPid = pid) := by
  rcases leaveChildren_cases m pid slot with
    ⟨same, notChild⟩ | ⟨_, _, isZero⟩ | ⟨running, _, changed⟩
  · rw [InUse, same] at used
    rw [same]
    exact ⟨used, rfl, .inl ⟨rfl, notChild used⟩, fun both => notChild used both.2⟩
  · rw [InUse, isZero] at used
    exact absurd rfl used
  · rw [changed]
    refine ⟨inUse_of_running running, rfl, .inr rfl, fun both => ?_⟩
    rw [running] at both
    cases both.1

omit related in
theorem leaveChildren_running (pid : Int) (running : (m.processes slot).state = .running) :
    ((leaveChildren m pid).processes slot).state = .running ∧
      ((leaveChildren m pid).processes slot).pid = (m.processes slot).pid ∧
        ((m.processes slot).parentPid ≠ pid →
          ((leaveChildren m pid).processes slot).parentPid = (m.processes slot).parentPid) ∧
        ((leaveChildren m pid).processes slot).threadCount = (m.processes slot).threadCount := by
  rcases leaveChildren_cases m pid slot with ⟨same, _⟩ | ⟨zombie, _⟩ | ⟨_, isChild, changed⟩
  · rw [same]
    exact ⟨running, rfl, fun _ => rfl, rfl⟩
  · rw [running] at zombie
    cases zombie
  · rw [changed]
    exact ⟨running, rfl, fun notChild => absurd isChild notChild, rfl⟩

theorem related_leaveChildren (pid : Int) : Related (leaveChildren m pid) := by
  refine related.dwindle ((List.finRange 16).filter fun slot =>
      (m.processes slot).state = .zombie ∧ (m.processes slot).parentPid = pid)
    (fun slot used => ?_) (fun slot used => ?_) (fun slot isGone => ?_)
    ((List.nodup_finRange 16).filter _) rfl rfl rfl rfl fun _ => id
  · obtain ⟨wasUsed, samePid, -, stays⟩ := leaveChildren_inUse used
    exact ⟨wasUsed, by simpa using stays, samePid⟩
  · rcases (leaveChildren_inUse used).2.2.1 with ⟨same, -⟩ | isLost
    · refine .inr ⟨same, fun other running _ => ?_⟩
      exact (leaveChildren_running pid running).imp_right And.left
    · exact .inl isLost
  · exact inUse_of_zombie (of_decide_eq_true (List.mem_filter.mp isGone).2).1

theorem childless_leaveChildren (running : (m.processes slot).state = .running) :
    Childless (leaveChildren m (m.processes slot).pid) slot := by
  intro other used
  rw [(leaveChildren_running _ running).2.1]
  rcases (leaveChildren_inUse used).2.2.1 with ⟨same, notChild⟩ | isLost
  · rw [same]
    exact notChild
  · rw [isLost]
    have positive := related.positive slot (inUse_of_running running)
    omega

variable (running : (m.processes slot).state = .running)

include running

omit related in
theorem sameKin_becomeZombie (childless : Childless m slot) (status : Int) :
    SameKin m (becomeZombie m slot status) :=
  sameKin_update m slot rfl rfl (.inr ⟨rfl, running, childless⟩) (.inl rfl) rfl rfl rfl rfl
    fun _ => List.mem_cons_of_mem _

theorem Related.died (status : Int) : Related (m.died slot status) := by
  have childless := childless_leaveChildren related running
  have stillRunning := (leaveChildren_running (m.processes slot).pid running).1
  have left := related_leaveChildren related (m.processes slot).pid
  have gone := left.of_sameKin (sameKin_destroySpace _
    ((leaveChildren m (m.processes slot).pid).processes slot).addressSpace)
  refine gone.of_sameKin (sameKin_becomeZombie ?_ ?_ status)
  · rw [destroySpace_processes, stillRunning]
  · rw [Childless, destroySpace_processes]
    exact childless

theorem related_processFinishExit (status : Int) : Related (processFinishExit m slot status) := by
  have died := related.died running status
  have zombie := died_self m slot status
  obtain ⟨queues, isTold, _⟩ := told_eq (m.died slot status) slot
  have told : Related ((m.died slot status).told slot) := by
    rw [isTold]
    exact died.of_sameKin (sameKin_of_eq rfl rfl rfl rfl rfl rfl)
  have stillZombie : (((m.died slot status).told slot).processes slot).state = .zombie := by
    rw [isTold]
    exact zombie
  rw [processFinishExit_eq]
  split
  · exact told.release (inUse_of_zombie stillZombie) (told.childless_of_zombie stillZombie)
  · exact told

omit running

/-- A running process has this number. -/
abbrev Life.HasRunning (m : Life) (pid : Int) : Prop :=
  ∃ other, (m.processes other).state = .running ∧ (m.processes other).pid = pid

omit related in
/-- The number of the process of a live task is that of a running process. -/
theorem Populated.currentPid (populated : Populated m none) (live : task ∈ m.queues.tasks) :
    m.currentPid task = 0 ∨ m.HasRunning (m.currentPid task) := by
  rw [Life.currentPid]
  cases isOf : m.queues.process task with
  | none => exact .inl rfl
  | some slot => exact .inr ⟨slot, (populated.member task live slot isOf).running, rfl⟩

variable {processes : ProcessTable} {pid parent : Int}
  (allocated : Allocated m.processes processes parent slot pid)
  (isParent : parent = 0 ∨ m.HasRunning parent) (nextPid : Int) (space : SpaceId)

include allocated isParent

theorem Related.claimed : Related (m.claimed slot processes nextPid space) := by
  have record := claimed_self nextPid space allocated
  have others : ∀ place, place ≠ slot →
      (m.claimed slot processes nextPid space).processes place = m.processes place :=
    fun place different => claimed_of_ne _ _ allocated different
  have serialSelf : (m.claimed slot processes nextPid space).serial slot = m.nextSerial :=
    update_self ..
  have serialOthers : ∀ place, place ≠ slot →
      (m.claimed slot processes nextPid space).serial place = m.serial place :=
    fun place different => update_of_ne different ..
  have used : ∀ place, InUse (m.claimed slot processes nextPid space).processes place →
      place = slot ∨ place ≠ slot ∧ InUse m.processes place := by
    intro place isUsed
    by_cases isSlot : place = slot
    · exact .inl isSlot
    · rw [InUse, others place isSlot] at isUsed
      exact .inr ⟨isSlot, isUsed⟩
  have notSlot : ∀ other, (m.processes other).state = .running → other ≠ slot := by
    rintro other running rfl
    rw [allocated.unused] at running
    cases running
  constructor
  case distinct =>
    refine distinct_insert (fun place isUsed (different : place ≠ slot) => ?_) ?_ related.distinct
    · rw [others place different]
      exact ⟨((used place isUsed).resolve_left different).2, rfl⟩
    · rw [record]
      exact allocated.fresh
  case positive =>
    intro place placeUsed
    rcases used place placeUsed with isSlot | ⟨different, placeWas⟩
    · rw [isSlot, record]
      exact allocated.positive
    · rw [others place different]
      exact related.positive place placeWas
  case parent =>
    have stays : ∀ wanted, m.HasRunning wanted →
        (m.claimed slot processes nextPid space).HasRunning wanted := by
      rintro wanted ⟨other, running, isWanted⟩
      refine ⟨other, ?_, ?_⟩
      · rwa [others other (notSlot other running)]
      · rwa [others other (notSlot other running)]
    intro place placeUsed
    rcases used place placeUsed with isSlot | ⟨different, placeWas⟩
    · rw [isSlot, record]
      exact isParent.imp_right (stays parent)
    · rw [others place different]
      exact (related.parent place placeWas).imp_right (stays _)
  case serials =>
    refine distinct_insert (fun place isUsed (different : place ≠ slot) => ?_) ?_ related.serials
    · exact ⟨((used place isUsed).resolve_left different).2, serialOthers place different⟩
    · rw [serialSelf]
      exact fun place isUsed => Nat.ne_of_lt (related.old place isUsed)
  case old =>
    intro place placeUsed
    rcases used place placeUsed with isSlot | ⟨different, placeWas⟩
    · rw [isSlot, serialSelf]
      exact Nat.lt_succ_self _
    · rw [serialOthers place different]
      exact Nat.lt_succ_of_lt (related.old place placeWas)
  case kept =>
    intro place placeUsed
    rcases used place placeUsed with isSlot | ⟨different, placeWas⟩
    · rw [isSlot, serialSelf]
      exact fun isReleased => Nat.lt_irrefl _ (related.releasedOld _ isReleased)
    · rw [serialOthers place different]
      exact related.kept place placeWas
  case releasedUsed => exact related.releasedUsed
  case releasedOld =>
    exact fun serial isReleased => Nat.lt_succ_of_lt (related.releasedOld serial isReleased)
  case releasedOnce => exact related.releasedOnce
  case reapedReleased => exact related.reapedReleased
  case reapedOnce => exact related.reapedOnce
  case reapedRight => exact related.reapedRight

theorem Related.launched :
    Related (m.launched slot processes nextPid space) :=
  (related.claimed allocated isParent nextPid space).of_sameKin
    (sameKin_update _ slot rfl rfl (.inl rfl) (.inl rfl) rfl rfl rfl rfl fun _ => id)

theorem Related.claimed_release :
    Related ((m.claimed slot processes nextPid space).release slot) := by
  have record := claimed_self nextPid space allocated
  have fresh : ∀ wanted, wanted = 0 ∨ m.HasRunning wanted → wanted ≠ pid := by
    rintro wanted (noParent | ⟨other, running, isWanted⟩) isPid
    · have positive := allocated.positive
      omega
    · exact allocated.fresh other (inUse_of_running running) (isWanted.trans isPid)
  apply (related.claimed allocated isParent nextPid space).release
  · apply inUse_of_running
    rw [record]
  · intro other used
    rw [record]
    by_cases isSlot : other = slot
    · rw [isSlot, record]
      exact fresh parent isParent
    · rw [InUse, claimed_of_ne _ _ allocated isSlot] at used
      rw [claimed_of_ne _ _ allocated isSlot]
      exact fresh _ (related.parent other used)

omit related allocated isParent

theorem Related.turn (related : Related m) (callers : Callers m) (populated : Populated m none)
    {event : Event} (turn : Turn m event after) : Related after := by
  have live : ∀ {task : Nat}, task ∈ m.queues.ready → task ∈ m.queues.tasks :=
    TaskQueues.mem_tasks_of_ready
  have same : ∀ {after : Life}, after.processes = m.processes → after.serial = m.serial →
      after.nextSerial = m.nextSerial → after.history.released = m.history.released →
      after.history.reaped = m.history.reaped → after.history.finished = m.history.finished →
      Related after :=
    fun processes serial nextSerial released reaped finished =>
      related.of_sameKin (sameKin_of_eq processes serial nextSerial released reaped finished)
  cases turn with
  | still => exact related
  | stillborn nextPid isReady allocated =>
    have spaced : Related { m with nextSpace := m.nextSpace + 1 } := same rfl rfl rfl rfl rfl rfl
    exact (spaced.claimed_release allocated (populated.currentPid (live isReady)) nextPid
      m.nextSpace).of_sameKin (sameKin_destroySpace ..)
  | launch nextPid isReady allocated =>
    have spaced : Related { m with nextSpace := m.nextSpace + 1 } := same rfl rfl rfl rfl rfl rfl
    exact spaced.launched allocated (populated.currentPid (live isReady)) nextPid m.nextSpace
  | thread => exact related.of_sameKin (sameKin_threadAdded ..)
  | exec => exact (related.of_sameKin (sameKin_swapped ..)).of_sameKin (sameKin_destroySpace ..)
  | mainLeaves => exact related.of_sameKin (sameKin_mainLeft ..)
  | mainFinishes isReady isOf isMain noThreads status =>
    rename_i task slot
    have left := related.of_sameKin (sameKin_mainLeftLast m task slot status)
    refine related_processFinishExit left ?_ status
    rw [Life.mainLeftLast, Life.leave_self]
    exact (populated.member task (live isReady) slot isOf).running
  | threadLeaves => exact related.of_sameKin (sameKin_threadLeft ..)
  | threadFinishes isReady isOf isThread isLast =>
    rename_i task slot
    have left := related.of_sameKin (sameKin_threadLeft m task slot)
    refine related_processFinishExit left ?_ _
    rw [Life.wakeAll, threadLeft_self]
    exact (populated.member task (live isReady) slot isOf).running
  | reap isReady zombie isParent isAsked =>
    rename_i task slot asked
    have pointed : Related (m.setPoint task .running) := same rfl rfl rfl rfl rfl rfl
    refine related_reap pointed zombie ?_ isAsked (populated.dead slot zombie)
    rcases isParent with isCaller | ⟨pid, stands⟩
    · exact isCaller
    · exact callers task (live isReady) slot pid _ stands
  | release found zombie =>
    exact related.release (inUse_of_zombie zombie) (related.childless_of_zombie zombie)
  | detach => exact related.of_sameKin (sameKin_detach ..)
  | goOn | wasted | leave | block | wake | requestKill | kill | shellTest | shellMissed | shellFound
  | shellMark => exact same rfl rfl rfl rfl rfl rfl

theorem processFinishExit_running {place : ProcessSlot} {status : Int}
    (still : ((processFinishExit m slot status).processes place).state = .running) :
    (m.processes place).state = .running ∧
      ((processFinishExit m slot status).processes place).pid = (m.processes place).pid := by
  obtain ⟨queues, isTold, _⟩ := told_eq (m.died slot status) slot
  have told : ((m.died slot status).told slot).processes = (m.died slot status).processes := by
    rw [isTold]
  by_cases isSlot : place = slot
  · -- the process itself does not go on running
    subst isSlot
    rw [processFinishExit_eq] at still
    split at still
    · rw [Life.release_self] at still
      cases still
    · rw [told, died_self] at still
      cases still
  · have stays : (processFinishExit m slot status).processes place =
        (leaveChildren m (m.processes slot).pid).processes place := by
      rw [processFinishExit_eq]
      split
      · rw [Life.release_of_ne _ isSlot, told, died_of_ne m isSlot]
      · rw [told, died_of_ne m isSlot]
    rw [stays] at still ⊢
    exact ⟨((unmoved_leaveChildren m _).vitals place).running.mp still,
      (leaveChildren_inUse (inUse_of_running still)).2.1⟩

/-- A task that waits in `process_wait` was already waiting, or has just called. -/
theorem Callers.of_same (callers : Callers m) (populated : Populated m none)
    (later : Populated after none)
    (waits : ∀ task ∈ after.queues.tasks, ∀ slot pid current,
      after.point task = .processWait slot pid current →
        task ∈ m.queues.tasks ∧ after.queues.process task = m.queues.process task ∧
          (m.point task = .processWait slot pid current ∨ m.currentPid task = current))
    (pids : ∀ slot, (m.processes slot).state = .running → (after.processes slot).state = .running →
      (after.processes slot).pid = (m.processes slot).pid) : Callers after := by
  intro task live slot pid current stands
  obtain ⟨wasLive, sameProcess, known⟩ := waits task live slot pid current stands
  have wasCurrent : m.currentPid task = current :=
    known.elim (callers task wasLive slot pid current) id
  rw [← wasCurrent, Life.currentPid, Life.currentPid, sameProcess]
  cases isOf : m.queues.process task with
  | none => rfl
  | some own =>
    have running := (populated.member task wasLive own isOf).running
    exact pids own running (later.member task live own (sameProcess.trans isOf)).running

theorem setPoint_wait {point : Point}
    (notWait : ∀ slot pid current, point ≠ .processWait slot pid current)
    {other : Nat} {slot : ProcessSlot} {pid current : Int}
    (stands : update m.point task point other = .processWait slot pid current) :
    m.point other = .processWait slot pid current := by
  by_cases isTask : other = task
  · rw [isTask, update_self] at stands
    exact absurd stands (notWait slot pid current)
  · rwa [update_of_ne isTask] at stands

theorem Callers.turn (callers : Callers m) (populated : Populated m none) {event : Event}
    (turn : Turn m event after) : Callers after := by
  have later := populated.turn turn
  have exited : ∀ {task other : Nat}, task ∈ m.queues.ready → other ∈ (m.queues.exit task).tasks →
      other ∈ m.queues.tasks :=
    fun isReady live => ((populated.mem_exit isReady).mp live).2
  have finished : ∀ {task other : Nat} {left : Life} {slot place : ProcessSlot}
      {status number current : Int}, task ∈ m.queues.ready → left.point = m.point →
      left.queues.process = m.queues.process → (m.queues.exit task).Woken left.queues →
      other ∈ (processFinishExit left slot status).queues.tasks →
      (processFinishExit left slot status).point other = .processWait place number current →
      other ∈ m.queues.tasks ∧
        (processFinishExit left slot status).queues.process other = m.queues.process other ∧
          (m.point other = .processWait place number current ∨ m.currentPid other = current) := by
    intro task other left slot place status number current isReady samePoint sameProcess woken live stands
    obtain ⟨_, _, _, _, _, isFinished, moreWoken⟩ := processFinishExit_frame left slot status
    rw [isFinished] at live stands ⊢
    exact ⟨exited isReady ((woken.trans moreWoken).tasks.mem_iff.mp live),
      congrFun (moreWoken.process.trans sameProcess) other, .inl (samePoint ▸ stands)⟩
  have created : ∀ {other : Nat} {place : ProcessSlot} {number current : Int},
      update m.point m.nextTask .running other = .processWait place number current →
      other ≠ m.nextTask := by
    rintro other place number current stands rfl
    rw [update_self] at stands
    cases stands
  apply callers.of_same populated later
  case waits =>
    intro other live place number current stands
    cases turn with
    | launch | thread =>
      have different := created stands
      exact ⟨(List.mem_cons.mp live).resolve_left different, update_of_ne different ..,
        .inl (setPoint_wait (by simp) stands)⟩
    | exec isReady isOf alone =>
      rename_i task slot
      obtain ⟨destroyed, isReplaced⟩ := replaced_eq m task slot
      rw [isReplaced] at live stands ⊢
      exact ⟨live, rfl, .inl stands⟩
    | leave isReady | mainLeaves isReady => exact ⟨exited isReady live, rfl, .inl stands⟩
    | mainFinishes isReady => exact finished isReady rfl rfl (.refl _) live stands
    | threadLeaves isReady => exact ⟨exited isReady (TaskQueues.tasks_wakeWhere.mem_iff.mp live), rfl, .inl stands⟩
    | threadFinishes isReady =>
      exact finished isReady rfl rfl (TaskQueues.woken_wakeWhere ..) live stands
    | block isReady reason =>
      rename_i task channel point
      refine ⟨(TaskQueues.tasks_block isReady channel).mem_iff.mp live, rfl, ?_⟩
      by_cases isTask : other = task
      · subst isTask
        have isPoint : point = .processWait place number current :=
          (update_self ..).symm.trans stands
        subst isPoint
        cases reason with
        | wait _ _ isCurrent => exact isCurrent.symm
      · exact .inl ((update_of_ne isTask ..).symm.trans stands)
    | shellMark =>
      exact ⟨TaskQueues.tasks_wakeWhere.mem_iff.mp live, rfl, .inl (setPoint_wait (by simp) stands)⟩
    | still | wasted | stillborn | release | detach => exact ⟨live, rfl, .inl stands⟩
    | goOn | reap | shellTest | shellMissed | shellFound =>
      exact ⟨live, rfl, .inl (setPoint_wait (by simp) stands)⟩
    | wake | requestKill | kill =>
      exact ⟨TaskQueues.tasks_wakeWhere.mem_iff.mp live, rfl, .inl stands⟩
  case pids =>
    intro place running still
    have notUnused : ∀ {slot : ProcessSlot}, (m.processes slot).state = .unused → place ≠ slot := by
      rintro slot unused rfl
      rw [unused] at running
      cases running
    have notZombie : ∀ {slot : ProcessSlot}, (m.processes slot).state = .zombie → place ≠ slot := by
      rintro slot zombie rfl
      rw [zombie] at running
      cases running
    cases turn with
    | stillborn nextPid isReady allocated =>
      have different := notUnused allocated.unused
      rw [Life.stillborn, destroySpace_processes, Life.release_of_ne _ different]
      exact congrArg Process.pid (claimed_of_ne _ _ allocated different)
    | launch nextPid isReady allocated =>
      exact congrArg Process.pid (launched_of_ne _ _ allocated (notUnused allocated.unused))
    | thread => exact (sameKin_threadAdded ..).pid place
    | exec =>
      exact ((sameKin_destroySpace ..).pid place).trans ((sameKin_swapped m _ _).pid place)
    | mainLeaves => exact (sameKin_mainLeft ..).pid place
    | mainFinishes =>
      exact (processFinishExit_running still).2.trans ((sameKin_mainLeftLast ..).pid place)
    | threadLeaves => exact (sameKin_threadLeft ..).pid place
    | threadFinishes =>
      exact (processFinishExit_running still).2.trans ((sameKin_threadLeft ..).pid place)
    | reap isReady zombie =>
      exact congrArg Process.pid (update_of_ne (notZombie zombie) ..)
    | release found zombie =>
      exact congrArg Process.pid (Life.release_of_ne m (notZombie zombie))
    | detach => exact (sameKin_detach ..).pid place
    | still | goOn | wasted | leave | block | wake | requestKill | kill | shellTest | shellMissed
    | shellFound | shellMark => rfl

structure Orderly (m : Life) : Prop where
  populated : Populated m none
  related : Related m
  callers : Callers m

theorem Orderly.turn (orderly : Orderly m) {event : Event} (turn : Turn m event after) :
    Orderly after where
  populated := orderly.populated.turn turn
  related := orderly.related.turn orderly.callers orderly.populated turn
  callers := orderly.callers.turn orderly.populated turn

theorem orderly_lifeStart : Orderly lifeStart := by
  have unused : ∀ slot, ¬ InUse lifeStart.processes slot := fun slot used => used rfl
  refine ⟨populated_lifeStart, ?_, fun _ _ _ _ _ stands => nomatch stands⟩
  constructor
  case distinct | serials => exact fun slot _ used => absurd used (unused slot)
  case positive | parent | old | kept => exact fun slot used => absurd used (unused slot)
  case releasedUsed => exact List.not_mem_nil
  case releasedOld | reapedReleased | reapedRight => exact fun _ listed => nomatch listed
  case releasedOnce | reapedOnce => exact .nil

theorem lifeAfter_orderly (events : List Event) : Orderly (lifeAfter events) :=
  run_invariant Orderly (fun m event orderly => orderly.turn (lifeStep_turn m event))
    orderly_lifeStart events

/-- Every status is returned at most once, to the parent, by a call that asked for it; no
process is released twice; and the parent of a zombie, if it has one, is running. -/
theorem lifeAfter_reaping (events : List Event) :
    ((lifeAfter events).history.reaped.map Reap.serial).Nodup ∧
      (∀ entry ∈ (lifeAfter events).history.reaped, entry.caller = entry.parentPid ∧
        (∀ pid, entry.asked = some pid → entry.pid = pid) ∧
          (entry.serial, entry.status) ∈ (lifeAfter events).history.finished) ∧
      none ∉ (lifeAfter events).history.released ∧ (lifeAfter events).history.released.Nodup ∧
      NumbersDistinct (lifeAfter events).processes ∧
      ∀ slot, ((lifeAfter events).processes slot).state = .zombie →
        ((lifeAfter events).processes slot).parentPid = 0 ∨
          ∃ other, ((lifeAfter events).processes other).state = .running ∧
            ((lifeAfter events).processes other).pid =
              ((lifeAfter events).processes slot).parentPid := by
  have related := (lifeAfter_orderly events).related
  refine ⟨related.reapedOnce, related.reapedRight, related.releasedUsed, related.releasedOnce,
    related.distinct, fun slot zombie => ?_⟩
  exact related.parent slot (inUse_of_zombie zombie)

end MiniOS.Lifecycle
