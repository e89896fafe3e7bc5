import MiniOS.LifecycleFamilies

/-!
# Nobody waits in vain

A task that is blocked in `process_wait`, `process_waitpid` or `process_thread_join` has
something to wait for.  When a process ends or a thread leaves, this fails for the tasks
on a few channels, and these channels are woken before the operation is over.
-/

namespace MiniOS.Lifecycle

open Function Paging Machine
open Kernel

variable {m after : Life} {slot other : ProcessSlot} {task : Nat} {channel : Channel}
  {pending later : Channel → Prop}

def Placed (m : Life) (task : Nat) (channel : Channel) : Point → Prop
  | .processWait slot _ _ => channel = .process slot
  | .processWaitpid _ => ∃ own, m.queues.process task = some own ∧ channel = .waitpidEvent own
  | .processThreadJoin => ∃ own, m.queues.process task = some own ∧ channel = .threadCount own
  | _ => True

def Justified (m : Life) (task : Nat) : Point → Prop
  | .processWait slot pid _ => (m.processes slot).state = .running ∧ (m.processes slot).pid = pid
  | .processWaitpid pid => ∃ own, m.queues.process task = some own ∧
      (∃ child, isChild m (m.processes own).pid pid child = true ∧
        (m.processes child).state = .running) ∧
      ∀ child, isChild m (m.processes own).pid pid child = true →
        (m.processes child).state ≠ .zombie
  | .processThreadJoin => ∃ own, m.queues.process task = some own ∧
      0 < (m.processes own).threadCount
  | _ => True

/-- Every blocked task has something to wait for, or is about to be woken. -/
def Waiting (m : Life) (pending : Channel → Prop) : Prop :=
  ∀ task channel, (task, channel) ∈ m.queues.blocked →
    Placed m task channel (m.point task) ∧ (pending channel ∨ Justified m task (m.point task))

/-- The blocked tasks are the same or fewer, and each stands where it stood. -/
structure SameBlocked (m after : Life) : Prop where
  blocked : ∀ entry ∈ after.queues.blocked, entry ∈ m.queues.blocked
  process : ∀ task channel, (task, channel) ∈ after.queues.blocked →
    after.queues.process task = m.queues.process task
  point : ∀ task channel, (task, channel) ∈ after.queues.blocked → after.point task = m.point task

variable {point : Point} {leaving : Option ProcessSlot}

theorem Placed.congr (same : after.queues.process task = m.queues.process task) :
    Placed m task channel point → Placed after task channel point := by
  cases point with
  | processWaitpid | processThreadJoin =>
    rintro ⟨own, isOf, isChannel⟩
    exact ⟨own, same.trans isOf, isChannel⟩
  | _ => exact id

theorem Justified.congr (processes : after.processes = m.processes)
    (same : after.queues.process task = m.queues.process task) :
    Justified m task point → Justified after task point := by
  have children : isChild after = isChild m := by
    funext current pid slot
    rw [isChild, isChild, processes]
  cases point with
  | processWait | processWaitpid | processThreadJoin =>
    simp only [Justified, processes, same, children]
    exact id
  | _ => exact id

/-- What has to be shown of a step that blocks nobody. -/
theorem Waiting.of_sameBlocked (waiting : Waiting m pending) (same : SameBlocked m after)
    (stays : ∀ task channel, (task, channel) ∈ after.queues.blocked → pending channel →
      later channel)
    (justified : ∀ task channel, (task, channel) ∈ after.queues.blocked →
      Placed m task channel (m.point task) → Justified m task (m.point task) →
        later channel ∨ Justified after task (m.point task)) : Waiting after later := by
  intro task channel isBlocked
  obtain ⟨placed, reason⟩ := waiting task channel (same.blocked _ isBlocked)
  rw [same.point task channel isBlocked]
  refine ⟨placed.congr (same.process task channel isBlocked), ?_⟩
  rcases reason with isPending | isJustified
  · exact .inl (stays task channel isBlocked isPending)
  · exact justified task channel isBlocked placed isJustified

/-- A process under the same number and with the same parent. -/
abbrev SameFamily (record old : Process) : Prop :=
  record.pid = old.pid ∧ record.parentPid = old.parentPid

/-- Running processes go on running in their families, and there are no new zombies. -/
structure FamiliesKept (m after : Life) : Prop where
  running : ∀ slot, (m.processes slot).state = .running →
    (after.processes slot).state = .running ∧ SameFamily (after.processes slot) (m.processes slot)
  zombie : ∀ slot, (after.processes slot).state = .zombie →
    (m.processes slot).state = .zombie ∧ SameFamily (after.processes slot) (m.processes slot)

/-- The threads that are waited for are also still there. -/
structure Kept (m after : Life) : Prop extends FamiliesKept m after where
  threads : ∀ slot, (m.processes slot).state = .running → 0 < (m.processes slot).threadCount →
    0 < (after.processes slot).threadCount

/-- The child is looked for by its number and its parent. -/
theorem isChild_congr {current pid : Int} (used : InUse after.processes slot)
    (wasUsed : InUse m.processes slot)
    (family : SameFamily (after.processes slot) (m.processes slot)) :
    isChild after current pid slot = true ↔ isChild m current pid slot = true := by
  rw [isChild_eq_true, isChild_eq_true, family.1, family.2]
  simp only [used, wasUsed, true_and]

theorem Justified.of_familiesKept (justified : Justified m task point)
    (kept : FamiliesKept m after) (same : after.queues.process task = m.queues.process task)
    (ownRunning : ∀ own, m.queues.process task = some own → (m.processes own).state = .running)
    (threads : point = .processThreadJoin → ∀ own, m.queues.process task = some own →
      0 < (m.processes own).threadCount → 0 < (after.processes own).threadCount) :
    Justified after task point := by
  cases point with
  | processWait slot pid current =>
    obtain ⟨running, isPid⟩ := justified
    obtain ⟨still, samePid, _⟩ := kept.running slot running
    exact ⟨still, samePid.trans isPid⟩
  | processWaitpid pid =>
    obtain ⟨own, isOf, ⟨child, isIts, running⟩, noZombie⟩ := justified
    have ownPid := (kept.running own (ownRunning own isOf)).2.1
    obtain ⟨still, family⟩ := kept.running child running
    refine ⟨own, same.trans isOf, ⟨child, ?_, still⟩, ?_⟩
    · rw [ownPid]
      exact (isChild_congr (inUse_of_running still) (inUse_of_running running) family).mpr isIts
    · intro other otherIts zombie
      obtain ⟨wasZombie, family⟩ := kept.zombie other zombie
      rw [ownPid] at otherIts
      refine noZombie other ?_ wasZombie
      exact (isChild_congr (inUse_of_zombie zombie) (inUse_of_zombie wasZombie) family).mp otherIts
  | processThreadJoin =>
    obtain ⟨own, isOf, hasThreads⟩ := justified
    exact ⟨own, same.trans isOf, threads rfl own isOf hasThreads⟩
  | _ => trivial

def OwnersRun (m : Life) : Prop :=
  ∀ task channel, (task, channel) ∈ m.queues.blocked → ∀ own, m.queues.process task = some own →
    (m.processes own).state = .running

theorem Populated.ownersRun (populated : Populated m leaving) : OwnersRun m := by
  intro task channel isBlocked own isOf
  exact (populated.member task (TaskQueues.mem_tasks.mpr (.inr ⟨channel, isBlocked⟩)) own isOf).running

/-- No task of the leaving process is blocked. -/
theorem Populated.empty_blocked (populated : Populated m leaving)
    (isLeaving : leaving = some slot) : ∀ task channel, (task, channel) ∈ m.queues.blocked →
      m.queues.process task ≠ some slot :=
  fun task channel isBlocked => populated.empty slot isLeaving task
    (TaskQueues.mem_tasks.mpr (.inr ⟨channel, isBlocked⟩))

theorem Waiting.of_kept (waiting : Waiting m pending) (ownersRun : OwnersRun m) (kept : Kept m after)
    (same : SameBlocked m after) : Waiting after pending := by
  refine waiting.of_sameBlocked same (fun _ _ _ => id) ?_
  intro task channel isBlocked _ justified
  have ownRunning := ownersRun task channel (same.blocked _ isBlocked)
  refine .inr (justified.of_familiesKept kept.toFamiliesKept (same.process task channel isBlocked)
    ownRunning ?_)
  exact fun _ own isOf => kept.threads own (ownRunning own isOf)

section Replaced

variable {record : Process} (m : Life) (slot : ProcessSlot)
  (processes : after.processes = update m.processes slot record)
  (state : record.state = (m.processes slot).state) (family : SameFamily record (m.processes slot))

include processes state family

/-- A record is replaced by one of the same family. -/
theorem familiesKept_update : FamiliesKept m after := by
  have same : ∀ place, (after.processes place).state = (m.processes place).state ∧
      SameFamily (after.processes place) (m.processes place) := by
    intro place
    by_cases isSlot : place = slot
    · rw [isSlot, processes, update_self]
      exact ⟨state, family⟩
    · rw [processes, update_of_ne isSlot]
      exact ⟨rfl, rfl, rfl⟩
  exact ⟨fun place running => ⟨(same place).1.trans running, (same place).2⟩,
    fun place zombie => ⟨(same place).1.symm.trans zombie, (same place).2⟩⟩

theorem kept_update (threads : 0 < (m.processes slot).threadCount → 0 < record.threadCount) :
    Kept m after := by
  refine ⟨familiesKept_update m slot processes state family, ?_⟩
  intro place _ hasThreads
  by_cases isSlot : place = slot
  · rw [isSlot] at hasThreads
    rw [isSlot, processes, update_self]
    exact threads hasThreads
  · rw [processes, update_of_ne isSlot]
    exact hasThreads

end Replaced

theorem kept_of_eq (processes : after.processes = m.processes) : Kept m after :=
  kept_update m 0 (processes.trans (update_eq_self 0 _).symm) rfl ⟨rfl, rfl⟩ id

/-- Only one slot is touched, in which no process was running and there is no zombie. -/
theorem kept_of_stopped (slot : ProcessSlot) (stopped : (m.processes slot).state ≠ .running)
    (notZombie : (after.processes slot).state ≠ .zombie)
    (others : ∀ place, place ≠ slot → after.processes place = m.processes place) : Kept m after := by
  have different : ∀ place, (m.processes place).state = .running → place ≠ slot :=
    fun place running isSlot => stopped (isSlot ▸ running)
  refine ⟨⟨?_, ?_⟩, ?_⟩
  · intro place running
    rw [others place (different place running)]
    exact ⟨running, rfl, rfl⟩
  · intro place zombie
    have notSlot : place ≠ slot := fun isSlot => notZombie (isSlot ▸ zombie)
    rw [others place notSlot] at zombie ⊢
    exact ⟨zombie, rfl, rfl⟩
  · intro place running hasThreads
    rw [others place (different place running)]
    exact hasThreads

theorem kept_release (zombie : (m.processes slot).state = .zombie) : Kept m (m.release slot) := by
  refine kept_of_stopped slot ?_ ?_ fun place different => Life.release_of_ne m different
  · rw [zombie]
    decide
  · rw [Life.release_self]
    decide

theorem sameBlocked_of_subset (blocked : after.queues.blocked ⊆ m.queues.blocked)
    (process : after.queues.process = m.queues.process) (point : after.point = m.point) :
    SameBlocked m after where
  blocked _ isBlocked := blocked isBlocked
  process _ _ _ := congrFun process _
  point _ _ _ := congrFun point _

theorem Populated.ne_of_blocked (populated : Populated m leaving)
    {other : Nat} (isReady : task ∈ m.queues.ready) (isBlocked : (other, channel) ∈ m.queues.blocked) :
    other ≠ task := by
  rintro rfl
  refine (List.nodup_append.mp populated.distinct).2.2 other isReady other ?_ rfl
  exact List.mem_map_of_mem (f := Prod.fst) isBlocked

theorem Populated.sameBlocked_goOn (populated : Populated m none) (isReady : task ∈ m.queues.ready)
    (blocked : after.queues.blocked ⊆ m.queues.blocked)
    (process : after.queues.process = m.queues.process)
    (points : after.point = update m.point task point) : SameBlocked m after where
  blocked _ isBlocked := blocked isBlocked
  process _ _ _ := congrFun process _
  point other channel isBlocked := by
    rw [points, update_of_ne (populated.ne_of_blocked isReady (blocked isBlocked))]

theorem Populated.new_of_blocked (populated : Populated m none)
    (isBlocked : (task, channel) ∈ m.queues.blocked) : task ≠ m.nextTask :=
  populated.old (TaskQueues.mem_tasks.mpr (.inr ⟨channel, isBlocked⟩))

theorem Populated.sameBlocked_created (populated : Populated m none) {process : Option ProcessSlot}
    (blocked : after.queues.blocked = m.queues.blocked)
    (processes : after.queues.process = update m.queues.process m.nextTask process)
    (points : after.point = update m.point m.nextTask point) : SameBlocked m after := by
  constructor
  · exact fun entry isBlocked => blocked ▸ isBlocked
  · intro task channel isBlocked
    rw [processes, update_of_ne (populated.new_of_blocked (blocked ▸ isBlocked))]
  · intro task channel isBlocked
    rw [points, update_of_ne (populated.new_of_blocked (blocked ▸ isBlocked))]

theorem Waiting.wakeAll (waiting : Waiting m pending) (channel : Channel)
    (stays : ∀ other, pending other → other = channel ∨ later other) :
    Waiting (m.wakeAll channel) later := by
  refine waiting.of_sameBlocked (sameBlocked_of_subset (TaskQueues.woken_wakeWhere ..).blocked rfl rfl) ?_ ?_
  · intro task other isBlocked isPending
    refine (stays other isPending).resolve_left fun isChannel => ?_
    have selected := (TaskQueues.mem_blocked_wakeWhere.mp isBlocked).2
    exact of_decide_eq_false selected isChannel
  · exact fun _ _ _ _ justified => .inr (justified.congr rfl rfl)

/-- The channels on which somebody has to be told about the end of the process. -/
def Bereft (m : Life) (slot : ProcessSlot) (channel : Channel) : Prop :=
  channel = .process slot ∨ ∃ own, channel = .waitpidEvent own ∧ InUse m.processes own ∧
    (m.processes own).pid = (m.processes slot).parentPid

theorem died_running (status : Int) (different : other ≠ slot)
    (running : (m.processes other).state = .running) :
    ((m.died slot status).processes other).state = .running ∧
      ((m.died slot status).processes other).pid = (m.processes other).pid ∧
        ((m.processes other).parentPid ≠ (m.processes slot).pid →
          ((m.died slot status).processes other).parentPid = (m.processes other).parentPid) ∧
        ((m.died slot status).processes other).threadCount = (m.processes other).threadCount := by
  rw [died_of_ne m different]
  exact leaveChildren_running _ running

variable {status : Int}

theorem died_zombie (different : other ≠ slot)
    (zombie : ((m.died slot status).processes other).state = .zombie) :
    (m.processes other).state = .zombie ∧
      SameFamily ((m.died slot status).processes other) (m.processes other) := by
  rw [died_of_ne m different] at zombie ⊢
  rcases leaveChildren_cases m (m.processes slot).pid other with
    ⟨same, _⟩ | ⟨_, _, isZero⟩ | ⟨running, _, changed⟩
  · rw [same] at zombie ⊢
    exact ⟨zombie, rfl, rfl⟩
  · rw [isZero] at zombie
    cases zombie
  · rw [changed] at zombie
    rw [running] at zombie
    cases zombie

theorem died_parentPid (running : (m.processes slot).state = .running)
    (notOwn : (m.processes slot).parentPid ≠ (m.processes slot).pid) :
    ((m.died slot status).processes slot).parentPid = (m.processes slot).parentPid := by
  rw [Life.died, becomeZombie_self, destroySpace_processes]
  exact (leaveChildren_running _ running).2.2.1 notOwn

/-- The parent and all who wait for the process are told. -/
theorem Waiting.told (waiting : Waiting m (Bereft m slot)) (related : Related m) :
    Waiting (m.told slot) fun _ => False := by
  have notified : Waiting (notifyParent m (m.processes slot).parentPid) (· = .process slot) := by
    obtain ⟨queues, isNotified, woken⟩ := notifyParent_eq m (m.processes slot).parentPid
    have same : SameBlocked m (notifyParent m (m.processes slot).parentPid) := by
      rw [isNotified]
      exact sameBlocked_of_subset woken.blocked woken.process rfl
    refine waiting.of_sameBlocked same ?_ ?_
    · rintro task channel isBlocked (isProcess | ⟨own, isChannel, used, isParent⟩)
      · exact isProcess
      · -- the parent is found under its number, and its waiters have been woken
        have positive := related.positive own used
        have found := related.distinct.processFind used
        rw [isParent] at positive found
        rw [notifyParent, if_pos (by omega), found] at isBlocked
        exact absurd isChannel (of_decide_eq_false (TaskQueues.mem_blocked_wakeWhere.mp isBlocked).2)
    · intro task channel isBlocked _ justified
      refine .inr (justified.congr ?_ (same.process task channel isBlocked))
      rw [isNotified]
  exact notified.wakeAll (.process slot) fun other isProcess => .inl isProcess

section Death

variable (waiting : Waiting m fun _ => False) (related : Related m) (ownersRun : OwnersRun m)
  (running : (m.processes slot).state = .running)
  (empty : ∀ task channel, (task, channel) ∈ m.queues.blocked → m.queues.process task ≠ some slot)

include waiting related ownersRun running empty

/-- Of the tasks that wait, only those for the process itself and for a child of its parent
have to be told. -/
theorem Waiting.died (status : Int) :
    Waiting (m.died slot status) (Bereft (m.died slot status) slot) := by
  have same := died_tasks m slot status
  refine waiting.of_sameBlocked
    (sameBlocked_of_subset (by rw [same.1]; exact fun _ => id) (by rw [same.1]) same.2)
    (fun _ _ _ => False.elim) ?_
  rw [same.1]
  intro task channel isBlocked placed justified
  have notSlot : ∀ own, m.queues.process task = some own → own ≠ slot :=
    fun own isOf isSlot => empty task channel isBlocked (isSlot ▸ isOf)
  generalize m.point task = point at placed justified ⊢
  cases point with
  | processWait place pid current =>
    by_cases isSlot : place = slot
    · exact .inl (.inl (isSlot ▸ placed))
    · obtain ⟨still, samePid, _⟩ := died_running status isSlot justified.1
      exact .inr ⟨still, samePid.trans justified.2⟩
  | processWaitpid pid =>
    obtain ⟨own, isOf, ⟨child, isIts, childRunning⟩, noZombie⟩ := justified
    obtain ⟨place, isPlace, isChannel⟩ := placed
    rw [isOf, Option.some.injEq] at isPlace
    subst isPlace
    have different := notSlot own isOf
    have ownRunning := ownersRun task channel isBlocked own isOf
    have ownDied := died_running status different ownRunning
    have pids : (m.processes own).pid ≠ (m.processes slot).pid := fun samePid =>
      different (related.distinct own slot (inUse_of_running ownRunning)
        (inUse_of_running running) samePid)
    by_cases isBereft : ((m.died slot status).processes own).pid =
        ((m.died slot status).processes slot).parentPid
    · exact .inl (.inr ⟨own, isChannel, inUse_of_running ownDied.1, isBereft⟩)
    · have notParent : (m.processes slot).parentPid ≠ (m.processes own).pid := by
        intro isParent
        refine isBereft ?_
        rw [ownDied.2.1, died_parentPid running (isParent ▸ pids), isParent]
      have isParent : ∀ {place}, isChild m (m.processes own).pid pid place = true →
          (m.processes place).parentPid = (m.processes own).pid :=
        fun isIts => (isChild_eq_true.mp isIts).2.1
      have childNe : child ≠ slot := fun isSlot => notParent (isParent (isSlot ▸ isIts))
      have childDied := died_running status childNe childRunning
      have sameParent := childDied.2.2.1 ((isParent isIts).symm ▸ pids)
      right
      refine ⟨own, ?_, ⟨child, ?_, childDied.1⟩, ?_⟩
      · rw [same.1, isOf]
      · rw [ownDied.2.1]
        exact (isChild_congr (inUse_of_running childDied.1) (inUse_of_running childRunning)
          ⟨childDied.2.1, sameParent⟩).mpr isIts
      · intro place placeIts zombie
        by_cases isSlot : place = slot
        · exact isBereft (isSlot ▸ (isChild_eq_true.mp placeIts).2.1).symm
        · obtain ⟨wasZombie, family⟩ := died_zombie isSlot zombie
          rw [ownDied.2.1] at placeIts
          refine noZombie place ?_ wasZombie
          exact (isChild_congr (inUse_of_zombie zombie) (inUse_of_zombie wasZombie) family).mp
            placeIts
  | processThreadJoin =>
    obtain ⟨own, isOf, hasThreads⟩ := justified
    have ownDied := died_running status (notSlot own isOf)
      (ownersRun task channel isBlocked own isOf)
    refine .inr ⟨own, ?_, ?_⟩
    · rw [same.1, isOf]
    · rw [ownDied.2.2.2]
      exact hasThreads
  | _ => exact .inr trivial

theorem waiting_processFinishExit (status : Int) :
    Waiting (processFinishExit m slot status) fun _ => False := by
  have told := (waiting.died related ownersRun running empty status).told (related.died running status)
  obtain ⟨queues, isTold, woken⟩ := told_eq (m.died slot status) slot
  rw [(died_tasks m slot status).1] at woken
  have stillRun : OwnersRun ((m.died slot status).told slot) := by
    rw [isTold]
    intro task channel isBlocked own isOf
    have wasBlocked := woken.blocked _ isBlocked
    change queues.process task = some own at isOf
    rw [woken.process] at isOf
    have different : own ≠ slot := fun isSlot => empty task channel wasBlocked (isSlot ▸ isOf)
    exact (died_running status different (ownersRun task channel wasBlocked own isOf)).1
  have zombie : (((m.died slot status).told slot).processes slot).state = .zombie := by
    rw [isTold]
    exact died_self m slot status
  rw [processFinishExit_eq]
  split
  · exact told.of_kept stillRun (kept_release zombie) ⟨fun _ => id, fun _ _ _ => rfl, fun _ _ _ => rfl⟩
  · exact told

end Death

/-- A thread leaves, and those who wait for the threads are told. -/
theorem Waiting.threadLeft (waiting : Waiting m fun _ => False) (ownersRun : OwnersRun m)
    (task : Nat) (slot : ProcessSlot) :
    Waiting ((m.threadLeft task slot).wakeAll (.threadCount slot)) fun _ => False := by
  have left : Waiting (m.threadLeft task slot) (· = .threadCount slot) := by
    have kept : FamiliesKept m (m.threadLeft task slot) := familiesKept_update m slot rfl rfl ⟨rfl, rfl⟩
    refine waiting.of_sameBlocked ⟨fun _ => id, fun _ _ _ => rfl, fun _ _ _ => rfl⟩
      (fun _ _ _ => False.elim) ?_
    intro other channel isBlocked placed justified
    by_cases isPending : channel = .threadCount slot
    · exact .inl isPending
    · refine .inr (justified.of_familiesKept kept rfl (ownersRun other channel isBlocked) ?_)
      intro isJoin own isOf hasThreads
      rw [isJoin] at placed
      obtain ⟨place, isPlace, isChannel⟩ := placed
      rw [isOf, Option.some.injEq] at isPlace
      have different : own ≠ slot := by
        rintro rfl
        exact isPending (isPlace ▸ isChannel)
      rw [Life.threadLeft, Life.leave]
      dsimp only
      rwa [update_of_ne different]
  exact left.wakeAll (.threadCount slot) fun _ isPending => .inl isPending

theorem Waiting.block (waiting : Waiting m pending) (populated : Populated m none)
    (isReady : task ∈ m.queues.ready) (reason : Reason m task channel point) :
    Waiting (m.block task channel point) pending := by
  intro other place isBlocked
  rcases List.mem_append.mp isBlocked with wasBlocked | isNew
  · have samePoint : (m.block task channel point).point other = m.point other :=
      update_of_ne (populated.ne_of_blocked isReady wasBlocked) ..
    obtain ⟨placed, justified⟩ := waiting other place wasBlocked
    rw [samePoint]
    exact ⟨placed.congr rfl, justified.imp_right (Justified.congr rfl rfl)⟩
  · rw [List.mem_singleton, Prod.mk.injEq] at isNew
    obtain ⟨rfl, rfl⟩ := isNew
    have isPoint : (m.block other place point).point other = point := update_self ..
    rw [isPoint]
    cases reason with
    | wait running isPid => exact ⟨rfl, .inr ⟨running, isPid⟩⟩
    | waitpid isOf noZombie hasChild =>
      obtain ⟨child, isIts⟩ := hasChild
      refine ⟨⟨_, isOf, rfl⟩, .inr ⟨_, isOf, ⟨child, isIts, ?_⟩, noZombie⟩⟩
      cases isState : (m.processes child).state with
      | unused => exact absurd isState (isChild_eq_true.mp isIts).1
      | running => exact isState
      | zombie => exact absurd isState (noZombie child isIts)
    | join isOf hasThreads => exact ⟨⟨_, isOf, rfl⟩, .inr ⟨_, isOf, hasThreads⟩⟩
    | sleep => exact ⟨trivial, .inr trivial⟩

/-- The condition on `process_detach`: it is called for children of the shell only. -/
def DetachesOrphan (m : Life) : Event → Prop
  | .detach pid => ∀ slot, processFind m.processes pid = some slot →
      (m.processes slot).parentPid = 0
  | _ => True

theorem Waiting.turn (waiting : Waiting m fun _ => False) (orderly : Orderly m) {event : Event}
    (allowed : DetachesOrphan m event) (turn : Turn m event after) :
    Waiting after fun _ => False := by
  have populated := orderly.populated
  have ownersRun := populated.ownersRun
  have live : ∀ {task : Nat}, task ∈ m.queues.ready → task ∈ m.queues.tasks :=
    TaskQueues.mem_tasks_of_ready
  have all : m.queues.blocked ⊆ m.queues.blocked := fun _ => id
  have stays : ∀ {after}, Kept m after → SameBlocked m after → Waiting after fun _ => False :=
    waiting.of_kept ownersRun
  cases turn with
  | still => exact waiting
  | goOn isReady | shellTest isReady | shellMissed isReady | shellFound isReady =>
    exact stays (kept_of_eq rfl) (populated.sameBlocked_goOn isReady all rfl rfl)
  | wasted | leave => exact stays (kept_of_eq rfl) (sameBlocked_of_subset all rfl rfl)
  | stillborn nextPid isReady allocated =>
    rename_i task slot processes pid
    refine stays (kept_of_stopped slot ?_ ?_ ?_) (sameBlocked_of_subset all rfl rfl)
    · rw [allocated.unused]
      decide
    · rw [Life.stillborn, destroySpace_processes, Life.release_self]
      decide
    · intro place different
      rw [Life.stillborn, destroySpace_processes, Life.release_of_ne _ different]
      exact claimed_of_ne _ _ allocated different
  | launch nextPid isReady allocated =>
    rename_i task slot processes pid
    refine stays (kept_of_stopped slot ?_ ?_ ?_)
      (populated.sameBlocked_created rfl rfl rfl)
    · rw [allocated.unused]
      decide
    · have running := (entered_launched (m := { m with nextSpace := m.nextSpace + 1 }) nextPid
        m.nextSpace allocated).running
      rw [running]
      decide
    · exact fun place different => launched_of_ne _ _ allocated different
  | thread isReady isOf =>
    exact stays (kept_update m _ rfl rfl ⟨rfl, rfl⟩ fun _ => Nat.succ_pos _)
      (populated.sameBlocked_created rfl rfl rfl)
  | exec isReady isOf alone =>
    rename_i task slot
    obtain ⟨destroyed, isReplaced⟩ := replaced_eq m task slot
    rw [isReplaced]
    exact stays (kept_update m slot rfl rfl ⟨rfl, rfl⟩ id) (sameBlocked_of_subset all rfl rfl)
  | mainLeaves =>
    exact stays (kept_update m _ rfl rfl ⟨rfl, rfl⟩ id) (sameBlocked_of_subset all rfl rfl)
  | mainFinishes isReady isOf isMain noThreads status =>
    rename_i task slot
    have left := populated.leave_main isReady isOf isMain noThreads status
    have waits : Waiting (m.mainLeftLast task slot status) fun _ => False :=
      stays (kept_update m slot rfl rfl ⟨rfl, rfl⟩ id) (sameBlocked_of_subset all rfl rfl)
    refine waiting_processFinishExit waits
      (orderly.related.of_sameKin (sameKin_mainLeftLast m task slot status)) left.ownersRun ?_
      (left.empty_blocked rfl) status
    rw [Life.mainLeftLast, Life.leave_self]
    exact (populated.member task (live isReady) slot isOf).running
  | threadLeaves => exact waiting.threadLeft ownersRun _ _
  | threadFinishes isReady isOf isThread isLast =>
    rename_i task slot
    have left := (populated.leave_thread isReady isOf isThread (.inr ⟨rfl, isLast⟩)).of_unmoved
      (unmoved_wakeAll _ (.threadCount slot))
    refine waiting_processFinishExit (waiting.threadLeft ownersRun task slot)
      (orderly.related.of_sameKin (sameKin_threadLeft m task slot)) left.ownersRun ?_
      (left.empty_blocked rfl) _
    rw [Life.wakeAll, threadLeft_self]
    exact (populated.member task (live isReady) slot isOf).running
  | block isReady reason => exact waiting.block populated isReady reason
  | reap isReady zombie isParent isAsked =>
    rename_i task slot asked
    refine stays (kept_of_stopped slot ?_ ?_ ?_)
      (populated.sameBlocked_goOn isReady all rfl rfl)
    · rw [zombie]
      decide
    · have isZero : (reap (m.setPoint task .running) task slot asked).processes slot = .zero :=
        update_self ..
      rw [isZero]
      decide
    · exact fun place different => update_of_ne different ..
  | release found zombie => exact stays (kept_release zombie) (sameBlocked_of_subset all rfl rfl)
  | detach found notZombie =>
    exact stays (kept_update m _ rfl rfl ⟨rfl, (allowed _ found).symm⟩ id)
      (sameBlocked_of_subset all rfl rfl)
  | wake | requestKill | kill =>
    exact stays (kept_of_eq rfl)
      (sameBlocked_of_subset (TaskQueues.woken_wakeWhere ..).blocked rfl rfl)
  | shellMark isReady =>
    exact stays (kept_of_eq rfl)
      (populated.sameBlocked_goOn isReady (TaskQueues.woken_wakeWhere ..).blocked rfl rfl)

variable {events : List Event}

theorem lifeAfter_waiting (admissible : Admissible lifeStep DetachesOrphan lifeStart events) :
    Waiting (lifeAfter events) fun _ => False := by
  have both := run_invariant_of_admissible
    (fun m => Orderly m ∧ Waiting m fun _ => False)
    (fun m event holds allowed => ⟨holds.1.turn (lifeStep_turn m event),
      holds.2.turn holds.1 allowed (lifeStep_turn m event)⟩)
    ⟨orderly_lifeStart, fun _ _ isBlocked => nomatch isBlocked⟩ admissible
  exact both.2

/-- As long as only children of the shell are detached, a task that is blocked in
`process_wait`, `process_waitpid` or `process_thread_join` has something to wait for. -/
theorem lifeAfter_not_stranded (admissible : Admissible lifeStep DetachesOrphan lifeStart events)
    {task : Nat}
    {channel : Channel} (isBlocked : (task, channel) ∈ (lifeAfter events).queues.blocked) :
    (∀ slot pid current, (lifeAfter events).point task = .processWait slot pid current →
        ((lifeAfter events).processes slot).state = .running ∧
          ((lifeAfter events).processes slot).pid = pid) ∧
      (∀ pid, (lifeAfter events).point task = .processWaitpid pid →
        ∃ own, (lifeAfter events).queues.process task = some own ∧
          (∃ child, isChild (lifeAfter events) ((lifeAfter events).processes own).pid pid child = true ∧
            ((lifeAfter events).processes child).state = .running) ∧
          ∀ child, isChild (lifeAfter events) ((lifeAfter events).processes own).pid pid child = true →
            ((lifeAfter events).processes child).state ≠ .zombie) ∧
      ((lifeAfter events).point task = .processThreadJoin →
        ∃ own, (lifeAfter events).queues.process task = some own ∧
          0 < ((lifeAfter events).processes own).threadCount) := by
  have justified := (lifeAfter_waiting admissible task channel isBlocked).2.resolve_left id
  refine ⟨?_, ?_, ?_⟩
  · intro slot pid current stands
    rw [stands] at justified
    exact justified
  · intro pid stands
    rw [stands] at justified
    exact justified
  · intro stands
    rw [stands] at justified
    exact justified

theorem lifeAfter_not_stranded_fork :
    let events : List Event := [.spawn 0 true, .fork 2 true, .waitpid 2 0 false, .detach 1]
    (2, .waitpidEvent 0) ∈ (lifeAfter events).queues.blocked ∧
      (lifeAfter events).point 2 = .processWaitpid 0 ∧
        ∃ own, (lifeAfter events).queues.process 2 = some own ∧
          (∃ child, isChild (lifeAfter events) ((lifeAfter events).processes own).pid 0 child = true ∧
            ((lifeAfter events).processes child).state = .running) ∧
          ∀ child, isChild (lifeAfter events) ((lifeAfter events).processes own).pid 0 child = true →
            ((lifeAfter events).processes child).state ≠ .zombie := by
  intro events
  have isBlocked : (2, .waitpidEvent 0) ∈ (lifeAfter events).queues.blocked := by decide
  have stands : (lifeAfter events).point 2 = .processWaitpid 0 := by decide
  have admissible : Admissible lifeStep DetachesOrphan lifeStart events := by
    refine ⟨trivial, trivial, trivial, ?_, trivial⟩
    intro slot
    revert slot
    decide
  exact ⟨isBlocked, stands, (lifeAfter_not_stranded admissible isBlocked).2.1 0 stands⟩

end MiniOS.Lifecycle
