import MiniOS.Semaphores

/-!
# Wake-ups that reach their task

`sem_post` and the keyboard interrupt wake one waiter for each unit.  The waiter may
be killed before it has taken the unit; nobody is woken in its place then.  As long
as kills leave enough woken waiters for the units there are, no task stays blocked
beside a unit that nobody is about to take.
-/

namespace MiniOS.Semaphores

open Function Machine

variable {Proc : Type*}

def Keyboard.count (k : Keyboard) : Nat :=
  (keyboardBufferSize - k.readIndex + k.writeIndex) % keyboardBufferSize

def SemState.available (m : SemState Proc) : Channel → Nat
  | .semaphore id => (m.semaphores id).value.toNat
  | .keyboardBuffer => m.keyboard.count

/-- The task was woken from the channel, has yet to test its condition again and is
not marked. -/
def SemState.retests (m : SemState Proc) (channel : Channel) (task : Nat) : Bool :=
  decide ((m.point task).channel = some channel) && !m.queues.killPending task

/-- While a unit is there and a task is blocked on it, another task is about to take
one. -/
def NoLostWake (m : SemState Proc) : Prop :=
  ∀ entry ∈ m.queues.blocked, 0 < m.available entry.2 →
    ∃ other ∈ m.queues.ready, other ≠ entry.1 ∧ m.retests entry.2 other = true

instance (m : SemState Proc) : Decidable (NoLostWake m) :=
  inferInstanceAs (Decidable (∀ entry ∈ m.queues.blocked, _))

/-- A kill of the process leaves, for every channel on which another process is
blocked, a woken task of another process for each unit. -/
def Spares [DecidableEq Proc] (m : SemState Proc) (process : Proc) : Prop :=
  ∀ entry ∈ m.queues.blocked, m.queues.process entry.1 ≠ some process →
    m.available entry.2 ≤ m.queues.ready.countP fun task =>
      m.retests entry.2 task && decide (m.queues.process task ≠ some process)

instance [DecidableEq Proc] (m : SemState Proc) (process : Proc) : Decidable (Spares m process) :=
  inferInstanceAs (Decidable (∀ entry ∈ m.queues.blocked, _))

def KillSpares [DecidableEq Proc] (m : SemState Proc) : Event Proc → Prop
  | .requestKill process => Spares m process
  | .ctrlC (.kill process) => Spares (keyPressed m 3) process
  | _ => True

instance [DecidableEq Proc] (m : SemState Proc) (event : Event Proc) : Decidable (KillSpares m event) := by
  unfold KillSpares
  split <;> infer_instance

/-- For every unit beside a blocked task there is a woken one. -/
structure Attended (m : SemState Proc) : Prop where
  distinct : m.queues.tasks.Nodup
  waits : ∀ entry ∈ m.queues.blocked, (m.point entry.1).channel = some entry.2
  unmarked : ∀ entry ∈ m.queues.blocked, m.queues.killPending entry.1 = false
  enough : ∀ entry ∈ m.queues.blocked,
    m.available entry.2 ≤ m.queues.ready.countP (m.retests entry.2)
  indices : m.keyboard.readIndex < keyboardBufferSize ∧ m.keyboard.writeIndex < keyboardBufferSize
  asked : ∀ task count, m.point task = .keyboardRead count → 1 ≤ count

variable {m : SemState Proc} {task : Nat} {channel : Channel} (attended : Attended m)

include attended

theorem Attended.noLostWake : NoLostWake m := by
  intro entry isBlocked positive
  have some := Nat.lt_of_lt_of_le positive (attended.enough entry isBlocked)
  obtain ⟨other, isReady, retests⟩ := List.countP_pos_iff.mp some
  refine ⟨other, isReady, ?_, retests⟩
  rintro rfl
  have apart := (List.nodup_append.mp attended.distinct).2.2
  exact apart _ isReady _ (List.mem_map_of_mem isBlocked) rfl

theorem Attended.ready_distinct : m.queues.ready.Nodup :=
  (List.nodup_append.mp attended.distinct).1

theorem Attended.ne_of_ready (isReady : task ∈ m.queues.ready)
    {entry : Nat × Channel} (isBlocked : entry ∈ m.queues.blocked) : entry.1 ≠ task := by
  rintro rfl
  have apart := (List.nodup_append.mp attended.distinct).2.2
  exact apart _ isReady _ (List.mem_map_of_mem isBlocked) rfl

omit attended in
theorem countP_erase_add {tasks : List Nat} (member : task ∈ tasks) (holds : Nat → Bool) :
    tasks.countP holds = (tasks.erase task).countP holds + if holds task then 1 else 0 := by
  rw [(List.perm_cons_erase member).countP_eq, List.countP_cons]

omit attended in
/-- Counting after the predicate has changed for one element. -/
theorem countP_erase_congr {tasks : List Nat} (distinct : tasks.Nodup) (before after : Nat → Bool)
    (same : ∀ other, other ≠ task → after other = before other) :
    (tasks.erase task).countP after = (tasks.erase task).countP before := by
  refine List.countP_congr fun other member => ?_
  rw [same other (distinct.mem_erase_iff.mp member).1]

theorem Attended.wakeWhere (selects : Nat × Channel → Bool) :
    Attended { m with queues := m.queues.wakeWhere selects } := by
  refine { attended with
    distinct := TaskQueues.tasks_wakeWhere.nodup_iff.mpr attended.distinct
    waits := fun entry isBlocked =>
      attended.waits entry (TaskQueues.mem_blocked_wakeWhere.mp isBlocked).1
    unmarked := fun entry isBlocked =>
      attended.unmarked entry (TaskQueues.mem_blocked_wakeWhere.mp isBlocked).1
    enough := fun entry isBlocked => ?_ }
  refine Nat.le_trans (attended.enough entry (TaskQueues.mem_blocked_wakeWhere.mp isBlocked).1) ?_
  show _ ≤ List.countP _ ((m.queues.blocked.filter selects).map Prod.fst ++ m.queues.ready)
  rw [List.countP_append]
  exact Nat.le_add_left _ _

/-- A unit arrives and one waiter is woken for it. -/
theorem Attended.arrive {m' : SemState Proc} (channel : Channel)
    (queues : m'.queues = m.queues.wakeOne channel) (point : m'.point = m.point)
    (indices : m'.keyboard.readIndex < keyboardBufferSize ∧ m'.keyboard.writeIndex < keyboardBufferSize)
    (here : m'.available channel ≤ m.available channel + 1)
    (elsewhere : ∀ other, other ≠ channel → m'.available other = m.available other) :
    Attended m' := by
  obtain ⟨after, more⟩ : Attended { m with queues := m.queues.wakeOne channel } ∧
      ∀ entry ∈ (m.queues.wakeOne channel).blocked, entry.2 = channel → m.available channel + 1 ≤
        (m.queues.wakeOne channel).ready.countP
          (({ m with queues := m.queues.wakeOne channel } : SemState Proc).retests channel) := by
    rcases TaskQueues.wakeOne_cases m.queues channel with ⟨same, nobody⟩ | ⟨woken, isBlocked, wakes⟩
    · rw [same]
      refine ⟨attended, fun entry isBlocked waits => ?_⟩
      exact absurd (waits ▸ isBlocked) (nobody entry.1)
    · rw [wakes]
      refine ⟨attended.wakeWhere _, fun entry _ _ => ?_⟩
      -- the woken task makes up for the new unit
      have counted : 0 < ((m.queues.blocked.filter fun entry => decide (entry.1 = woken)).map
          Prod.fst).countP (m.retests channel) := by
        refine List.countP_pos_iff.mpr ⟨woken, ?_, ?_⟩
        · exact List.mem_map.mpr ⟨_, List.mem_filter.mpr ⟨isBlocked, decide_eq_true rfl⟩, rfl⟩
        · rw [SemState.retests, attended.waits _ isBlocked, attended.unmarked _ isBlocked]
          simp
      have enough := attended.enough (woken, channel) isBlocked
      show _ ≤ List.countP (m.retests channel)
        ((m.queues.blocked.filter _).map Prod.fst ++ m.queues.ready)
      rw [List.countP_append]
      dsimp only at enough
      omega
  have retests : m'.retests =
      ({ m with queues := m.queues.wakeOne channel } : SemState Proc).retests := by
    funext channel task
    rw [SemState.retests, SemState.retests, queues, point]
  refine ⟨by rw [queues]; exact after.distinct, by rw [queues, point]; exact after.waits,
    by rw [queues]; exact after.unmarked, ?_, indices, by rw [point]; exact attended.asked⟩
  rw [queues, retests]
  intro entry isBlocked
  by_cases same : entry.2 = channel
  · have enough := more entry isBlocked same
    rw [same]
    exact Nat.le_trans here enough
  · rw [elsewhere entry.2 same]
    exact after.enough entry isBlocked

theorem Attended.exit (isReady : task ∈ m.queues.ready)
    (uncounted : ∀ channel, m.retests channel task = false) :
    Attended { m with queues := m.queues.exit task } := by
  refine { attended with
    distinct := attended.distinct.sublist (List.erase_sublist.append_right _)
    enough := fun entry isBlocked => ?_ }
  have counts := countP_erase_add isReady (m.retests entry.2)
  rw [uncounted entry.2] at counts
  have enough := attended.enough entry isBlocked
  rw [counts] at enough
  exact enough

theorem Attended.asked_update {point : Point} (here : ∀ count, point = .keyboardRead count → 1 ≤ count)
    (other count : Nat) (reads : update m.point task point other = .keyboardRead count) :
    1 ≤ count := by
  by_cases same : other = task
  · subst same
    rw [update_self] at reads
    exact here count reads
  · rw [update_of_ne same] at reads
    exact attended.asked other count reads

omit attended in
/-- A task outside of all waits, or at a wait for one channel, is not counted for
another one. -/
theorem retests_elsewhere (from' : (m.point task).channel = none ∨ (m.point task).channel = some channel)
    {other : Channel} (different : other ≠ channel) : m.retests other task = false := by
  rw [SemState.retests]
  rcases from' with none | here
  · rw [none]
    rfl
  · rw [here, decide_eq_false fun same => different (Option.some.inj same).symm]
    rfl

theorem Attended.block {point : Point} (isReady : task ∈ m.queues.ready)
    (waits : point.channel = some channel) (asked : ∀ count, point = .keyboardRead count → 1 ≤ count)
    (from' : (m.point task).channel = none ∨ (m.point task).channel = some channel)
    (nothing : m.available channel = 0) (unmarked : m.queues.killPending task = false) :
    Attended { m with
      queues := m.queues.block task channel, point := update m.point task point } := by
  have others : ∀ entry ∈ m.queues.blocked, update m.point task point entry.1 = m.point entry.1 :=
    fun entry isBlocked => update_of_ne (attended.ne_of_ready isReady isBlocked) _ _
  constructor
  · exact (TaskQueues.tasks_block isReady channel).nodup_iff.mpr attended.distinct
  · intro entry isBlocked
    rcases List.mem_append.mp isBlocked with old | new
    · dsimp only
      rw [others entry old]
      exact attended.waits entry old
    · obtain rfl := List.mem_singleton.mp new
      dsimp only
      rw [update_self]
      exact waits
  · intro entry isBlocked
    rcases List.mem_append.mp isBlocked with old | new
    · exact attended.unmarked entry old
    · obtain rfl := List.mem_singleton.mp new
      exact unmarked
  · intro entry isBlocked
    by_cases same : entry.2 = channel
    · rw [same]
      exact Nat.le_trans (Nat.le_of_eq nothing) (Nat.zero_le _)
    · have old : entry ∈ m.queues.blocked := by
        refine (List.mem_append.mp isBlocked).resolve_right fun new => same ?_
        rw [List.mem_singleton.mp new]
      -- the task was not counted for another channel
      have uncounted : m.retests entry.2 task = false := retests_elsewhere from' same
      have counts := countP_erase_add isReady (m.retests entry.2)
      rw [uncounted] at counts
      have enough := attended.enough entry old
      rw [counts] at enough
      refine Nat.le_trans enough (Nat.le_of_eq ?_)
      refine countP_erase_congr attended.ready_distinct _ _ fun other different => ?_
      rw [SemState.retests, SemState.retests]
      simp only [update_of_ne different]
      rfl
  · exact attended.indices
  · exact attended.asked_update asked

/-- A task takes what it came for; a woken task takes at least one unit. -/
theorem Attended.take {m' : SemState Proc} (isReady : task ∈ m.queues.ready)
    (queues : m'.queues = m.queues)
    (point : m'.point = update m.point task .running)
    (indices : m'.keyboard.readIndex < keyboardBufferSize ∧
      m'.keyboard.writeIndex < keyboardBufferSize)
    (less : ∀ other, m'.available other + (if m.retests other task then 1 else 0) ≤
      m.available other) : Attended m' := by
  have others : ∀ entry ∈ m.queues.blocked, m'.point entry.1 = m.point entry.1 := by
    intro entry isBlocked
    rw [point]
    exact update_of_ne (attended.ne_of_ready isReady isBlocked) _ _
  constructor
  · rw [queues]
    exact attended.distinct
  · rw [queues]
    intro entry isBlocked
    rw [others entry isBlocked]
    exact attended.waits entry isBlocked
  · rw [queues]
    exact attended.unmarked
  · rw [queues]
    intro entry isBlocked
    have enough := attended.enough entry isBlocked
    have counts := countP_erase_add isReady (m.retests entry.2)
    have fewer := less entry.2
    have kept : (m.queues.ready.erase task).countP (m'.retests entry.2) =
        (m.queues.ready.erase task).countP (m.retests entry.2) := by
      refine countP_erase_congr attended.ready_distinct _ _ fun other different => ?_
      rw [SemState.retests, SemState.retests, queues, point, update_of_ne different]
    have counts' := countP_erase_add isReady (m'.retests entry.2)
    omega
  · exact indices
  · rw [point]
    exact attended.asked_update nofun

theorem Attended.requestKill [DecidableEq Proc] {process : Proc}
    (spares : Spares m process) : Attended (requestKill m process) := by
  have after := attended.wakeWhere fun entry => decide (m.queues.process entry.1 = some process)
  have foreign : ∀ entry ∈ (m.queues.killProcess process).blocked,
      entry ∈ m.queues.blocked ∧ m.queues.process entry.1 ≠ some process := by
    intro entry isBlocked
    obtain ⟨old, unselected⟩ := TaskQueues.mem_blocked_wakeWhere.mp isBlocked
    exact ⟨old, of_decide_eq_false unselected⟩
  refine { after with
    unmarked := fun entry isBlocked => ?_
    enough := fun entry isBlocked => ?_ }
  · obtain ⟨old, other⟩ := foreign entry isBlocked
    have unmarked := attended.unmarked entry old
    simp only [Semaphores.requestKill, TaskQueues.killProcess, unmarked, other]
    simp
  · obtain ⟨old, other⟩ := foreign entry isBlocked
    refine Nat.le_trans (spares entry old other) ?_
    show _ ≤ List.countP _ ((m.queues.blocked.filter _).map Prod.fst ++ m.queues.ready)
    rw [List.countP_append]
    refine Nat.le_trans (List.countP_mono_left fun task _ counted => ?_) (Nat.le_add_left _ _)
    rw [Bool.and_eq_true, decide_eq_true_eq] at counted
    obtain ⟨retests, foreign⟩ := counted
    obtain ⟨waits, unmarked⟩ : (m.point task).channel = some entry.2 ∧
        m.queues.killPending task = false := by simpa [SemState.retests] using retests
    have spared : (Semaphores.requestKill m process).queues.killPending task = false := by
      simp [Semaphores.requestKill, TaskQueues.killProcess, unmarked, foreign]
    rw [SemState.retests, spared]
    exact (Bool.and_true _).trans (decide_eq_true waits)

theorem Attended.createTask [DecidableEq Proc] (fresh : task ∉ m.queues.tasks)
    (process : Option Proc) : Attended (semStep m (.createTask task process)) := by
  rw [semStep, if_neg fresh]
  have notReady : task ∉ m.queues.ready := fun isReady => fresh (List.mem_append_left _ isReady)
  have others : ∀ entry ∈ m.queues.blocked, entry.1 ≠ task := by
    rintro entry isBlocked rfl
    exact fresh (List.mem_append_right _ (List.mem_map_of_mem isBlocked))
  constructor
  · exact List.nodup_cons.mpr ⟨fresh, attended.distinct⟩
  · intro entry isBlocked
    simp only [update_of_ne (others entry isBlocked)]
    exact attended.waits entry isBlocked
  · intro entry isBlocked
    simp only [TaskQueues.create, update_of_ne (others entry isBlocked)]
    exact attended.unmarked entry isBlocked
  · intro entry isBlocked
    refine Nat.le_trans (attended.enough entry isBlocked) ?_
    show _ ≤ List.countP _ (task :: m.queues.ready)
    rw [List.countP_cons]
    refine Nat.le_trans (Nat.le_of_eq (List.countP_congr fun other member => ?_))
      (Nat.le_add_right _ _)
    have different : other ≠ task := fun same => notReady (same ▸ member)
    simp only [SemState.retests, TaskQueues.create, update_of_ne different]
  · exact attended.indices
  · exact attended.asked_update (by simp)

omit attended

namespace Keyboard

def Inside (k : Keyboard) : Prop :=
  k.readIndex < keyboardBufferSize ∧ k.writeIndex < keyboardBufferSize

variable {k : Keyboard} (inside : k.Inside)

include inside

theorem count_of_empty (empty : k.empty) : k.count = 0 := by
  obtain ⟨read, write⟩ := inside
  rw [Keyboard.empty] at empty
  rw [count, empty, Nat.sub_add_cancel (Nat.le_of_lt write), Nat.mod_self]

theorem write_inside (c : UInt8) : (k.write c).Inside := by
  unfold write
  dsimp only
  split
  · exact inside
  · exact ⟨inside.1, Nat.mod_lt _ (by decide)⟩

theorem count_write (c : UInt8) : (k.write c).count ≤ k.count + 1 := by
  obtain ⟨read, write⟩ := inside
  unfold Keyboard.write
  dsimp only
  split
  · exact Nat.le_succ _
  · simp only [count, keyboardBufferSize] at *
    omega

theorem takeOne_inside : k.takeOne.Inside :=
  ⟨Nat.mod_lt _ (by decide), inside.2⟩

theorem count_takeOne (some : ¬ k.empty) : k.takeOne.count + 1 = k.count := by
  obtain ⟨read, write⟩ := inside
  simp only [Keyboard.empty, count, takeOne, keyboardBufferSize] at *
  omega

theorem take_inside (count : Nat) : (k.take count).2.Inside := by
  induction count generalizing k with
  | zero => exact inside
  | succ count ih =>
    rw [take]
    split
    · exact inside
    · exact ih (takeOne_inside inside)

theorem count_take (wanted : Nat) : (k.take wanted).2.count ≤ k.count := by
  induction wanted generalizing k with
  | zero => exact Nat.le_refl _
  | succ wanted ih =>
    rw [take]
    split
    · exact Nat.le_refl _
    · case isFalse some =>
      have fewer := ih (takeOne_inside inside)
      have taken := count_takeOne inside some
      dsimp only
      omega

/-- A read that asks for something takes at least one character. -/
theorem count_take_of_some (some : ¬ k.empty) {wanted : Nat}
    (asked : 1 ≤ wanted) : (k.take wanted).2.count + 1 ≤ k.count := by
  obtain ⟨wanted, rfl⟩ : ∃ fewer, wanted = fewer + 1 := ⟨wanted - 1, by omega⟩
  rw [take, if_neg some]
  have fewer := count_take (takeOne_inside inside) wanted
  have taken := count_takeOne inside some
  dsimp only
  omega

end Keyboard

variable (attended : Attended m)

include attended

theorem Attended.keyPressed (c : UInt8) : Attended (keyPressed m c) := by
  refine attended.arrive .keyboardBuffer rfl rfl
    (Keyboard.write_inside attended.indices c) (Keyboard.count_write attended.indices c) ?_
  intro other different
  cases other with
  | semaphore id => rfl
  | keyboardBuffer => exact absurd rfl different

omit attended in
theorem channel_of_comes {point : Point} (comes : m.point task = .running ∨ m.point task = point)
    (waits : point.channel = some channel) :
    (m.point task).channel = none ∨ (m.point task).channel = some channel := by
  rcases comes with runs | same
  · rw [runs]
    exact .inl rfl
  · rw [same]
    exact .inr waits

/-- However a task runs in a call, the units there are stay attended. -/
theorem Attended.turn {call : Call} {outcome : Option Result × SemState Proc}
    (isReady : task ∈ m.queues.ready) (turn : Turn m task call outcome) : Attended outcome.2 := by
  have uncounted : m.point task = .running → ∀ channel, m.retests channel task = false := by
    intro runs channel
    rw [SemState.retests, runs]
    rfl
  cases turn with
  | exits _ leaves =>
    refine attended.exit isReady fun channel => ?_
    rcases leaves with runs | marked
    · exact uncounted runs channel
    · rw [SemState.retests, marked]
      exact Bool.and_false _
  | waitsSem comes none unmarked =>
    exact attended.block isReady rfl (by simp) (channel_of_comes comes rfl)
      (Int.toNat_of_nonpos none) unmarked
  | @waitsKey count comes empty unmarked =>
    refine attended.block isReady rfl ?_ (channel_of_comes (comes.imp_left And.left) rfl)
      (Keyboard.count_of_empty attended.indices empty) unmarked
    rintro _ ⟨⟩
    exact comes.elim And.right (attended.asked task count)
  | refused | nothing => exact attended
  | @init id =>
    have after := attended.wakeWhere fun entry => decide (entry.2 = .semaphore id)
    refine { after with enough := fun entry isBlocked => ?_ }
    have different : entry.2 ≠ .semaphore id :=
      of_decide_eq_false (TaskQueues.mem_blocked_wakeWhere.mp isBlocked).2
    have enough := after.enough entry isBlocked
    cases channel : entry.2 with
    | semaphore otherId =>
      have apart : otherId ≠ id := fun equal => different (channel.trans (congrArg _ equal))
      rw [channel] at enough
      simp only [SemState.available, update_of_ne apart] at enough ⊢
      exact enough
    | keyboardBuffer =>
      rw [channel] at enough
      exact enough
  | @took id comes positive =>
    refine attended.take isReady rfl rfl attended.indices fun other => ?_
    by_cases same : other = .semaphore id
    · subst same
      have fewer : (semTake m task id).available (.semaphore id) + 1 = m.available (.semaphore id) := by
        simp only [SemState.available, semTake, update_self]
        omega
      dsimp only
      split <;> omega
    · rw [retests_elsewhere (channel_of_comes comes rfl) same]
      cases other with
      | semaphore otherId =>
        have different : otherId ≠ id := fun equal => same (congrArg _ equal)
        simp only [SemState.available, semTake, update_of_ne different]
        exact Nat.le_refl _
      | keyboardBuffer => exact Nat.le_refl _
  | @posted id =>
    refine attended.arrive (.semaphore id) rfl rfl attended.indices ?_ ?_
    · simp only [SemState.available, update_self]
      omega
    · intro other different
      cases other with
      | semaphore otherId =>
        have apart : otherId ≠ id := fun equal => different (congrArg _ equal)
        simp only [SemState.available, update_of_ne apart]
      | keyboardBuffer => rfl
  | @read count comes some =>
    have asked : 1 ≤ count := comes.elim And.right (attended.asked task count)
    refine attended.take isReady rfl rfl (Keyboard.take_inside attended.indices count) fun other => ?_
    cases other with
    | semaphore id =>
      rw [retests_elsewhere (channel_of_comes (comes.imp_left And.left) rfl) (by simp)]
      exact Nat.le_refl _
    | keyboardBuffer =>
      have fewer := Keyboard.count_take_of_some attended.indices some asked
      simp only [SemState.available]
      split <;> omega
  | tookOne runs some =>
    have same : m.point = update m.point task .running := by rw [← runs, update_eq_self]
    refine attended.take isReady rfl same (Keyboard.takeOne_inside attended.indices) fun other => ?_
    rw [uncounted runs other, if_neg Bool.false_ne_true]
    cases other with
    | semaphore id => exact Nat.le_refl _
    | keyboardBuffer =>
      have fewer := Keyboard.count_takeOne attended.indices some
      simp only [SemState.available]
      omega

omit attended

theorem semStep_attended [DecidableEq Proc] (m : SemState Proc) (event : Event Proc)
    (attended : Attended m)
    (spares : KillSpares m event) : Attended (semStep m event) := by
  cases event with
  | call task call =>
    rw [semStep]
    split
    · case isTrue runs => exact attended.turn runs.1 (perform_turn runs.2 call)
    · exact attended
  | resume task =>
    rw [semStep]
    split
    · case isTrue isReady =>
      cases inCall : (m.point task).call with
      | some call => exact attended.turn isReady (resume_turn inCall)
      | none =>
        have outside := point_eq_running inCall
        rw [resume, outside]
        exact attended
    · exact attended
  | keyPressed c => exact attended.keyPressed c
  | ctrlC reaction =>
    have pressed := attended.keyPressed 3
    cases reaction with
    | nobody => exact pressed
    | signal task => exact pressed.wakeWhere _
    | kill process => exact pressed.requestKill spares
  | sendSignal task => exact attended.wakeWhere _
  | requestKill process => exact attended.requestKill spares
  | createTask task process =>
    by_cases known : task ∈ m.queues.tasks
    · rw [semStep, if_pos known]
      exact attended
    · exact attended.createTask known process

theorem semStart_attended : Attended (semStart : SemState Proc) := by
  have inside : 0 < keyboardBufferSize := by decide
  refine ⟨List.nodup_nil, ?_, ?_, ?_, ⟨inside, inside⟩, ?_⟩
  · exact fun _ impossible => absurd impossible List.not_mem_nil
  · exact fun _ impossible => absurd impossible List.not_mem_nil
  · exact fun _ impossible => absurd impossible List.not_mem_nil
  · exact fun _ _ impossible => Point.noConfusion impossible

/-- If no kill takes along a task that a unit was meant for, no wake-up is lost. -/
theorem run_noLostWake [DecidableEq Proc] (events : List (Event Proc))
    (spares : Admissible semStep KillSpares semStart events) :
    NoLostWake (run semStep semStart events) :=
  (run_invariant_of_admissible Attended semStep_attended semStart_attended spares).noLostWake

/-- Two tasks of different processes wait for a semaphore, and one unit is posted by a
third. -/
def postToWaiters : List (Event Nat) :=
  [.createTask 1 (some 1), .createTask 2 (some 2), .createTask 3 (some 3),
    .call 3 (.semInit 0 0), .call 1 (.semWait 0), .call 2 (.semWait 0), .call 3 (.semPost 0)]

/-- The third is killed; it did not wait for the unit. -/
theorem run_noLostWake_postToWaiters :
    (run semStep semStart (postToWaiters ++ [.requestKill 3])).queues.blocked =
        [(2, .semaphore 0)] ∧
      (run semStep semStart (postToWaiters ++ [.requestKill 3])).queues.killPending 3 = true ∧
      NoLostWake (run semStep semStart (postToWaiters ++ [.requestKill 3])) :=
  ⟨by decide, by decide, run_noLostWake (postToWaiters ++ [.requestKill 3]) (by decide)⟩

/-- Two processes read from the keyboard, and Ctrl+C kills the one in the foreground. -/
def ctrlCToReaders : List (Event Nat) :=
  [.createTask 1 (some 1), .createTask 2 (some 2), .call 1 (.keyboardRead 1),
    .call 2 (.keyboardRead 1), .ctrlC (.kill 1)]

/-- The waiter that was woken is killed: its unit stays, and the other waiter sleeps
beside it. -/
theorem wake_lost :
    ((run semStep semStart (postToWaiters ++ [.requestKill 1, .resume 1])).queues.ready = [3] ∧
      ¬ NoLostWake (run semStep semStart (postToWaiters ++ [.requestKill 1, .resume 1]))) ∧
    ¬ NoLostWake (run semStep semStart ctrlCToReaders) := by
  decide

end MiniOS.Semaphores
