import MiniOS.RunInvariant
import MiniOS.TaskQueues

/-!
# Semaphores and the keyboard

`sem.c` and the buffer of `kb.c`, with the tasks that wait on them.  A system call
runs with interrupts off up to the point where its task blocks; a task that was
woken goes on behind its call of `task_block_current`, where it first honours a kill
and then tests its condition again.  Scan codes arrive here as the characters they
stand for.
-/

namespace MiniOS.Semaphores

open Function Machine

def maxSemaphores : Int := 8

def int32Max : Int := 2147483647

def keyboardBufferSize : Nat := 128

structure KSem where
  value : Int
  used : Bool
deriving DecidableEq

/-- The static variables of `kb.c` that hold the typed characters. -/
structure Keyboard where
  buffer : Nat → UInt8
  readIndex : Nat
  writeIndex : Nat

inductive Channel
  | semaphore (id : Int)
  | keyboardBuffer
deriving DecidableEq

/-- Where a ready task stands: outside of these waits, or behind its call of
`task_block_current`. -/
inductive Point
  | running
  | semWait (id : Int)
  | keyboardRead (count : Nat)
deriving DecidableEq

def Point.channel : Point → Option Channel
  | .running => none
  | .semWait id => some (.semaphore id)
  | .keyboardRead _ => some .keyboardBuffer

structure SemState (Proc : Type*) where
  queues : TaskQueues Channel Proc
  point : Nat → Point
  semaphores : Int → KSem
  keyboard : Keyboard

variable {Proc : Type*}

def semValid (id : Int) : Prop := 0 ≤ id ∧ id < maxSemaphores

instance (id : Int) : Decidable (semValid id) :=
  inferInstanceAs (Decidable (_ ∧ _))

section Blocking

def blockKillable (m : SemState Proc) (task : Nat) (channel : Channel) (point : Point) :
    SemState Proc :=
  if m.queues.killPending task then { m with queues := m.queues.exit task }
  else { m with queues := m.queues.block task channel, point := update m.point task point }

end Blocking

section Sem

variable (m : SemState Proc)

def semInit (id value : Int) : Int × SemState Proc :=
  if ¬ semValid id ∨ value < 0 then (-1, m)
  else
    (0,
      { m with
        semaphores := update m.semaphores id ⟨value, true⟩
        queues := m.queues.wakeAll (.semaphore id) })

/-- The end of `sem_wait`. -/
def semTake (task : Nat) (id : Int) : SemState Proc :=
  { m with
    semaphores := update m.semaphores id
      { m.semaphores id with value := (m.semaphores id).value - 1 }
    point := update m.point task .running }

/-- The loop of `sem_wait`, and what follows it: no result while the task waits. -/
def semWaitLoop (task : Nat) (id : Int) : Option Int × SemState Proc :=
  if (m.semaphores id).value ≤ 0 then (none, blockKillable m task (.semaphore id) (.semWait id))
  else (some 0, semTake m task id)

def semWait (task : Nat) (id : Int) : Option Int × SemState Proc :=
  if ¬ semValid id then (some (-1), m)
  else if (m.semaphores id).used = false then (some (-1), m)
  else semWaitLoop m task id

def semPost (id : Int) : Int × SemState Proc :=
  if ¬ semValid id then (-1, m)
  else if (m.semaphores id).used = false then (-1, m)
  else if (m.semaphores id).value = int32Max then (-1, m)
  else
    (0,
      { m with
        semaphores := update m.semaphores id
          { m.semaphores id with value := (m.semaphores id).value + 1 }
        queues := m.queues.wakeOne (.semaphore id) })

end Sem

section Keys

namespace Keyboard

def empty (k : Keyboard) : Prop := k.readIndex = k.writeIndex

instance (k : Keyboard) : Decidable k.empty :=
  inferInstanceAs (Decidable (_ = _))

def write (k : Keyboard) (c : UInt8) : Keyboard :=
  let nextIndex := (k.writeIndex + 1) % keyboardBufferSize
  if nextIndex = k.readIndex then k
  else { k with buffer := update k.buffer k.writeIndex c, writeIndex := nextIndex }

def takeOne (k : Keyboard) : Keyboard :=
  { k with readIndex := (k.readIndex + 1) % keyboardBufferSize }

/-- The second loop of `keyboard_read`. -/
def take : Nat → Keyboard → List UInt8 × Keyboard
  | 0, k => ([], k)
  | count + 1, k =>
    if k.empty then ([], k)
    else
      let rest := take count k.takeOne
      (k.buffer k.readIndex :: rest.1, rest.2)

end Keyboard

/-- The first loop of `keyboard_read`, and what follows it: the characters stored, whose
number is returned, or no result while the task waits. -/
def keyboardReadLoop (m : SemState Proc) (task count : Nat) :
    Option (List UInt8) × SemState Proc :=
  if m.keyboard.empty then (none, blockKillable m task .keyboardBuffer (.keyboardRead count))
  else
    (some (m.keyboard.take count).1,
      { m with
        keyboard := (m.keyboard.take count).2
        point := update m.point task .running })

def keyboardRead (m : SemState Proc) (task count : Nat) : Option (List UInt8) × SemState Proc :=
  if count = 0 then (some [], m) else keyboardReadLoop m task count

/-- `keyboard_try_read`: the character stored, or `none` when 0 is returned. -/
def keyboardTryRead (m : SemState Proc) : Option UInt8 × SemState Proc :=
  if m.keyboard.empty then (none, m)
  else (some (m.keyboard.buffer m.keyboard.readIndex), { m with keyboard := m.keyboard.takeOne })

/-- `keyboard_callback` for a key that stands for a character. -/
def keyPressed (m : SemState Proc) (c : UInt8) : SemState Proc :=
  { m with keyboard := m.keyboard.write c, queues := m.queues.wakeOne .keyboardBuffer }

/-- What Ctrl+C does to the foreground process: nothing if there is none, a signal to
its main task if it has a handler, a kill otherwise. -/
inductive Reaction (Proc : Type*)
  | nobody
  | signal (task : Nat)
  | kill (process : Proc)

end Keys

section Steps

/-- `process_send_signal` as far as it concerns waiting tasks. -/
def sendSignal (m : SemState Proc) (task : Nat) : SemState Proc :=
  { m with queues := m.queues.wakeTask task }

def requestKill [DecidableEq Proc] (m : SemState Proc) (process : Proc) : SemState Proc :=
  { m with queues := m.queues.killProcess process }

def react [DecidableEq Proc] (m : SemState Proc) : Reaction Proc → SemState Proc
  | .nobody => m
  | .signal task => sendSignal m task
  | .kill process => requestKill m process

/-- `keyboard_callback` for Ctrl+C. -/
def ctrlC [DecidableEq Proc] (m : SemState Proc) (reaction : Reaction Proc) : SemState Proc :=
  react (keyPressed m 3) reaction

/-- What a task that runs outside of these waits can do. -/
inductive Call
  | semInit (id : Int) (value : Int32)
  | semWait (id : Int)
  | semPost (id : Int)
  | keyboardRead (count : Nat)
  | keyboardTryRead
  | taskExit
deriving DecidableEq

/-- What a call returns: a status, or the characters it has stored. -/
inductive Result
  | status (code : Int)
  | characters (chars : List UInt8)
deriving DecidableEq

/-- The value of a function as the result of a call. -/
def returning {α : Type*} (result : α → Option Result) (outcome : α × SemState Proc) :
    Option Result × SemState Proc :=
  (result outcome.1, outcome.2)

/-- A task goes on behind its call of `task_block_current`. -/
def resume (m : SemState Proc) (task : Nat) : Option Result × SemState Proc :=
  match m.point task with
  | .running => (none, m)
  | .semWait id =>
    if m.queues.killPending task then (none, { m with queues := m.queues.exit task })
    else returning (Option.map .status) (semWaitLoop m task id)
  | .keyboardRead count =>
    if m.queues.killPending task then (none, { m with queues := m.queues.exit task })
    else returning (Option.map .characters) (keyboardReadLoop m task count)

inductive Event (Proc : Type*)
  | call (task : Nat) (call : Call)
  | resume (task : Nat)
  | keyPressed (c : UInt8)
  | ctrlC (reaction : Reaction Proc)
  | sendSignal (task : Nat)
  | requestKill (process : Proc)
  | createTask (task : Nat) (process : Option Proc)

def perform (m : SemState Proc) (task : Nat) : Call → Option Result × SemState Proc
  | .semInit id value => returning (some ∘ .status) (semInit m id value.toInt)
  | .semWait id => returning (Option.map .status) (semWait m task id)
  | .semPost id => returning (some ∘ .status) (semPost m id)
  | .keyboardRead count => returning (Option.map .characters) (keyboardRead m task count)
  | .keyboardTryRead => returning (fun c => some (.characters c.toList)) (keyboardTryRead m)
  | .taskExit => (none, { m with queues := m.queues.exit task })

/-- One event.  Only a ready task can make a call or go on, and only a new task can be
created. -/
def semStep [DecidableEq Proc] (m : SemState Proc) : Event Proc → SemState Proc
  | .call task call =>
    if task ∈ m.queues.ready ∧ m.point task = .running then (perform m task call).2 else m
  | .resume task => if task ∈ m.queues.ready then (resume m task).2 else m
  | .keyPressed c => keyPressed m c
  | .ctrlC reaction => ctrlC m reaction
  | .sendSignal task => sendSignal m task
  | .requestKill process => requestKill m process
  | .createTask task process =>
    if task ∈ m.queues.tasks then m
    else
      { m with
        queues := m.queues.create task process
        point := update m.point task .running }

def semStart : SemState Proc where
  queues := ⟨[], [], fun _ => none, fun _ => false⟩
  point := fun _ => .running
  semaphores := fun _ => ⟨0, false⟩
  keyboard := ⟨fun _ => 0, 0, 0⟩

end Steps

section Log

/-- The call behind whose wait a task stands. -/
def Point.call : Point → Option Call
  | .running => none
  | .semWait id => some (.semWait id)
  | .keyboardRead count => some (.keyboardRead count)

/-- The machine as its callers see it: the call that each task is in, and the calls that have
returned, the oldest first. -/
structure CallLog (Proc : Type*) where
  state : SemState Proc
  inside : Nat → Option Call
  returned : List (Call × Result)

/-- A task has run in a call, which has returned or not. -/
def CallLog.record (log : CallLog Proc) (task : Nat) (call : Option Call)
    (outcome : Option Result × SemState Proc) : CallLog Proc where
  state := outcome.2
  inside := update log.inside task (if outcome.1.isSome then none else call)
  returned := log.returned ++ (call.bind fun call => outcome.1.map (call, ·)).toList

def logStep [DecidableEq Proc] (log : CallLog Proc) : Event Proc → CallLog Proc
  | .call task call =>
    if task ∈ log.state.queues.ready ∧ log.state.point task = .running then
      log.record task (some call) (perform log.state task call)
    else log
  | .resume task =>
    if task ∈ log.state.queues.ready then
      log.record task (log.inside task) (resume log.state task)
    else log
  | .createTask task process =>
    { log with
      state := semStep log.state (.createTask task process)
      inside := if task ∈ log.state.queues.tasks then log.inside else update log.inside task none }
  | event => { log with state := semStep log.state event }

def logStart : CallLog Proc := ⟨semStart, fun _ => none, []⟩

/-- How a task can run in a call, which it makes or goes on in. -/
inductive Turn (m : SemState Proc) (task : Nat) : Call → Option Result × SemState Proc → Prop
  | exits (call : Call) (leaves : m.point task = .running ∨ m.queues.killPending task = true) :
    Turn m task call (none, { m with queues := m.queues.exit task })
  | waitsSem {id : Int} (comes : m.point task = .running ∨ m.point task = .semWait id)
      (none' : (m.semaphores id).value ≤ 0) (unmarked : m.queues.killPending task = false) :
    Turn m task (.semWait id) (none,
      { m with
        queues := m.queues.block task (.semaphore id)
        point := update m.point task (.semWait id) })
  | waitsKey {count : Nat}
      (comes : m.point task = .running ∧ 1 ≤ count ∨ m.point task = .keyboardRead count)
      (empty : m.keyboard.empty) (unmarked : m.queues.killPending task = false) :
    Turn m task (.keyboardRead count) (none,
      { m with
        queues := m.queues.block task .keyboardBuffer
        point := update m.point task (.keyboardRead count) })
  | refused {call : Call} (runs : m.point task = .running)
      (reads : ∀ count, call ≠ .keyboardRead count) : Turn m task call (some (.status (-1)), m)
  | init {id : Int} {value : Int32} (runs : m.point task = .running) (accepted : 0 ≤ value.toInt) :
    Turn m task (.semInit id value) (some (.status 0),
      { m with
        semaphores := update m.semaphores id ⟨value.toInt, true⟩
        queues := m.queues.wakeAll (.semaphore id) })
  | took {id : Int} (comes : m.point task = .running ∨ m.point task = .semWait id)
      (positive : 0 < (m.semaphores id).value) :
    Turn m task (.semWait id) (some (.status 0), semTake m task id)
  | posted {id : Int} (runs : m.point task = .running) (room : (m.semaphores id).value ≠ int32Max) :
    Turn m task (.semPost id) (some (.status 0),
      { m with
        semaphores := update m.semaphores id
          { m.semaphores id with value := (m.semaphores id).value + 1 }
        queues := m.queues.wakeOne (.semaphore id) })
  | nothing {call : Call} (runs : m.point task = .running)
      (asks : ∀ count, call = .keyboardRead count → count = 0) :
    Turn m task call (some (.characters []), m)
  | read {count : Nat}
      (comes : m.point task = .running ∧ 1 ≤ count ∨ m.point task = .keyboardRead count)
      (some' : ¬ m.keyboard.empty) :
    Turn m task (.keyboardRead count) (some (.characters (m.keyboard.take count).1),
      { m with keyboard := (m.keyboard.take count).2, point := update m.point task .running })
  | tookOne (runs : m.point task = .running) (some' : ¬ m.keyboard.empty) :
    Turn m task .keyboardTryRead
      (some (.characters [m.keyboard.buffer m.keyboard.readIndex]),
        { m with keyboard := m.keyboard.takeOne })

variable {m : SemState Proc} {task : Nat}

theorem semWaitLoop_turn {id : Int} (comes : m.point task = .running ∨ m.point task = .semWait id) :
    Turn m task (.semWait id) (returning (Option.map .status) (semWaitLoop m task id)) := by
  unfold semWaitLoop blockKillable
  split
  · case isTrue none =>
    split
    · case isTrue marked => exact .exits _ (.inr marked)
    · case isFalse unmarked => exact .waitsSem comes none (Bool.eq_false_iff.mpr unmarked)
  · exact .took comes (by omega)

theorem keyboardReadLoop_turn {count : Nat}
    (comes : m.point task = .running ∧ 1 ≤ count ∨ m.point task = .keyboardRead count) :
    Turn m task (.keyboardRead count)
      (returning (Option.map .characters) (keyboardReadLoop m task count)) := by
  unfold keyboardReadLoop blockKillable
  split
  · case isTrue empty =>
    split
    · case isTrue marked => exact .exits _ (.inr marked)
    · case isFalse unmarked => exact .waitsKey comes empty (Bool.eq_false_iff.mpr unmarked)
  · case isFalse some => exact .read comes some

theorem perform_turn (runs : m.point task = .running) (call : Call) :
    Turn m task call (perform m task call) := by
  cases call with
  | semInit id value =>
    rw [perform, semInit]
    split
    · exact .refused runs (by simp)
    · exact .init runs (by omega)
  | semWait id =>
    rw [perform, semWait]
    split
    · exact .refused runs (by simp)
    split
    · exact .refused runs (by simp)
    · exact semWaitLoop_turn (.inl runs)
  | semPost id =>
    rw [perform, semPost]
    split
    · exact .refused runs (by simp)
    split
    · exact .refused runs (by simp)
    split
    · exact .refused runs (by simp)
    · case isFalse room => exact .posted runs room
  | keyboardRead count =>
    rw [perform, keyboardRead]
    split
    · case isTrue nothing => exact .nothing runs (by simp [nothing])
    · exact keyboardReadLoop_turn (.inl ⟨runs, by omega⟩)
  | keyboardTryRead =>
    rw [perform, keyboardTryRead]
    split
    · exact .nothing runs (by simp)
    · case isFalse some => exact .tookOne runs some
  | taskExit => exact .exits _ (.inl runs)

theorem point_eq_running {point : Point} (outside : point.call = none) : point = .running := by
  cases point <;> simp [Point.call] at outside ⊢

theorem resume_turn {call : Call} (inCall : (m.point task).call = some call) :
    Turn m task call (resume m task) := by
  rw [resume]
  cases point : m.point task with
  | running => simp [point, Point.call] at inCall
  | semWait id =>
    obtain rfl : Call.semWait id = call := by simpa [point, Point.call] using inCall
    dsimp only
    split
    · case isTrue marked => exact .exits _ (.inr marked)
    · exact semWaitLoop_turn (.inr point)
  | keyboardRead count =>
    obtain rfl : Call.keyboardRead count = call := by simpa [point, Point.call] using inCall
    dsimp only
    split
    · case isTrue marked => exact .exits _ (.inr marked)
    · exact keyboardReadLoop_turn (.inr point)

/-- Every task is in the call behind whose wait it stands. -/
structure Tracked (log : CallLog Proc) : Prop where
  distinct : log.state.queues.tasks.Nodup
  inside : ∀ task ∈ log.state.queues.tasks, log.inside task = (log.state.point task).call

variable {log : CallLog Proc} {call : Call} {outcome : Option Result × SemState Proc}

theorem Tracked.ran (tracked : Tracked log)
    (same : outcome.2.queues.tasks.Perm log.state.queues.tasks)
    (points : ∀ other, other ≠ task → outcome.2.point other = log.state.point other)
    (here : (if outcome.1.isSome then none else some call) = (outcome.2.point task).call) :
    Tracked (log.record task (some call) outcome) := by
  refine ⟨same.nodup_iff.mpr tracked.distinct, fun other member => ?_⟩
  by_cases isTask : other = task
  · rw [isTask]
    exact (update_self ..).trans here
  · refine (update_of_ne isTask ..).trans ?_
    rw [tracked.inside other (same.mem_iff.mp member), ← points other isTask]
    rfl

theorem Tracked.record (tracked : Tracked log) (isReady : task ∈ log.state.queues.ready)
    (turn : Turn log.state task call outcome) : Tracked (log.record task (some call) outcome) := by
  cases turn with
  | exits =>
    have gone := TaskQueues.tasks_exit isReady
    refine ⟨?_, fun other member => ?_⟩
    · exact gone ▸ tracked.distinct.erase task
    · rw [CallLog.record, gone, tracked.distinct.mem_erase_iff] at member
      exact (update_of_ne member.1 ..).trans (tracked.inside other member.2)
  | waitsSem | waitsKey =>
    exact tracked.ran (TaskQueues.tasks_block isReady _)
      (fun other isOther => update_of_ne isOther ..) (by simp [Point.call])
  | refused runs | nothing runs | tookOne runs =>
    exact tracked.ran (.refl _) (fun _ _ => rfl) (by simp [runs, Point.call])
  | init runs =>
    exact tracked.ran TaskQueues.tasks_wakeWhere (fun _ _ => rfl) (by simp [runs, Point.call])
  | posted runs =>
    exact tracked.ran (TaskQueues.tasks_wakeOne ..) (fun _ _ => rfl) (by simp [runs, Point.call])
  | took | read =>
    exact tracked.ran (.refl _) (fun other isOther => update_of_ne isOther ..)
      (by simp [semTake, Point.call])

theorem CallLog.record_none (log : CallLog Proc) (task : Nat) (m : SemState Proc) :
    log.record task (log.inside task) (none, m) = { log with state := m } := by
  simp [record]

/-- The characters that an interrupt brings. -/
def typed : Event Proc → List UInt8
  | .keyPressed c => [c]
  | .ctrlC _ => [3]
  | _ => []

/-- What an event is to the callers: a task runs in a call, or nobody does. -/
inductive Observed [DecidableEq Proc] (log : CallLog Proc) (event : Event Proc) : Prop
  | ran {task : Nat} {call : Call} {outcome : Option Result × SemState Proc}
      (isReady : task ∈ log.state.queues.ready) (turn : Turn log.state task call outcome)
      (silent : typed event = []) (same : logStep log event = log.record task (some call) outcome)
  | nobody (returned : (logStep log event).returned = log.returned)
      (semaphores : (logStep log event).state.semaphores = log.state.semaphores)
      (keyboard : (logStep log event).state.keyboard =
        (typed event).foldl Keyboard.write log.state.keyboard)
      (tracked : Tracked log → Tracked (logStep log event))

theorem Tracked.observed [DecidableEq Proc] (tracked : Tracked log) (event : Event Proc) :
    Observed log event := by
  have woken : ∀ {queues : TaskQueues Channel Proc} {keyboard : Keyboard},
      queues.tasks.Perm log.state.queues.tasks →
      Tracked { log with state := { log.state with queues := queues, keyboard := keyboard } } :=
    fun same => ⟨same.nodup_iff.mpr tracked.distinct,
      fun task member => tracked.inside task (same.mem_iff.mp member)⟩
  have unmoved : logStep log event = log → typed event = [] → Observed log event := by
    intro same silent
    exact .nobody (by rw [same]) (by rw [same]) (by rw [same, silent]; rfl) (by rw [same]; exact id)
  cases event with
  | call task call =>
    by_cases runs : task ∈ log.state.queues.ready ∧ log.state.point task = .running
    · exact .ran runs.1 (perform_turn runs.2 call) rfl (if_pos runs)
    · exact unmoved (if_neg runs) rfl
  | resume task =>
    by_cases isReady : task ∈ log.state.queues.ready
    · have inside := tracked.inside task (TaskQueues.mem_tasks_of_ready isReady)
      cases inCall : (log.state.point task).call with
      | some call =>
        refine .ran isReady (resume_turn inCall) rfl ((if_pos isReady).trans ?_)
        rw [inside, inCall]
      | none =>
        refine unmoved ((if_pos isReady).trans ?_) rfl
        rw [resume, point_eq_running inCall]
        exact log.record_none task log.state
    · exact unmoved (if_neg isReady) rfl
  | keyPressed c =>
    exact .nobody rfl rfl rfl fun _ => woken (TaskQueues.tasks_wakeOne ..)
  | ctrlC reaction =>
    have pressed := TaskQueues.tasks_wakeOne log.state.queues Channel.keyboardBuffer
    cases reaction with
    | nobody => exact .nobody rfl rfl rfl fun _ => woken pressed
    | signal task | kill process =>
      exact .nobody rfl rfl rfl fun _ => woken (TaskQueues.tasks_wakeWhere.trans pressed)
  | sendSignal task | requestKill process =>
    exact .nobody rfl rfl rfl fun _ => woken TaskQueues.tasks_wakeWhere
  | createTask task process =>
    by_cases known : task ∈ log.state.queues.tasks
    · exact unmoved (by simp [logStep, semStep, known]) rfl
    · refine .nobody rfl (by simp [logStep, semStep, known])
        (by simp [logStep, semStep, known]; rfl) fun _ => ?_
      simp only [logStep, semStep, known, if_false]
      refine ⟨List.nodup_cons.mpr ⟨known, tracked.distinct⟩, fun other member => ?_⟩
      by_cases new : other = task
      · simp [new, Point.call]
      · simp only [update_of_ne new]
        exact tracked.inside other ((List.mem_cons.mp member).resolve_left new)

theorem Tracked.step [DecidableEq Proc] (log : CallLog Proc) (event : Event Proc)
    (tracked : Tracked log) : Tracked (logStep log event) := by
  cases tracked.observed event with
  | ran isReady turn _ same =>
    rw [same]
    exact tracked.record isReady turn
  | nobody _ _ _ kept => exact kept tracked

theorem logStart_tracked : Tracked (logStart : CallLog Proc) :=
  ⟨List.nodup_nil, fun _ _ => rfl⟩

end Log

section Conservation

/-- What the results of calls say about a semaphore: the argument of the last `sem_init` that
has returned 0, and how many calls of `sem_post` and `sem_wait` have returned 0 since. -/
structure Tally where
  initial : Int
  posts : Nat
  waits : Nat
deriving DecidableEq

def Tally.count (id : Int) (tally : Tally) (entry : Call × Result) : Tally :=
  if entry.2 = .status 0 then
    match entry.1 with
    | .semInit other value => if other = id then ⟨value.toInt, 0, 0⟩ else tally
    | .semPost other => if other = id then { tally with posts := tally.posts + 1 } else tally
    | .semWait other => if other = id then { tally with waits := tally.waits + 1 } else tally
    | _ => tally
  else tally

def tallyOf (id : Int) (returned : List (Call × Result)) : Tally :=
  returned.foldl (Tally.count id) ⟨0, 0, 0⟩

/-- The value of a semaphore accounts for every unit since `sem_init`. -/
structure Balanced (value : Int) (tally : Tally) : Prop where
  nonneg : 0 ≤ value
  bounded : value ≤ int32Max
  balance : value = tally.initial + tally.posts - tally.waits

variable {m : SemState Proc} {task : Nat} {call : Call} {outcome : Option Result × SemState Proc}
  {id : Int} {tally : Tally}

theorem Turn.balanced (turn : Turn m task call outcome)
    (balanced : Balanced (m.semaphores id).value tally) :
    Balanced (outcome.2.semaphores id).value
      ((outcome.1.map (call, ·)).toList.foldl (Tally.count id) tally) := by
  obtain ⟨nonneg, bounded, balance⟩ := balanced
  cases turn with
  | exits | waitsSem | waitsKey | refused | nothing | read | tookOne =>
    exact ⟨nonneg, bounded, by simpa [Tally.count] using balance⟩
  | @init other value _ accepted =>
    have small : value.toInt ≤ int32Max := Int.le_of_lt_add_one value.toInt_lt
    by_cases same : other = id
    · subst same
      exact ⟨by simpa, by simpa, by simp [Tally.count]⟩
    · simpa [Tally.count, same, update_of_ne (Ne.symm same)] using ⟨nonneg, bounded, balance⟩
  | @took other _ positive =>
    by_cases same : other = id
    · subst same
      refine ⟨?_, ?_, ?_⟩ <;> simp [Tally.count, semTake] <;> omega
    · simpa [Tally.count, semTake, same, update_of_ne (Ne.symm same)]
        using ⟨nonneg, bounded, balance⟩
  | @posted other _ room =>
    by_cases same : other = id
    · subst same
      refine ⟨?_, ?_, ?_⟩ <;> simp [Tally.count] <;> omega
    · simpa [Tally.count, same, update_of_ne (Ne.symm same)] using ⟨nonneg, bounded, balance⟩

structure Conserved (log : CallLog Proc) : Prop where
  tracked : Tracked log
  balanced : ∀ id, Balanced (log.state.semaphores id).value (tallyOf id log.returned)

theorem Conserved.step [DecidableEq Proc] (log : CallLog Proc) (event : Event Proc)
    (conserved : Conserved log) : Conserved (logStep log event) := by
  refine ⟨.step log event conserved.tracked, fun id => ?_⟩
  cases conserved.tracked.observed event with
  | ran isReady turn _ same =>
    rw [same, tallyOf, CallLog.record, List.foldl_append]
    exact turn.balanced (conserved.balanced id)
  | nobody returned semaphores _ _ =>
    rw [returned, semaphores]
    exact conserved.balanced id

/-- In every state that can be reached each semaphore holds what the calls that have returned
put into it and did not take out, a call that has not returned is at its wait, and a waiter
that was killed takes nothing. -/
theorem run_semaphores_conserved [DecidableEq Proc] (events : List (Event Proc)) :
    let log := run logStep logStart events
    (∀ id, 0 ≤ (log.state.semaphores id).value ∧ (log.state.semaphores id).value ≤ int32Max ∧
      (log.state.semaphores id).value = (tallyOf id log.returned).initial +
        (tallyOf id log.returned).posts - (tallyOf id log.returned).waits) ∧
    (∀ task ∈ log.state.queues.tasks, log.inside task = (log.state.point task).call) ∧
    ∀ task ∈ log.state.queues.ready, log.state.queues.killPending task = true →
      log.state.point task ≠ .running → logStep log (.resume task) =
        { log with state := { log.state with queues := log.state.queues.exit task } } := by
  intro log
  have start : Conserved (logStart : CallLog Proc) :=
    ⟨logStart_tracked, fun id => ⟨Int.le_refl 0, (by decide : (0 : Int) ≤ int32Max), rfl⟩⟩
  have conserved : Conserved log := run_invariant Conserved Conserved.step start events
  refine ⟨fun id => ?_, conserved.tracked.inside, fun task isReady killed waiting => ?_⟩
  · obtain ⟨nonneg, bounded, balance⟩ := conserved.balanced id
    exact ⟨nonneg, bounded, balance⟩
  · rw [logStep, if_pos isReady, ← log.record_none task]
    congr 1
    rw [resume]
    split
    · case h_1 running => exact absurd running waiting
    · rw [if_pos killed]
    · rw [if_pos killed]

/-- Of two units a task takes one, and a task that was woken for the other one is killed. -/
def killedWaiter : List (Event Nat) :=
  [.createTask 1 (some 1), .createTask 2 (some 2), .createTask 3 (some 3),
    .call 3 (.semInit 0 1), .call 1 (.semWait 0), .call 2 (.semWait 0), .call 3 (.semPost 0),
    .requestKill 2, .resume 2]

theorem run_semaphores_conserved_killedWaiter :
    let log := run logStep logStart killedWaiter
    log.returned =
        [(.semInit 0 1, .status 0), (.semWait 0, .status 0), (.semPost 0, .status 0)] ∧
      log.state.queues.tasks = [3, 1] ∧ (log.state.semaphores 0).value = 1 := by
  have counted : tallyOf 0 (run logStep logStart killedWaiter).returned = ⟨1, 1, 1⟩ := by decide
  refine ⟨by decide, by decide, ?_⟩
  rw [((run_semaphores_conserved killedWaiter).1 0).2.2, counted]
  rfl

end Conservation

end MiniOS.Semaphores
