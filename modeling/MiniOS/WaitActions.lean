import MiniOS.WaitMachine

/-!
# What an operation on waiting tasks does

The operations share their parts: they wake and block tasks, open and close the ends of a
pipe, move bytes and return.  All but the sleeps of `timer_sleep` and the work of
`timer_callback` amount to chains of a few actions, none of which puts a task to sleep, and
what holds in all runs is shown action by action.
-/

namespace MiniOS.Waits

open Function Kernel Tasks

variable {Proc : Type*}

/-- A task is blocked in `timer_sleep` on a slot. -/
def SleepsOn (s : Scheduler (Channel Proc) Proc) (task : Nat) (slot : SleepSlot) : Prop :=
  task ∈ s.tasks ∧ s.state task = .blocked ∧ s.waitChannel task = some (.sleepSlot slot)

section Scheduling

variable {s s' s'' : Scheduler (Channel Proc) Proc}

def NoNewSleeper (s s' : Scheduler (Channel Proc) Proc) : Prop :=
  ∀ task slot, SleepsOn s' task slot → SleepsOn s task slot

theorem NoNewSleeper.refl (s : Scheduler (Channel Proc) Proc) :
    NoNewSleeper s s := fun _ _ sleeps => sleeps

theorem NoNewSleeper.trans (first : NoNewSleeper s s') (second : NoNewSleeper s' s'') :
    NoNewSleeper s s'' :=
  fun task slot sleeps => first task slot (second task slot sleeps)

theorem addReadyTask_noNewSleeper (s : Scheduler (Channel Proc) Proc) (task : Nat) :
    NoNewSleeper s (addReadyTask s task) := by
  rintro other slot ⟨member, blocked, channel⟩
  rw [(addReadyTask_keepsTasks s task).tasks] at member
  have fields : (addReadyTask s task).state = update s.state task .ready ∧
      (addReadyTask s task).waitChannel = update s.waitChannel task none := by
    unfold addReadyTask
    simp only
    split <;> exact ⟨rfl, rfl⟩
  rw [fields.1] at blocked
  rw [fields.2] at channel
  by_cases same : other = task
  · rw [same, update_self] at channel
    exact nomatch channel
  · rw [update_of_ne same] at blocked channel
    exact ⟨member, blocked, channel⟩

theorem wakeFrom_noNewSleeper (selects : Option (Channel Proc) → Option Proc → Nat → Bool)
    (once kill : Bool) (rounds : Nat) :
    ∀ link s s', wakeFrom selects once kill rounds link s = some s' → NoNewSleeper s s' := by
  induction rounds with
  | zero =>
    intro link s s' woke
    rw [wakeFrom] at woke
    split at woke
    · obtain rfl := Option.some.inj woke
      exact .refl s
    · exact nomatch woke
  | succ rounds ih =>
    intro link s s' woke
    rw [wakeFrom] at woke
    split at woke
    · obtain rfl := Option.some.inj woke
      exact .refl s
    dsimp only at woke
    split at woke
    · have turn : NoNewSleeper s (wakeNow kill s link (readLink s link)) := by
        refine .trans ?_ (addReadyTask_noNewSleeper _ (readLink s link))
        cases link <;> exact .refl s
      split at woke
      · obtain rfl := Option.some.inj woke
        exact turn
      · exact turn.trans (ih _ _ s' woke)
    · exact ih _ s s' woke

theorem createTask_noNewSleeper (s : Scheduler (Channel Proc) Proc) (entry addressSpace : Nat)
    (process : Option Proc) (newTask stack : Nat) :
    NoNewSleeper s (createTask s entry addressSpace process newTask stack).2 := by
  have written : ∀ tasks task slot, SleepsOn { writeNewTask s newTask stack with tasks := tasks } task slot →
      task ≠ newTask ∧ task ∈ tasks ∧ (task ∈ s.tasks → SleepsOn s task slot) := by
    rintro tasks task slot ⟨member, blocked, channel⟩
    have different : task ≠ newTask := by
      rintro rfl
      simp [writeNewTask] at blocked
    simp only [writeNewTask, update_of_ne different] at blocked channel
    exact ⟨different, member, fun old => ⟨old, blocked, channel⟩⟩
  unfold Tasks.createTask
  split
  · exact .refl s
  split
  · exact .refl s
  dsimp only
  split
  · intro task slot sleeps
    obtain ⟨-, member, old⟩ := written _ task slot sleeps
    exact old member
  · refine .trans ?_ (addReadyTask_noNewSleeper _ newTask)
    intro task slot sleeps
    obtain ⟨different, member, old⟩ := written (newTask :: s.tasks) task slot sleeps
    exact old ((List.mem_cons.mp member).resolve_left different)

theorem taskExit_noNewSleeper (exited : taskExit s = some s') : NoNewSleeper s s' := by
  unfold taskExit at exited
  dsimp only at exited
  split at exited
  · exact nomatch exited
  split at exited
  · exact nomatch exited
  split at exited
  · exact nomatch exited
  · obtain rfl := Option.some.inj exited
    rintro task slot ⟨member, blocked, channel⟩
    rw [retireTask, reapRetiredTask_eq] at member blocked channel
    exact ⟨List.mem_of_mem_erase member, blocked, channel⟩

theorem schedule_noNewSleeper (s : Scheduler (Channel Proc) Proc) : NoNewSleeper s (schedule s) := by
  unfold schedule
  rw [reapRetiredTask_eq]
  dsimp only
  split
  · exact .refl s
  · split <;> exact .refl s

theorem appendBlocked_fields {task : Nat} (appended : appendBlocked s task = some s') :
    s'.tasks = s.tasks ∧ s'.state = s.state ∧ s'.waitChannel = s.waitChannel := by
  unfold appendBlocked at appended
  split at appended
  · obtain rfl := Option.some.inj appended
    exact ⟨rfl, rfl, rfl⟩
  split at appended
  · exact nomatch appended
  · obtain rfl := Option.some.inj appended
    exact ⟨rfl, rfl, rfl⟩

/-- Blocking the current task makes nobody else sleep. -/
theorem taskBlockCurrent_sleepers {channel : Channel Proc}
    (result : taskBlockCurrent s (some channel) = some s') :
    ∀ task slot, SleepsOn s' task slot →
      SleepsOn s task slot ∨ task = s.currentTask ∧ channel = .sleepSlot slot := by
  unfold taskBlockCurrent at result
  dsimp only at result
  split at result
  · obtain rfl := Option.some.inj result
    exact fun _ _ sleeps => .inl sleeps
  split at result
  · exact nomatch result
  · obtain rfl := Option.some.inj result
    exact fun _ _ sleeps => .inl sleeps
  split at result
  · exact nomatch result
  · next appended isAppended =>
    obtain rfl := Option.some.inj result
    rintro task slot ⟨member, blocked, channel⟩
    have fields := appendBlocked_fields isAppended
    simp only [activateTask, fields, markBlocked, unlinkReady] at member blocked channel
    by_cases same : task = s.currentTask
    · rw [same, update_self] at channel
      exact .inr ⟨same, Option.some.inj channel⟩
    · rw [update_of_ne same] at blocked channel
      exact .inl ⟨member, blocked, channel⟩

end Scheduling

/-- A call of `pipe_write` that is under way but not waiting. -/
structure OpenWrite where
  call : Nat
  pipe : PipeId
  buffer : List UInt8
  put : Nat

/-- A place that is not inside `pipe_write`. -/
def Point.notWriting : Point Proc → Prop
  | .pipeWrite .. => False
  | _ => True

/-- An action, with the call of `pipe_write` that is under way before and after it. -/
inductive Action : WaitState Proc × Option OpenWrite → WaitState Proc × Option OpenWrite → Prop
  | schedule {m : WaitState Proc} {writing : Option OpenWrite} {s : Scheduler (Channel Proc) Proc}
      (awake : NoNewSleeper m.sched s) : Action (m, writing) ({ m with sched := s }, writing)
  | setEnds {m : WaitState Proc} (pipe : PipeId) (readers writers : Pipe → Nat) :
      Action (m, none) (m.modifyPipe pipe fun state =>
        { state with readers := readers state, writers := writers state }, none)
  | move {m : WaitState Proc} {point : Point Proc} (task : Nat) (outside : point.notWriting) :
      Action (m, none) ({ m with point := update m.point task point }, none)
  | take {m : WaitState Proc} {pipe : PipeId} (len : Nat)
      (ready : ¬ ((m.pipes pipe).count = 0 ∧ 0 < (m.pipes pipe).writers)) :
      Action (m, none) (takeAndReturn m pipe len, none)
  | beginWrite {m : WaitState Proc} (pipe : PipeId) (buffer : List UInt8) :
      Action (m, none) ({ m with nextCall := m.nextCall + 1 }, some ⟨m.nextCall, pipe, buffer, 0⟩)
  | store {m : WaitState Proc} {call put : Nat} {pipe : PipeId} {buffer bytes : List UInt8}
      (more : put < buffer.length) (notFull : (m.pipes pipe).count ≠ pipeBufSize)
      (isNext : bytes = (buffer.drop put).take (pipeBufSize - (m.pipes pipe).count)) :
      Action (m, some ⟨call, pipe, buffer, put⟩)
        (storeBytes m call pipe bytes, some ⟨call, pipe, buffer, put + bytes.length⟩)
  | waitWriting {m : WaitState Proc} {call put : Nat} {pipe : PipeId} {buffer : List UInt8}
      (task : Nat) :
      Action (m, some ⟨call, pipe, buffer, put⟩)
        ({ m with point := update m.point task (.pipeWrite call pipe buffer put) }, none)
  | goOnWriting {m : WaitState Proc} {call put task : Nat} {pipe : PipeId} {buffer : List UInt8}
      (place : m.point task = .pipeWrite call pipe buffer put) :
      Action (m, none)
        ({ m with point := update m.point task .running }, some ⟨call, pipe, buffer, put⟩)
  | returnWrite {m : WaitState Proc} {call put : Nat} {pipe : PipeId} {buffer : List UInt8}
      (done : buffer.length ≤ put ∨ (m.pipes pipe).readers = 0) :
      Action (m, some ⟨call, pipe, buffer, put⟩)
        ({ m with
          returns := m.returns ++ [.pipeWrite call pipe buffer put (m.pipes pipe).readers] }, none)
  | abandon {m : WaitState Proc} {writing : OpenWrite} : Action (m, some writing) (m, none)

/-- The result of an operation, if there is one, is reached by actions. -/
def Acts (m : WaitState Proc) (writing : Option OpenWrite) (result : Option (WaitState Proc)) :
    Prop :=
  ∀ m' ∈ result, Relation.ReflTransGen Action (m, writing) (m', none)

section Chains

variable {m m' : WaitState Proc} {writing writing' : Option OpenWrite}
  {result : Option (WaitState Proc)} {next : WaitState Proc → Option (WaitState Proc)}
  {call : Scheduler (Channel Proc) Proc → Option (Scheduler (Channel Proc) Proc)}

theorem Acts.refl (m : WaitState Proc) : Acts m none (some m) := by
  rintro _ ⟨⟩
  exact .refl

theorem Acts.after (first : Action (m, writing) (m', writing')) (second : Acts m' writing' result) :
    Acts m writing result :=
  fun m'' isResult => .head first (second m'' isResult)

theorem Acts.bind (first : Acts m writing result) (second : ∀ m', Acts m' none (next m')) :
    Acts m writing (result.bind next) := by
  intro m'' isResult
  obtain ⟨m', isFirst, isSecond⟩ := Option.bind_eq_some_iff.mp isResult
  exact (first m' isFirst).trans (second m' m'' isSecond)

theorem Acts.onSched (awake : ∀ s s', call s = some s' → NoNewSleeper s s')
    (second : ∀ m', Acts m' writing (next m')) : Acts m writing ((m.onSched call).bind next) := by
  intro m'' isResult
  obtain ⟨m', isFirst, isSecond⟩ := Option.bind_eq_some_iff.mp isResult
  obtain ⟨sched, called, rfl⟩ := Option.map_eq_some_iff.mp isFirst
  exact .head (.schedule (awake _ _ called)) (second _ m'' isSecond)

theorem acts_onSched (awake : ∀ s s', call s = some s' → NoNewSleeper s s') :
    Acts m none (m.onSched call) := by
  have acts : Acts m none ((m.onSched call).bind some) := .onSched awake Acts.refl
  rwa [Option.bind_fun_some] at acts

end Chains

section Operations

variable {m : WaitState Proc} {channel : Channel Proc} {point : Point Proc}

/-- A task moves on with a change of the queues. -/
theorem acts_move {call : Scheduler (Channel Proc) Proc → Option (Scheduler (Channel Proc) Proc)}
    (task : Nat) (awake : ∀ s s', call s = some s' → NoNewSleeper s s') (outside : point.notWriting) :
    Acts m none ((m.onSched call).map fun changed =>
      { changed with point := update m.point task point }) := by
  intro m' isResult
  obtain ⟨changed, isChanged, rfl⟩ := Option.map_eq_some_iff.mp isResult
  obtain ⟨sched, called, rfl⟩ := Option.map_eq_some_iff.mp isChanged
  exact .head (.schedule (awake _ _ called)) (.single (.move task outside))

theorem taskBlockCurrent_noNewSleeper {s s' : Scheduler (Channel Proc) Proc}
    (awake : ∀ slot, channel ≠ .sleepSlot slot) (result : taskBlockCurrent s (some channel) = some s') :
    NoNewSleeper s s' :=
  fun task slot sleeps =>
    (taskBlockCurrent_sleepers result task slot sleeps).resolve_right fun both => awake slot both.2

theorem acts_blockAt (m : WaitState Proc) (awake : ∀ slot, channel ≠ .sleepSlot slot)
    (outside : point.notWriting) : Acts m none (blockAt m channel point) :=
  acts_move _ (fun _ _ => taskBlockCurrent_noNewSleeper awake) outside

theorem acts_wakeTask (m : WaitState Proc) (task : Nat) : Acts m none (wakeTask m task) := by
  refine acts_onSched fun s s' woke => ?_
  unfold taskWakeTask at woke
  split at woke
  · obtain rfl := Option.some.inj woke
    exact .refl s
  · exact wakeFrom_noNewSleeper _ _ _ _ _ _ _ woke

theorem acts_wakeTasks (tasks : List Nat) :
    ∀ m : WaitState Proc, Acts m none (wakeTasks tasks m) := by
  induction tasks with
  | nil => exact .refl
  | cons task tasks ih => exact fun m => .bind (acts_wakeTask m task) ih

variable [DecidableEq Proc]

theorem markReadyFrom_noNewSleeper (process : Proc) (ready rounds : Nat) :
    ∀ task s s', markReadyFrom process ready rounds task s = some s' →
      NoNewSleeper (s : Scheduler (Channel Proc) Proc) s' := by
  induction rounds with
  | zero => exact fun _ _ _ marked => nomatch marked
  | succ rounds ih =>
    intro task s s' marked
    have turn : NoNewSleeper s (markKilled s process task) := by
      unfold markKilled
      split <;> exact .refl s
    rw [markReadyFrom] at marked
    split at marked
    · exact turn.trans (ih _ _ s' marked)
    · obtain rfl := Option.some.inj marked
      exact turn

theorem taskKillBlocked_noNewSleeper {s s' : Scheduler (Channel Proc) Proc} {process : Option Proc}
    (killed : taskKillBlocked s process = some s') : NoNewSleeper s s' := by
  cases process with
  | none =>
    obtain rfl := Option.some.inj killed
    exact .refl s
  | some process =>
    rw [taskKillBlocked] at killed
    split at killed
    · exact nomatch killed
    · next marked isMarked =>
      refine .trans ?_ (wakeFrom_noNewSleeper _ _ _ _ _ _ _ killed)
      split at isMarked
      · obtain rfl := Option.some.inj isMarked
        exact .refl s
      · exact markReadyFrom_noNewSleeper process _ _ _ _ _ isMarked

theorem taskWakeAll_noNewSleeper (s s' : Scheduler (Channel Proc) Proc)
    (woke : taskWakeAll s (some channel) = some s') : NoNewSleeper s s' :=
  wakeFrom_noNewSleeper _ _ _ _ _ _ _ woke

theorem acts_wakeAll (m : WaitState Proc) (channel : Channel Proc) :
    Acts m none (wakeAll m channel) :=
  acts_onSched taskWakeAll_noNewSleeper

theorem acts_pipeCloseRead (m : WaitState Proc) (pipe : PipeId) :
    Acts m none (pipeCloseRead m pipe) := by
  have closes : Action (m, none) (_, none) := .setEnds pipe (fun state => state.readers - 1) Pipe.writers
  unfold pipeCloseRead
  dsimp only
  split
  · exact .after closes (acts_wakeAll _ _)
  · exact .after closes (.refl _)

theorem acts_pipeCloseWrite (m : WaitState Proc) (pipe : PipeId) :
    Acts m none (pipeCloseWrite m pipe) := by
  have closes : Action (m, none) (_, none) := .setEnds pipe Pipe.readers fun state => state.writers - 1
  unfold pipeCloseWrite
  dsimp only
  split
  · exact .after closes (acts_wakeAll _ _)
  · exact .after closes (.refl _)

theorem acts_runCallback (callback : List (CallbackAction Proc)) :
    ∀ m, Acts m none (runCallback callback m) := by
  induction callback with
  | nil => exact .refl
  | cons action actions ih =>
    intro m
    refine .bind ?_ ih
    cases action with
    | pipeCloseRead pipe => exact acts_pipeCloseRead m pipe
    | pipeCloseWrite pipe => exact acts_pipeCloseWrite m pipe
    | taskWakeAll channel => exact acts_wakeAll m channel
    | taskWakeTask task => exact acts_wakeTask m task

variable (callback : List (CallbackAction Proc))

theorem acts_exitCurrent (m : WaitState Proc) : Acts m none (exitCurrent m callback) :=
  .bind (acts_move _ (fun _ _ => taskExit_noNewSleeper) trivial) (acts_runCallback callback)

theorem acts_pipeReadLoop (m : WaitState Proc) (pipe : PipeId) (len : Nat) :
    Acts m none (pipeReadLoop m pipe len callback) := by
  unfold pipeReadLoop blockReader
  split
  · split
    · exact .bind (acts_pipeCloseRead m pipe) (acts_exitCurrent callback)
    · exact acts_blockAt m nofun trivial
  case isFalse ready =>
    refine .bind (.after (.take len ready) ?_) (acts_pipeCloseRead · pipe)
    split
    · exact acts_wakeAll _ _
    · exact .refl _

theorem acts_pipeWriteLoop (turns : Nat) (call : Nat) (pipe : PipeId) (buffer : List UInt8) :
    ∀ m put, Acts m (some ⟨call, pipe, buffer, put⟩)
      (pipeWriteLoop turns m call pipe buffer put callback) := by
  induction turns with
  | zero => exact fun _ _ _ isResult => nomatch isResult
  | succ turns ih =>
    intro m put
    rw [pipeWriteLoop, finishWrite]
    split
    case isTrue done => exact .after (.returnWrite done) (acts_pipeCloseWrite _ pipe)
    case isFalse more =>
      split
      case isTrue =>
        refine .onSched taskWakeAll_noNewSleeper fun m' => ?_
        unfold blockWriter
        split
        · exact .after .abandon (.bind (acts_pipeCloseWrite m' pipe) (acts_exitCurrent callback))
        · intro m'' isResult
          obtain ⟨blocked, isBlocked, rfl⟩ := Option.map_eq_some_iff.mp isResult
          obtain ⟨sched, called, rfl⟩ := Option.map_eq_some_iff.mp isBlocked
          have awake := taskBlockCurrent_noNewSleeper (by simp) called
          exact .head (.schedule awake) (.single (.waitWriting _))
      case isFalse notFull =>
        exact .after (.store (Nat.lt_of_not_le (not_or.mp more).1) notFull rfl)
          (.onSched taskWakeAll_noNewSleeper fun m' => ih m' _)

/-- A task that comes back from a wait; a killed sleeper gives its slot back first. -/
theorem resume_acts (m : WaitState Proc) : Acts m none (resume m callback) ∨
    ∃ slot, resume m callback = exitCurrent (releaseSleepSlot
      { m with point := update m.point m.sched.currentTask .running } slot) callback := by
  have back : Action (m, none)
      ({ m with point := update m.point m.sched.currentTask .running }, none) := .move _ trivial
  unfold resume
  cases place : m.point m.sched.currentTask with
  | running => exact .inl (.refl m)
  | killableWait wait =>
    refine .inl (.after back ?_)
    dsimp only
    split
    · exact acts_exitCurrent callback _
    · exact .refl _
  | pipeRead pipe len =>
    refine .inl (.after back ?_)
    dsimp only
    split
    · exact .bind (acts_pipeCloseRead _ pipe) (acts_exitCurrent callback)
    · exact acts_pipeReadLoop callback _ pipe len
  | pipeWrite call pipe buffer put =>
    refine .inl (.after (.goOnWriting place) ?_)
    dsimp only
    split
    · exact .after .abandon (.bind (acts_pipeCloseWrite _ pipe) (acts_exitCurrent callback))
    · exact acts_pipeWriteLoop callback _ call pipe buffer _ put
  | timerSleep slot =>
    dsimp only
    split
    · exact .inr ⟨slot, rfl⟩
    · exact .inl (.after back (.refl _))

/-- What `timer_callback` does after the sleepers have been woken. -/
theorem timerCallback_acts {m' : WaitState Proc} {alarmed : List Nat}
    (ticked : timerCallback m alarmed callback = some m') :
    ∃ woken, wakeSleepers (List.finRange 16) { m with timerTicks := (m.timerTicks + 1) % 2 ^ 32 } =
      some woken ∧ Acts woken none (some m') := by
  obtain ⟨woken, isWoken, ended⟩ := Option.bind_eq_some_iff.mp ticked
  refine ⟨woken, isWoken, ?_⟩
  rw [← ended]
  split
  · exact acts_exitCurrent callback woken
  · refine .bind (acts_wakeTasks alarmed woken) fun m => acts_onSched fun s s' scheduled => ?_
    obtain rfl := Option.some.inj scheduled
    exact schedule_noNewSleeper s

omit callback

/-- The operations that are chains of actions. -/
theorem perform_acts {op : WaitOp Proc} (notSleep : ∀ ticks callback, op ≠ .timerSleep ticks callback)
    (notTick : ∀ alarmed callback, op ≠ .timerTick alarmed callback)
    (notResume : ∀ callback, op ≠ .resume callback) : Acts m none (perform m op) := by
  cases op with
  | pipeRead pipe len callback =>
    change Acts m none (pipeRead m pipe len callback)
    unfold pipeRead
    split
    · exact .refl m
    · exact .after (.setEnds pipe (fun state => state.readers + 1) Pipe.writers)
        (acts_pipeReadLoop callback _ pipe len)
  | pipeWrite pipe buffer callback =>
    change Acts m none (pipeWrite m pipe buffer callback)
    unfold pipeWrite
    split
    · exact .refl m
    · exact .after (.setEnds pipe Pipe.readers fun state => state.writers + 1)
        (.after (.beginWrite pipe buffer) (acts_pipeWriteLoop callback _ _ pipe buffer _ 0))
  | pipeRefRead pipe =>
    exact .after (.setEnds pipe (fun state => state.readers + 1) Pipe.writers) (.refl _)
  | pipeRefWrite pipe =>
    exact .after (.setEnds pipe Pipe.readers fun state => state.writers + 1) (.refl _)
  | pipeCloseRead pipe => exact acts_pipeCloseRead m pipe
  | pipeCloseWrite pipe => exact acts_pipeCloseWrite m pipe
  | wait wait callback =>
    change Acts m none (taskBlockKillable m wait callback)
    unfold taskBlockKillable
    split
    · exact acts_exitCurrent callback m
    · exact acts_blockAt m (fun slot => by cases wait <;> exact nofun) trivial
  | timerSleep ticks callback => exact absurd rfl (notSleep ticks callback)
  | taskWakeOne channel => exact acts_onSched fun _ _ woke => wakeFrom_noNewSleeper _ _ _ _ _ _ _ woke
  | taskWakeAll channel => exact acts_wakeAll m channel
  | taskWakeTask task => exact acts_wakeTask m task
  | processRequestKill process => exact acts_onSched fun _ _ => taskKillBlocked_noNewSleeper
  | createTask entry addressSpace process newTask stack =>
    have outside : (Point.running : Point Proc).notWriting := trivial
    exact .after (.schedule (createTask_noNewSleeper m.sched entry addressSpace process newTask stack))
      (.after (.move newTask outside) (.refl _))
  | taskExit callback => exact acts_exitCurrent callback m
  | timerTick alarmed callback => exact absurd rfl (notTick alarmed callback)
  | resume callback => exact absurd rfl (notResume callback)

end Operations

end MiniOS.Waits
