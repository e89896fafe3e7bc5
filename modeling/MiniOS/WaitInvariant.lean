import MiniOS.WaitMachine

/-!
# What holds while tasks wait

A blocked task is never marked for termination, and a task blocked on a channel of
a pipe still has reason to wait.  The second fact fails in the middle of an
operation, between the change of a pipe and the wake-up that follows, so the
invariant names the channels that are exempt at a point.
-/

namespace MiniOS.Waits

open Function Kernel Tasks

variable {Proc : Type*} {idle : Nat} {m : WaitState Proc}
  {exempt : Set (Channel Proc)}

def Condition (pipes : PipeId → Pipe) : Channel Proc → Prop
  | .pipeCount pipe => (pipes pipe).count = 0 ∧ 0 < (pipes pipe).writers
  | .pipeReadPos pipe => (pipes pipe).count = pipeBufSize ∧ 0 < (pipes pipe).readers
  | _ => True

/-- The invariant with the lists of the scheduler. -/
structure Waiting (idle : Nat) (exempt : Set (Channel Proc)) (m : WaitState Proc)
    (ring blocked : List Nat) : Prop where
  structured : Structured idle m.sched ring blocked
  unflagged : ∀ task ∈ blocked, m.sched.killPending task = false
  idleSpared : m.sched.killPending idle = false ∧ m.sched.process idle = none
  idleRuns : m.point idle = .running
  pipesValid : ∀ pipe, (m.pipes pipe).Valid
  condition : ∀ task ∈ blocked, ∀ channel ∈ m.sched.waitChannel task,
    channel ∉ exempt → Condition m.pipes channel

def WaitsSound (idle : Nat) (exempt : Set (Channel Proc)) (m : WaitState Proc) : Prop :=
  ∃ ring blocked, Waiting idle exempt m ring blocked

structure Tracks (s s' : Scheduler (Channel Proc) Proc) : Prop where
  tasks : ∀ task ∈ s'.tasks, task ∈ s.tasks
  flags : ∀ task ∈ s'.tasks, s.killPending task = true → s'.killPending task = true

/-- Nothing but wake-ups happened: the same tasks with the same marks. -/
structure Calm (s s' : Scheduler (Channel Proc) Proc) : Prop where
  keeps : KeepsTasks s s'
  killPending : s'.killPending = s.killPending

theorem Calm.refl (s : Scheduler (Channel Proc) Proc) : Calm s s :=
  ⟨KeepsTasks.refl s, rfl⟩

variable {s s' : Scheduler (Channel Proc) Proc} {m' m'' : WaitState Proc} {pipe : PipeId}

variable {s'' : Scheduler (Channel Proc) Proc}

theorem Calm.trans (first : Calm s s') (second : Calm s' s'') : Calm s s'' :=
  ⟨first.keeps.trans second.keeps, second.killPending.trans first.killPending⟩

theorem Calm.tracks (calm : Calm s s') : Tracks s s' where
  tasks := by simp [calm.keeps.tasks]
  flags := by simp [calm.killPending]

theorem Tracks.trans (first : Tracks s s') (second : Tracks s' s'') : Tracks s s'' where
  tasks := fun task member => first.tasks task (second.tasks task member)
  flags := fun task member flag =>
    second.flags task member (first.flags task (second.tasks task member) flag)

section Exempt

variable (sound : WaitsSound idle exempt m)

include sound

theorem WaitsSound.valid (pipe : PipeId) : (m.pipes pipe).Valid := by
  obtain ⟨ring, blocked, waiting⟩ := sound
  exact waiting.pipesValid pipe

theorem WaitsSound.idleRuns : m.point idle = .running := by
  obtain ⟨ring, blocked, waiting⟩ := sound
  exact waiting.idleRuns

theorem WaitsSound.of_sched {exempt' : Set (Channel Proc)} (sched : m'.sched = m.sched)
    (point : m'.point idle = .running) (valid : ∀ pipe, (m'.pipes pipe).Valid)
    (condition : ∀ channel, channel ∉ exempt' → channel ∉ exempt ∧ (Condition m.pipes channel → Condition m'.pipes channel)) :
    WaitsSound idle exempt' m' := by
  obtain ⟨ring, blocked, waiting⟩ := sound
  refine ⟨ring, blocked, ?_, ?_, ?_, point, valid, ?_⟩ <;> rw [sched]
  · exact waiting.structured
  · exact waiting.unflagged
  · exact waiting.idleSpared
  · intro task member channel waitsOn notExempt
    obtain ⟨notBefore, carry⟩ := condition channel notExempt
    exact carry (waiting.condition task member channel waitsOn notBefore)

/-- A change of fields that the invariant does not read. -/
theorem WaitsSound.of_fields (sched : m'.sched = m.sched) (point : m'.point idle = .running)
    (pipes : m'.pipes = m.pipes) : WaitsSound idle exempt m' := by
  refine sound.of_sched sched point ?_ fun channel notExempt => ⟨notExempt, fun before => ?_⟩
  · rw [pipes]
    exact sound.valid
  · rwa [pipes]

/-- The wake-up functions that mark nobody. -/
theorem WaitsSound.wake (selects : Option (Channel Proc) → Option Proc → Nat → Bool) (once : Bool) :
    ∃ m', m.onSched (fun s => wakeFrom selects once false s.tasks.length none s) = some m' ∧
      m' = { m with sched := m'.sched } ∧ WaitsSound idle exempt m' ∧ Calm m.sched m'.sched ∧
      (once = false → (∀ channel ∈ exempt, ∀ process task,
        selects (some channel) process task = true) → WaitsSound idle ∅ m') := by
  obtain ⟨ring, blocked, waiting⟩ := sound
  obtain ⟨sched, ring', woken, left, result, structured, wakes⟩ :=
    waiting.structured.wakeFrom selects once false
  have killPending : sched.killPending = m.sched.killPending := by
    funext task
    simpa using wakes.killed task
  have process : sched.process = m.sched.process := wakes.keeps.process
  have leftBlocked : ∀ task ∈ left, task ∈ blocked := fun task member => wakes.order.subset member
  have sameChannel := wakes.left_channel waiting.structured.blockedDistinct
  have base : ∀ exempt', (∀ task ∈ left, ∀ channel ∈ m.sched.waitChannel task,
      channel ∉ exempt' → channel ∉ exempt) →
      Waiting idle exempt' { m with sched := sched } ring' left := by
    intro exempt' smaller
    exact {
      structured := structured
      unflagged := fun task member => by
        rw [killPending]
        exact waiting.unflagged task (leftBlocked task member)
      idleSpared := by
        rw [killPending, process]
        exact waiting.idleSpared
      idleRuns := waiting.idleRuns
      pipesValid := waiting.pipesValid
      condition := by
        intro task member channel waitsOn notExempt
        rw [sameChannel task member] at waitsOn
        exact waiting.condition task (leftBlocked task member) channel waitsOn
          (smaller task member channel waitsOn notExempt) }
  refine ⟨{ m with sched := sched }, ?_, rfl, ⟨ring', left, base exempt fun _ _ _ _ h => h⟩,
    ⟨wakes.keeps, killPending⟩, fun all covers => ⟨ring', left, base ∅ ?_⟩⟩
  · simp only [WaitState.onSched, result, Option.map_some]
  · intro task member channel waitsOn _ inExempt
    have passed := wakes.complete all task member
    rw [picks, Option.mem_def.mp waitsOn, covers channel inExempt] at passed
    contradiction

end Exempt

theorem WaitsSound.weaken (sound : WaitsSound idle ∅ m) (exempt : Set (Channel Proc)) :
    WaitsSound idle exempt m := by
  obtain ⟨ring, blocked, waiting⟩ := sound
  exact ⟨ring, blocked, { waiting with
    condition := fun task member channel waitsOn _ =>
      waiting.condition task member channel waitsOn (Set.notMem_empty channel) }⟩

structure Woken (idle : Nat) (exempt : Set (Channel Proc)) (m m' : WaitState Proc) : Prop where
  same : m' = { m with sched := m'.sched }
  sound : WaitsSound idle exempt m'
  calm : Calm m.sched m'.sched

theorem WaitsSound.wakeTask (sound : WaitsSound idle ∅ m) (task : Nat) :
    ∃ m', wakeTask m task = some m' ∧ Woken idle ∅ m m' := by
  by_cases null : task = 0
  · subst null
    refine ⟨m, ?_, rfl, sound, Calm.refl _⟩
    simp [Waits.wakeTask, WaitState.onSched, taskWakeTask_null]
  · obtain ⟨m', result, same, kept, calm, -⟩ :=
      sound.wake (fun _ _ waiting => decide (waiting = task)) true
    refine ⟨m', ?_, same, kept, calm⟩
    simpa only [Waits.wakeTask, WaitState.onSched, taskWakeTask, if_neg null] using result

/-- A change of one pipe, up to the channels of that pipe whose condition may fail. -/
theorem WaitsSound.modifyPipe (sound : WaitsSound idle ∅ m) {change : Pipe → Pipe}
    (valid : (change (m.pipes pipe)).Valid)
    (count : Channel.pipeCount pipe ∉ exempt → Condition m.pipes (.pipeCount pipe : Channel Proc) →
      (change (m.pipes pipe)).count = 0 ∧ 0 < (change (m.pipes pipe)).writers)
    (readPos : Channel.pipeReadPos pipe ∉ exempt →
      Condition m.pipes (.pipeReadPos pipe : Channel Proc) → (change (m.pipes pipe)).count = pipeBufSize ∧ 0 < (change (m.pipes pipe)).readers) :
    WaitsSound idle exempt (m.modifyPipe pipe change) := by
  have allValid : ∀ other, ((m.modifyPipe pipe change).pipes other).Valid := by
    intro other
    by_cases same : other = pipe
    · subst same
      simpa [WaitState.modifyPipe] using valid
    · simpa [WaitState.modifyPipe, update_of_ne same] using sound.valid other
  refine sound.of_sched rfl sound.idleRuns allValid fun channel notExempt =>
    ⟨Set.notMem_empty _, fun before => ?_⟩
  cases channel with
  | pipeCount other =>
    by_cases same : other = pipe
    · subst same
      simpa [Condition, WaitState.modifyPipe] using count notExempt before
    · simpa [Condition, WaitState.modifyPipe, update_of_ne same] using before
  | pipeReadPos other =>
    by_cases same : other = pipe
    · subst same
      simpa [Condition, WaitState.modifyPipe] using readPos notExempt before
    · simpa [Condition, WaitState.modifyPipe, update_of_ne same] using before
  | _ => trivial

structure Settled (idle : Nat) (m m' : WaitState Proc) : Prop where
  point : m'.point = m.point
  sound : WaitsSound idle ∅ m'
  calm : Calm m.sched m'.sched

theorem Settled.trans (first : Settled idle m m')
    (second : Settled idle m' m'') : Settled idle m m'' :=
  ⟨second.point.trans first.point, second.sound, first.calm.trans second.calm⟩

theorem Woken.settled (woken : Woken idle ∅ m m') : Settled idle m m' :=
  ⟨by rw [woken.same], woken.sound, woken.calm⟩

/-- The numbers of ends have no part in the validity of the buffer. -/
theorem valid_of_ends {pipe : Pipe} (valid : pipe.Valid) (readers writers : Nat) :
    { pipe with readers := readers, writers := writers }.Valid :=
  { valid with }

theorem WaitsSound.pipeRefRead (sound : WaitsSound idle ∅ m) (pipe : PipeId) :
    Settled idle m (pipeRefRead m pipe) := by
  refine ⟨rfl, sound.modifyPipe (valid_of_ends (sound.valid pipe) _ _) (fun _ before => before) ?_, Calm.refl _⟩
  exact fun _ before => ⟨before.1, Nat.succ_pos _⟩

theorem WaitsSound.pipeRefWrite (sound : WaitsSound idle ∅ m) (pipe : PipeId) :
    Settled idle m (pipeRefWrite m pipe) := by
  refine ⟨rfl, sound.modifyPipe (valid_of_ends (sound.valid pipe) _ _) ?_ (fun _ before => before), Calm.refl _⟩
  exact fun _ before => ⟨before.1, Nat.succ_pos _⟩

structure Ended (s s' : Scheduler (Channel Proc) Proc) : Prop where
  tasks : s'.tasks = s.tasks.erase s.currentTask
  exits : s'.exits = s.exits ++ [(s.currentTask, s.stackBottom s.currentTask)]
  killPending : s'.killPending = s.killPending

theorem Ended.tracks (ended : Ended s s') : Tracks s s' where
  tasks := by
    intro task member
    rw [ended.tasks] at member
    exact List.mem_of_mem_erase member
  flags := by simp [ended.killPending]

structure Left (idle : Nat) (m m' : WaitState Proc) : Prop where
  sound : WaitsSound idle ∅ m'
  ended : Ended m.sched m'.sched

variable {channel : Channel Proc}

/-- Blocking on a channel whose condition holds. -/
theorem WaitsSound.blockAt (sound : WaitsSound idle ∅ m)
    (notIdle : m.sched.currentTask ≠ idle) (notKilled : m.killPending = false)
    (condition : Condition m.pipes channel) (point : Point Proc) :
    ∃ m', blockAt m channel point = some m' ∧ WaitsSound idle ∅ m' ∧ Tracks m.sched m'.sched := by
  obtain ⟨ring, blocked, waiting⟩ := sound
  obtain ⟨sched, ring', result, structured, blocks⟩ :=
    waiting.structured.taskBlockCurrent (some channel) notIdle
  refine ⟨{ m with
      sched := sched
      point := update m.point m.sched.currentTask point }, ?_, ?_, ?_⟩
  · simp only [Waits.blockAt, WaitState.onSched, result, Option.map_some]
  · refine ⟨ring', blocked ++ [m.sched.currentTask], structured, ?_, ?_, ?_, waiting.pipesValid, ?_⟩
    · intro task member
      rw [blocks.killPending]
      rcases List.mem_append.mp member with old | new
      · exact waiting.unflagged task old
      · rw [List.mem_singleton.mp new]
        exact notKilled
    · rw [blocks.killPending, blocks.process]
      exact waiting.idleSpared
    · simp only [update_of_ne notIdle.symm]
      exact waiting.idleRuns
    · intro task member other waitsOn _
      simp only [blocks.waitChannel] at waitsOn
      by_cases same : task = m.sched.currentTask
      · rw [same, update_self] at waitsOn
        cases waitsOn
        exact condition
      · rw [update_of_ne same] at waitsOn
        refine waiting.condition task ?_ other waitsOn (Set.notMem_empty _)
        simpa [same] using member
  · exact ⟨by simp [blocks.tasks], by simp [blocks.killPending]⟩

structure Stepped (idle : Nat) (m m' : WaitState Proc) : Prop where
  sound : WaitsSound idle ∅ m'
  tracks : Tracks m.sched m'.sched

theorem Left.stepped (left : Left idle m m') : Stepped idle m m' :=
  ⟨left.sound, left.ended.tracks⟩

theorem Settled.stepped (settled : Settled idle m m') : Stepped idle m m' :=
  ⟨settled.sound, settled.calm.tracks⟩

theorem Settled.then (first : Settled idle m m')
    (second : Stepped idle m' m'') : Stepped idle m m'' :=
  ⟨second.sound, first.calm.tracks.trans second.tracks⟩

/-- An exit after some pipes were closed is an exit of the same task. -/
theorem Settled.left (first : Settled idle m m') (second : Left idle m' m'') : Left idle m m'' := by
  refine ⟨second.sound, ?_, ?_, ?_⟩
  · rw [second.ended.tasks, first.calm.keeps.tasks, first.calm.keeps.currentTask]
  · rw [second.ended.exits, first.calm.keeps.exits, first.calm.keeps.currentTask,
      first.calm.keeps.stackBottom]
  · rw [second.ended.killPending, first.calm.killPending]

theorem Settled.notIdle (settled : Settled idle m m')
    (notIdle : m.sched.currentTask ≠ idle) : m'.sched.currentTask ≠ idle := by
  rwa [settled.calm.keeps.currentTask]

variable {closing : Option (WaitState Proc)} {channel : Channel Proc} {point : Point Proc}

/-- A killable wait: the task leaves if it is marked and blocks otherwise. -/
theorem WaitsSound.leaveOrBlock (sound : WaitsSound idle ∅ m)
    (notIdle : m.sched.currentTask ≠ idle) (condition : Condition m.pipes channel)
    (leaves : ∃ m', closing = some m' ∧ Left idle m m') :
    ∃ m', (if m.killPending then closing else Waits.blockAt m channel point) = some m' ∧
      Stepped idle m m' := by
  cases killed : m.killPending with
  | true =>
    obtain ⟨m', result, left⟩ := leaves
    exact ⟨m', result, left.stepped⟩
  | false =>
    obtain ⟨m', result, blocked, tracks⟩ := sound.blockAt notIdle killed condition point
    exact ⟨m', result, blocked, tracks⟩

/-- The bytes that one turn of `pipe_write` stores. -/
theorem turn_length {buffer : List UInt8} {put count : Nat} (valid : count ≤ pipeBufSize)
    (room : count ≠ pipeBufSize) (more : put < buffer.length) :
    0 < ((buffer.drop put).take (pipeBufSize - count)).length ∧
      count + ((buffer.drop put).take (pipeBufSize - count)).length ≤ pipeBufSize := by
  rw [List.length_take, List.length_drop]
  omega

section Operations

variable [DecidableEq Proc]

/-- `task_wake_all` settles the channel that it is called for. -/
theorem WaitsSound.wakeAll (sound : WaitsSound idle {channel} m) :
    ∃ m', wakeAll m channel = some m' ∧ Woken idle ∅ m m' := by
  obtain ⟨m', result, same, -, calm, settled⟩ :=
    sound.wake (fun waitChannel _ _ => decide (waitChannel = some channel)) false
  refine ⟨m', result, same, settled rfl ?_, calm⟩
  rintro other rfl process task
  simp

/-- A wake-up that follows a change of a pipe. -/
theorem WaitsSound.wakeAll_settled (sound : WaitsSound idle {channel} m')
    (sched : m'.sched = m.sched) (point : m'.point = m.point) :
    ∃ m'', Waits.wakeAll m' channel = some m'' ∧ Settled idle m m'' := by
  obtain ⟨m'', result, woken⟩ := sound.wakeAll
  exact ⟨m'', result, woken.settled.point.trans point, woken.sound, sched ▸ woken.calm⟩

variable (sound : WaitsSound idle ∅ m)

include sound

theorem WaitsSound.wakeAll_any (channel : Channel Proc) :
    ∃ m', Waits.wakeAll m channel = some m' ∧ Woken idle ∅ m m' :=
  (sound.weaken {channel}).wakeAll

theorem WaitsSound.wakeOne (channel : Channel Proc) :
    ∃ m', wakeOne m channel = some m' ∧ Woken idle ∅ m m' := by
  obtain ⟨m', result, same, kept, calm, -⟩ :=
    sound.wake (fun waitChannel _ _ => decide (waitChannel = some channel)) true
  exact ⟨m', result, same, kept, calm⟩

theorem WaitsSound.pipeCloseRead (pipe : PipeId) :
    ∃ m', pipeCloseRead m pipe = some m' ∧ Settled idle m m' := by
  unfold Waits.pipeCloseRead
  simp only
  split
  case isTrue last =>
    have changed : WaitsSound idle {.pipeReadPos pipe}
        (m.modifyPipe pipe fun state => { state with readers := state.readers - 1 }) :=
      sound.modifyPipe (valid_of_ends (sound.valid pipe) _ _) (fun _ before => before)
        fun notExempt => absurd rfl notExempt
    exact changed.wakeAll_settled rfl rfl
  case isFalse more =>
    simp only [WaitState.modifyPipe, update_self] at more
    refine ⟨_, rfl, rfl, sound.modifyPipe (valid_of_ends (sound.valid pipe) _ _) (fun _ before => before) ?_, Calm.refl _⟩
    intro _ before
    exact ⟨before.1, Nat.pos_of_ne_zero more⟩

theorem WaitsSound.pipeCloseWrite (pipe : PipeId) :
    ∃ m', pipeCloseWrite m pipe = some m' ∧ Settled idle m m' := by
  unfold Waits.pipeCloseWrite
  simp only
  split
  case isTrue last =>
    have changed : WaitsSound idle {.pipeCount pipe}
        (m.modifyPipe pipe fun state => { state with writers := state.writers - 1 }) :=
      sound.modifyPipe (valid_of_ends (sound.valid pipe) _ _)
        (fun notExempt => absurd rfl notExempt) fun _ before => before
    exact changed.wakeAll_settled rfl rfl
  case isFalse more =>
    simp only [WaitState.modifyPipe, update_self] at more
    refine ⟨_, rfl, rfl, sound.modifyPipe (valid_of_ends (sound.valid pipe) _ _) ?_ (fun _ before => before), Calm.refl _⟩
    intro _ before
    exact ⟨before.1, Nat.pos_of_ne_zero more⟩

theorem WaitsSound.runCallback (callback : List (CallbackAction Proc)) :
    ∃ m', runCallback callback m = some m' ∧ Settled idle m m' := by
  induction callback generalizing m with
  | nil => exact ⟨m, rfl, rfl, sound, Calm.refl _⟩
  | cons action actions ih =>
    obtain ⟨m₁, first, settled₁⟩ : ∃ m₁, callbackAction m action = some m₁ ∧ Settled idle m m₁ := by
      cases action with
      | pipeCloseRead pipe => exact sound.pipeCloseRead pipe
      | pipeCloseWrite pipe => exact sound.pipeCloseWrite pipe
      | taskWakeAll channel =>
        obtain ⟨m₁, result, woken⟩ := sound.wakeAll_any channel
        exact ⟨m₁, result, woken.settled⟩
      | taskWakeTask task =>
        obtain ⟨m₁, result, woken⟩ := sound.wakeTask task
        exact ⟨m₁, result, woken.settled⟩
    obtain ⟨m', rest, settled'⟩ := ih settled₁.sound
    refine ⟨m', ?_, settled₁.trans settled'⟩
    rw [Waits.runCallback, first, Option.bind_some, rest]

theorem WaitsSound.storeBytes {bytes : List UInt8}
    (room : (m.pipes pipe).count + bytes.length ≤ pipeBufSize)
    (notFull : (m.pipes pipe).count ≠ pipeBufSize) (call : Nat) :
    ∃ m', Waits.wakeAll (storeBytes m call pipe bytes) (.pipeCount pipe) = some m' ∧
      Settled idle m m' := by
  have modified : WaitsSound idle {.pipeCount pipe} (m.modifyPipe pipe (pipePut bytes)) :=
    sound.modifyPipe ((sound.valid pipe).pipePut room).1 (fun notExempt => absurd rfl notExempt)
      fun _ before => absurd before.1 notFull
  have changed : WaitsSound idle {.pipeCount pipe} (Waits.storeBytes m call pipe bytes) :=
    modified.of_fields rfl modified.idleRuns rfl
  exact changed.wakeAll_settled rfl rfl

theorem WaitsSound.finishWrite (call : Nat) (pipe : PipeId) (buffer : List UInt8) (put : Nat) :
    ∃ m', finishWrite m call pipe buffer put = some m' ∧ Settled idle m m' := by
  have recorded : WaitsSound idle ∅
      { m with
        returns := m.returns ++ [.pipeWrite call pipe buffer put (m.pipes pipe).readers] } :=
    sound.of_fields rfl sound.idleRuns rfl
  obtain ⟨m', result, settled⟩ := recorded.pipeCloseWrite pipe
  exact ⟨m', result, settled.point, settled.sound, settled.calm⟩

variable (notIdle : m.sched.currentTask ≠ idle) (callback : List (CallbackAction Proc))

include notIdle

theorem WaitsSound.exitCurrent :
    ∃ m', exitCurrent m callback = some m' ∧ Left idle m m' := by
  obtain ⟨ring, blocked, waiting⟩ := sound
  obtain ⟨sched, ring', result, structured, exits⟩ := waiting.structured.taskExit notIdle
  have retired : WaitsSound idle ∅
      { m with
        sched := sched
        point := update m.point m.sched.currentTask .running } := by
    refine ⟨ring', blocked, structured, ?_, ?_, ?_, waiting.pipesValid, ?_⟩
    · rw [exits.killPending]
      exact waiting.unflagged
    · rw [exits.killPending, exits.process]
      exact waiting.idleSpared
    · simp only [update_of_ne notIdle.symm]
      exact waiting.idleRuns
    · rw [exits.waitChannel]
      exact waiting.condition
  obtain ⟨m', rest, settled⟩ := retired.runCallback callback
  refine ⟨m', ?_, settled.sound, ?_, ?_, ?_⟩
  · simp only [Waits.exitCurrent, WaitState.onSched, result, Option.map_some, Option.bind_some]
    exact rest
  · rw [settled.calm.keeps.tasks, exits.tasks]
  · rw [settled.calm.keeps.exits, exits.exits]
  · rw [settled.calm.killPending, exits.killPending]

omit sound notIdle in
/-- The kill path of a pipe operation: give the end back, then exit. -/
theorem exit_after_close (closed : ∃ m', closing = some m' ∧ Settled idle m m')
    (notIdle : m.sched.currentTask ≠ idle) :
    ∃ m', closing.bind (Waits.exitCurrent · callback) = some m' ∧ Left idle m m' := by
  obtain ⟨m₁, closed, settled⟩ := closed
  obtain ⟨m', exited, left⟩ := settled.sound.exitCurrent (settled.notIdle notIdle) callback
  refine ⟨m', ?_, settled.left left⟩
  rw [closed, Option.bind_some, exited]

theorem WaitsSound.taskBlockKillable (wait : KillableWait Proc) :
    ∃ m', taskBlockKillable m wait callback = some m' ∧ Stepped idle m m' :=
  sound.leaveOrBlock notIdle (by cases wait <;> trivial) (sound.exitCurrent notIdle callback)

theorem WaitsSound.blockReader (condition : Condition m.pipes (.pipeCount pipe : Channel Proc))
    (len : Nat) :
    ∃ m', blockReader m pipe len callback = some m' ∧ Stepped idle m m' :=
  sound.leaveOrBlock notIdle condition
    (exit_after_close callback (sound.pipeCloseRead pipe) notIdle)

theorem WaitsSound.blockWriter (condition : Condition m.pipes (.pipeReadPos pipe : Channel Proc))
    (call : Nat) (buffer : List UInt8) (put : Nat) :
    ∃ m', blockWriter m call pipe buffer put callback = some m' ∧ Stepped idle m m' :=
  sound.leaveOrBlock notIdle condition
    (exit_after_close callback (sound.pipeCloseWrite pipe) notIdle)

theorem WaitsSound.pipeReadLoop (pipe : PipeId) (len : Nat) :
    ∃ m', pipeReadLoop m pipe len callback = some m' ∧ Stepped idle m m' := by
  unfold Waits.pipeReadLoop
  split
  case isTrue condition => exact sound.blockReader notIdle callback condition len
  case isFalse goesOn =>
    have valid := (sound.valid pipe).pipeTake (Nat.min_le_right len (m.pipes pipe).count)
    obtain ⟨m₁, woke, settled⟩ : ∃ m₁, (if 0 < min len (m.pipes pipe).count then
          Waits.wakeAll (takeAndReturn m pipe len) (.pipeReadPos pipe)
        else some (takeAndReturn m pipe len)) = some m₁ ∧ Settled idle m m₁ := by
      split
      case isTrue some =>
        have changed : WaitsSound idle {.pipeReadPos pipe} (takeAndReturn m pipe len) := by
          have modified : WaitsSound idle {.pipeReadPos pipe} (m.modifyPipe pipe fun _ =>
              (pipeTake (min len (m.pipes pipe).count) (m.pipes pipe)).2) :=
            sound.modifyPipe valid.1 (fun _ before => absurd before goesOn)
              fun notExempt => absurd rfl notExempt
          exact modified.of_fields rfl modified.idleRuns rfl
        exact changed.wakeAll_settled rfl rfl
      case isFalse nothing =>
        have unchanged : (pipeTake (min len (m.pipes pipe).count) (m.pipes pipe)).2 =
            m.pipes pipe := by
          rw [Nat.eq_zero_of_not_pos nothing]
          rfl
        refine ⟨_, rfl, rfl, sound.of_fields rfl sound.idleRuns ?_, Calm.refl _⟩
        simp only [takeAndReturn, WaitState.modifyPipe, unchanged, update_eq_self]
    obtain ⟨m', closed, settled'⟩ := settled.sound.pipeCloseRead pipe
    refine ⟨m', ?_, (settled.trans settled').stepped⟩
    simp only [woke, Option.bind_some]
    exact closed

theorem WaitsSound.pipeWriteLoop (call : Nat) (pipe : PipeId) (buffer : List UInt8) (put : Nat)
    {turns : Nat} (enough : buffer.length - put < turns) :
    ∃ m', pipeWriteLoop turns m call pipe buffer put callback = some m' ∧ Stepped idle m m' := by
  induction turns generalizing m put with
  | zero => omega
  | succ turns ih =>
    rw [Waits.pipeWriteLoop]
    by_cases done : buffer.length ≤ put ∨ (m.pipes pipe).readers = 0
    · rw [if_pos done]
      obtain ⟨m', result, settled⟩ := sound.finishWrite call pipe buffer put
      exact ⟨m', result, settled.stepped⟩
    rw [if_neg done]
    simp only [not_or, not_le] at done
    by_cases full : (m.pipes pipe).count = pipeBufSize
    · rw [if_pos full]
      obtain ⟨m₁, woke, woken⟩ := sound.wakeAll_any (.pipeCount pipe)
      have samePipes : m₁.pipes = m.pipes := by rw [woken.same]
      have condition : Condition m₁.pipes (.pipeReadPos pipe : Channel Proc) := by
        rw [samePipes]
        exact ⟨full, Nat.pos_of_ne_zero done.2⟩
      obtain ⟨m', result, stepped⟩ := woken.sound.blockWriter (woken.settled.notIdle notIdle)
        callback condition call buffer put
      refine ⟨m', ?_, woken.settled.then stepped⟩
      rw [woke, Option.bind_some, result]
    · rw [if_neg full]
      obtain ⟨some, room⟩ := turn_length (sound.valid pipe).count full done.1
      obtain ⟨m₁, woke, settled⟩ := sound.storeBytes room full call
      obtain ⟨m', result, stepped⟩ := ih settled.sound (settled.notIdle notIdle) _
        (by omega : buffer.length - (put +
          ((buffer.drop put).take (pipeBufSize - (m.pipes pipe).count)).length) < turns)
      refine ⟨m', ?_, settled.then stepped⟩
      simp only [woke, Option.bind_some]
      exact result

theorem WaitsSound.pipeRead (pipe : PipeId) (len : Nat) :
    ∃ m', pipeRead m pipe len callback = some m' ∧ Stepped idle m m' := by
  unfold Waits.pipeRead
  split
  · exact ⟨m, rfl, sound, (Calm.refl _).tracks⟩
  · have settled := sound.pipeRefRead pipe
    obtain ⟨m', result, stepped⟩ := settled.sound.pipeReadLoop notIdle callback pipe len
    exact ⟨m', result, settled.then stepped⟩

theorem WaitsSound.pipeWrite (pipe : PipeId) (buffer : List UInt8) :
    ∃ m', pipeWrite m pipe buffer callback = some m' ∧ Stepped idle m m' := by
  unfold Waits.pipeWrite
  split
  · exact ⟨m, rfl, sound, (Calm.refl _).tracks⟩
  · have settled := sound.pipeRefWrite pipe
    have numbered : WaitsSound idle ∅
        { Waits.pipeRefWrite m pipe with nextCall := m.nextCall + 1 } :=
      settled.sound.of_fields rfl settled.sound.idleRuns rfl
    obtain ⟨m', result, stepped⟩ := numbered.pipeWriteLoop notIdle callback m.nextCall pipe buffer 0
      (by simp [writeTurns] : buffer.length - 0 < writeTurns buffer)
    exact ⟨m', result, stepped.sound, stepped.tracks⟩

theorem WaitsSound.timerSleep (ticks : Nat) :
    ∃ m', timerSleep m ticks callback = some m' ∧ Stepped idle m m' := by
  unfold Waits.timerSleep
  split
  · exact ⟨m, rfl, sound, (Calm.refl _).tracks⟩
  cases killed : m.killPending with
  | true =>
    obtain ⟨m', result, left⟩ := sound.exitCurrent notIdle callback
    exact ⟨m', result, left.stepped⟩
  | false =>
    simp only [Bool.false_eq_true, if_false]
    split
    · exact ⟨m, rfl, sound, (Calm.refl _).tracks⟩
    case h_2 slot _ =>
      have taken : WaitsSound idle ∅
          { m with
            sleepingTasks := update m.sleepingTasks slot
              (some (m.sched.currentTask, (m.timerTicks + ticks) % 2 ^ 32)) } :=
        sound.of_fields rfl sound.idleRuns rfl
      have condition : Condition m.pipes (.sleepSlot slot : Channel Proc) := trivial
      obtain ⟨m', result, blocked, tracks⟩ :=
        taken.blockAt notIdle killed condition (.timerSleep slot)
      exact ⟨m', result, blocked, tracks⟩

end Operations

end MiniOS.Waits
