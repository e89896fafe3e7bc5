import MiniOS.WaitActions
import MiniOS.WaitRun

/-!
# Pipes are queues

Along every run the bytes that reads of a pipe returned, followed by the bytes in
its buffer, are the bytes that writes stored in it, in order.  Each call of
`pipe_write` has stored a prefix of its buffer, also while it waits, and when a call
returns early there is a reason for it.
-/

namespace MiniOS.Waits

open Function Machine Kernel Tasks

variable {Proc : Type*} {m m' : WaitState Proc}

def readBytes (returns : List Return) (pipe : PipeId) : List UInt8 :=
  returns.flatMap fun
    | .pipeRead source _ bytes _ _ => if source = pipe then bytes else []
    | .pipeWrite .. => []

def storedBy (stored : PipeId → List (Nat × UInt8)) (call : Nat) (pipe : PipeId) : List UInt8 :=
  ((stored pipe).filter fun entry => entry.1 = call).map Prod.snd

def ReturnSound (stored : PipeId → List (Nat × UInt8)) : Return → Prop
  | .pipeRead _ len bytes count writers =>
    bytes.length ≤ len ∧ (0 < len → bytes = [] → count = 0 ∧ writers = 0)
  | .pipeWrite call pipe buffer put readers =>
    put ≤ buffer.length ∧ storedBy stored call pipe = buffer.take put ∧
      (put < buffer.length → readers = 0)

/-- The number of a call of `pipe_write`. -/
def Return.call : Return → Option Nat
  | .pipeRead .. => none
  | .pipeWrite call .. => some call

/-- A call of `pipe_write` that is under way but not waiting. -/
structure Writing (m : WaitState Proc) (call : Nat) (pipe : PipeId) (buffer : List UInt8)
    (put : Nat) : Prop where
  numbered : call < m.nextCall
  put_le : put ≤ buffer.length
  stored : storedBy m.stored call pipe = buffer.take put
  notWaiting : ∀ task pipe buffer put, m.point task ≠ .pipeWrite call pipe buffer put
  notReturned : ∀ result ∈ m.returns, result.call ≠ some call

structure Flow (m : WaitState Proc) : Prop where
  valid : ∀ pipe, (m.pipes pipe).Valid
  conserved : ∀ pipe, readBytes m.returns pipe ++ (m.pipes pipe).contents =
    (m.stored pipe).map Prod.snd
  numbered : ∀ pipe, ∀ entry ∈ m.stored pipe, entry.1 < m.nextCall
  waiting : ∀ task call pipe buffer put, m.point task = .pipeWrite call pipe buffer put →
    call < m.nextCall ∧ put ≤ buffer.length ∧ storedBy m.stored call pipe = buffer.take put
  distinct : ∀ task other call pipe pipe' buffer buffer' put put',
    m.point task = .pipeWrite call pipe buffer put →
      m.point other = .pipeWrite call pipe' buffer' put' → task = other
  returned : ∀ result ∈ m.returns, ReturnSound m.stored result ∧
    ∀ call ∈ result.call, call < m.nextCall ∧
      ∀ task pipe buffer put, m.point task ≠ .pipeWrite call pipe buffer put

variable {call put len : Nat} {point : Point Proc} {pipe : PipeId} {buffer : List UInt8}
  {callback : List (CallbackAction Proc)}

theorem point_of_update {place : Nat → Point Proc} {current task : Nat} (notWriting : point.notWriting)
    (at' : update place current point task = .pipeWrite call pipe buffer put) :
    place task = .pipeWrite call pipe buffer put := by
  by_cases same : task = current
  · rw [same, update_self] at at'
    rw [at'] at notWriting
    exact notWriting.elim
  · rwa [update_of_ne same] at at'

variable (flow : Flow m)

include flow

/-- A task moves to a place outside `pipe_write`. -/
theorem Flow.move (task : Nat) (notWriting : point.notWriting) :
    Flow { m with point := update m.point task point } where
  valid := flow.valid
  conserved := flow.conserved
  numbered := flow.numbered
  waiting := fun task call pipe buffer put place =>
    flow.waiting task call pipe buffer put (point_of_update notWriting place)
  distinct := fun task other call pipe pipe' buffer buffer' put put' first second =>
    flow.distinct task other call pipe pipe' buffer buffer' put put'
      (point_of_update notWriting first) (point_of_update notWriting second)
  returned := by
    intro result member
    obtain ⟨sound, calls⟩ := flow.returned result member
    refine ⟨sound, fun call isCall => ⟨(calls call isCall).1, ?_⟩⟩
    intro task pipe buffer put place
    exact (calls call isCall).2 task pipe buffer put (point_of_update notWriting place)

theorem Flow.valid_modifyPipe (change : Pipe → Pipe)
    (valid : (change (m.pipes pipe)).Valid) (other : PipeId) :
    ((m.modifyPipe pipe change).pipes other).Valid := by
  by_cases same : other = pipe
  · subst same
    simpa [WaitState.modifyPipe] using valid
  · simpa [WaitState.modifyPipe, update_of_ne same] using flow.valid other

/-- The ends of a pipe are opened or closed. -/
theorem Flow.modifyEnds (pipe : PipeId) (readers writers : Pipe → Nat) :
    Flow (m.modifyPipe pipe fun state =>
      { state with readers := readers state, writers := writers state }) := by
  have sameContents : ∀ other, ((m.modifyPipe pipe fun state =>
      { state with readers := readers state, writers := writers state }).pipes other).contents =
        (m.pipes other).contents := by
    intro other
    by_cases same : other = pipe
    · subst same
      simp [WaitState.modifyPipe, Pipe.contents]
    · simp [WaitState.modifyPipe, update_of_ne same]
  refine { flow with valid := ?_, conserved := ?_ }
  · exact flow.valid_modifyPipe _ (valid_of_ends (flow.valid pipe) _ _)
  · intro other
    rw [sameContents]
    exact flow.conserved other

/-- A writer waits. -/
theorem Flow.waitWriting (writing : Writing m call pipe buffer put) (writer : Nat) :
    Flow { m with point := update m.point writer (.pipeWrite call pipe buffer put) } := by
  -- the only new place is that of the writer, and no other has its number
  have cases : ∀ task call' pipe' buffer' put',
      update m.point writer (.pipeWrite call pipe buffer put) task =
        .pipeWrite call' pipe' buffer' put' →
      (task = writer ∧ call' = call ∧ pipe' = pipe ∧ buffer' = buffer ∧ put' = put) ∨
      (call' ≠ call ∧ m.point task = .pipeWrite call' pipe' buffer' put') := by
    intro task call' pipe' buffer' put' place
    by_cases same : task = writer
    · rw [same, update_self] at place
      cases place
      exact Or.inl ⟨same, rfl, rfl, rfl, rfl⟩
    · rw [update_of_ne same] at place
      refine Or.inr ⟨?_, place⟩
      rintro rfl
      exact writing.notWaiting task pipe' buffer' put' place
  refine ⟨flow.valid, flow.conserved, flow.numbered, ?_, ?_, ?_⟩
  · intro task call' pipe' buffer' put' place
    rcases cases task call' pipe' buffer' put' place with
      ⟨-, rfl, rfl, rfl, rfl⟩ | ⟨-, old⟩
    · exact ⟨writing.numbered, writing.put_le, writing.stored⟩
    · exact flow.waiting task call' pipe' buffer' put' old
  · intro task other call' pipe₁ pipe₂ buffer₁ buffer₂ put₁ put₂ first second
    rcases cases task call' pipe₁ buffer₁ put₁ first with ⟨taskEq, callEq, -⟩ | ⟨callNe, old⟩ <;>
      rcases cases other call' pipe₂ buffer₂ put₂ second with ⟨otherEq, callEq', -⟩ |
        ⟨callNe', old'⟩
    · exact taskEq.trans otherEq.symm
    · exact absurd callEq callNe'
    · exact absurd callEq' callNe
    · exact flow.distinct task other call' pipe₁ pipe₂ buffer₁ buffer₂ put₁ put₂ old old'
  · intro entry member
    obtain ⟨sound, calls⟩ := flow.returned entry member
    refine ⟨sound, fun call' isCall => ⟨(calls call' isCall).1, ?_⟩⟩
    intro task pipe' buffer' put' place
    rcases cases task call' pipe' buffer' put' place with ⟨-, rfl, -⟩ | ⟨-, old⟩
    · exact writing.notReturned entry member isCall
    · exact (calls call' isCall).2 task pipe' buffer' put' old

/-- The return of `pipe_read` moves bytes from the buffer to the returned ones. -/
theorem Flow.takeAndReturn (ready : ¬ ((m.pipes pipe).count = 0 ∧ 0 < (m.pipes pipe).writers)) :
    Flow (takeAndReturn m pipe len) := by
  obtain ⟨valid, conserved, length, writers⟩ :=
    (flow.valid pipe).pipeTake (Nat.min_le_right len (m.pipes pipe).count)
  refine { flow with
    valid := flow.valid_modifyPipe (fun _ => (pipeTake _ (m.pipes pipe)).2) valid
    conserved := ?_
    returned := ?_ }
  · intro other
    have before := flow.conserved other
    by_cases same : other = pipe
    · subst same
      rw [conserved] at before
      simpa [Waits.takeAndReturn, WaitState.modifyPipe, readBytes] using before
    · simpa [Waits.takeAndReturn, WaitState.modifyPipe, readBytes, update_of_ne same,
        Ne.symm same] using before
  · intro result member
    rcases List.mem_append.mp member with old | new
    · exact flow.returned result old
    · rw [List.mem_singleton.mp new]
      refine ⟨⟨length.trans_le (Nat.min_le_left _ _), fun positive nothing => ?_⟩, by
        simp [Return.call]⟩
      have none : min len (m.pipes pipe).count = 0 := by
        rw [← length, nothing]
        rfl
      have empty : (m.pipes pipe).count = 0 := by omega
      rw [none]
      refine ⟨empty, ?_⟩
      by_contra writersLeft
      exact ready ⟨empty, Nat.pos_of_ne_zero writersLeft⟩

omit flow

theorem storedBy_store {stored : PipeId → List (Nat × UInt8)} (call other : Nat)
    (pipe target : PipeId) (bytes : List UInt8) :
    storedBy (update stored target (stored target ++ bytes.map fun byte => (call, byte))) other
        pipe =
      storedBy stored other pipe ++ if pipe = target ∧ other = call then bytes else [] := by
  by_cases samePipe : pipe = target
  · subst samePipe
    by_cases sameCall : other = call
    · subst sameCall
      simp [storedBy, List.filter_map, Function.comp_def]
    · have none : (bytes.map fun byte => (call, byte)).filter
          (fun entry => decide (entry.1 = other)) = [] := by
        simp [List.filter_eq_nil_iff, Ne.symm sameCall]
      simp only [storedBy, update_self, List.filter_append, none, List.append_nil, sameCall,
        and_false, if_false]
  · simp [storedBy, samePipe]

theorem take_append_turn (buffer : List UInt8) (put amount : Nat) :
    buffer.take put ++ (buffer.drop put).take amount =
      buffer.take (put + ((buffer.drop put).take amount).length) := by
  rw [List.take_add]
  congr 1
  exact List.prefix_iff_eq_take.mp (List.take_prefix amount (buffer.drop put))

/-- One turn of `pipe_write` stores the next bytes of its buffer. -/
theorem Flow.storeBytes (flow : Flow m) (writing : Writing m call pipe buffer put) (amount : Nat)
    (room : (m.pipes pipe).count + ((buffer.drop put).take amount).length ≤ pipeBufSize) :
    Flow (storeBytes m call pipe ((buffer.drop put).take amount)) ∧
      Writing (storeBytes m call pipe ((buffer.drop put).take amount)) call pipe buffer
        (put + ((buffer.drop put).take amount).length) := by
  have stored : ∀ other target, storedBy
      (Waits.storeBytes m call pipe ((buffer.drop put).take amount)).stored other target =
        storedBy m.stored other target ++
          if target = pipe ∧ other = call then (buffer.drop put).take amount else [] :=
    fun other target => storedBy_store call other target pipe _
  have storedElsewhere : ∀ other target, other ≠ call → storedBy
      (Waits.storeBytes m call pipe ((buffer.drop put).take amount)).stored other target =
        storedBy m.stored other target := by
    intro other target different
    simp [stored, different]
  obtain ⟨valid, contents⟩ := (flow.valid pipe).pipePut room
  refine ⟨⟨?_, ?_, ?_, ?_, flow.distinct, ?_⟩, writing.numbered, ?_, ?_, writing.notWaiting,
    writing.notReturned⟩
  · exact flow.valid_modifyPipe _ valid
  · intro other
    have before := flow.conserved other
    by_cases same : other = pipe
    · subst same
      simp only [Waits.storeBytes, WaitState.modifyPipe, update_self, contents, List.map_append,
        List.map_map, ← before, List.append_assoc]
      simp [Function.comp_def]
    · simpa [Waits.storeBytes, WaitState.modifyPipe, update_of_ne same] using before
  · intro other entry member
    by_cases same : other = pipe
    · subst same
      simp only [Waits.storeBytes, update_self, List.mem_append, List.mem_map] at member
      rcases member with old | ⟨byte, -, rfl⟩
      · exact flow.numbered other entry old
      · exact writing.numbered
    · simp only [Waits.storeBytes, update_of_ne same] at member
      exact flow.numbered other entry member
  · intro task other target buffer' put' place
    have different : other ≠ call := by
      rintro rfl
      exact writing.notWaiting task target buffer' put' place
    rw [storedElsewhere other target different]
    exact flow.waiting task other target buffer' put' place
  · intro result member
    obtain ⟨sound, calls⟩ := flow.returned result member
    refine ⟨?_, calls⟩
    cases result with
    | pipeRead source len bytes count writers => exact sound
    | pipeWrite other target buffer' put' readers =>
      have different : other ≠ call := by
        rintro rfl
        exact writing.notReturned _ member rfl
      rw [ReturnSound, storedElsewhere other target different]
      exact sound
  · have le := writing.put_le
    rw [List.length_take, List.length_drop]
    omega
  · rw [stored, writing.stored, if_pos ⟨rfl, rfl⟩, take_append_turn]

/-- The call of a writer that comes back from a wait. -/
theorem Flow.goOnWriting (flow : Flow m) {writer : Nat}
    (place : m.point writer = .pipeWrite call pipe buffer put) :
    Writing { m with point := update m.point writer .running } call pipe buffer put := by
  obtain ⟨numbered, put_le, stored⟩ := flow.waiting _ call pipe buffer put place
  refine ⟨numbered, put_le, stored, ?_, ?_⟩
  · intro task target buffer' put' at'
    by_cases same : task = writer
    · simp [same] at at'
    · simp only [update_of_ne same] at at'
      exact same (flow.distinct _ _ call _ _ _ _ _ _ at' place)
  · intro entry member isCall
    exact ((flow.returned entry member).2 call isCall).2 _ _ _ _ place

theorem waitStart_flow (idleTaskRunner kernelSpace mainTask idleTask idleStack : Nat) :
    Flow (waitStart idleTaskRunner kernelSpace mainTask idleTask idleStack : WaitState Proc) where
  valid := Pipe.newPipe_valid
  conserved := fun _ => rfl
  numbered := by simp [waitStart]
  waiting := by simp [waitStart]
  distinct := by simp [waitStart]
  returned := by simp [waitStart]

/-- A call of `pipe_write` begins under a number that has not been given out. -/
theorem Flow.beginWrite (flow : Flow m) (pipe : PipeId) (buffer : List UInt8) :
    Flow { m with nextCall := m.nextCall + 1 } ∧
      Writing { m with nextCall := m.nextCall + 1 } m.nextCall pipe buffer 0 := by
  refine ⟨⟨flow.valid, flow.conserved, ?_, ?_, flow.distinct, ?_⟩, Nat.lt_succ_self _,
    Nat.zero_le _, ?_, ?_, ?_⟩
  · exact fun other entry member => Nat.lt_succ_of_lt (flow.numbered other entry member)
  · intro task call target buffer' put place
    obtain ⟨numbered, facts⟩ := flow.waiting task call target buffer' put place
    exact ⟨Nat.lt_succ_of_lt numbered, facts⟩
  · intro entry member
    obtain ⟨sound, calls⟩ := flow.returned entry member
    exact ⟨sound, fun call isCall =>
      ⟨Nat.lt_succ_of_lt (calls call isCall).1, (calls call isCall).2⟩⟩
  · simp only [storedBy, List.take_zero, List.map_eq_nil_iff, List.filter_eq_nil_iff,
      decide_eq_true_eq]
    exact fun entry member => Nat.ne_of_lt (flow.numbered pipe entry member)
  · intro task target buffer' put place
    exact Nat.lt_irrefl _ (flow.waiting task _ target buffer' put place).1
  · intro entry member isCall
    exact Nat.lt_irrefl _ ((flow.returned entry member).2 _ isCall).1

theorem Flow.returnWrite (flow : Flow m) (writing : Writing m call pipe buffer put)
    (done : buffer.length ≤ put ∨ (m.pipes pipe).readers = 0) :
    Flow { m with
      returns := m.returns ++ [.pipeWrite call pipe buffer put (m.pipes pipe).readers] } := by
  refine ⟨flow.valid, ?_, flow.numbered, flow.waiting, flow.distinct, ?_⟩
  · intro other
    simpa [readBytes] using flow.conserved other
  · intro entry member
    rcases List.mem_append.mp member with old | new
    · exact flow.returned entry old
    · rw [List.mem_singleton.mp new]
      refine ⟨⟨writing.put_le, writing.stored, fun short => ?_⟩, ?_⟩
      · exact done.resolve_left (by omega)
      · rintro other ⟨⟩
        exact ⟨writing.numbered, writing.notWaiting⟩

/-- The queues, together with the call of `pipe_write` that is under way. -/
def FlowAt (at' : WaitState Proc × Option OpenWrite) : Prop :=
  Flow at'.1 ∧ ∀ open' ∈ at'.2, Writing at'.1 open'.call open'.pipe open'.buffer open'.put

theorem Action.flowAt {before after : WaitState Proc × Option OpenWrite} (action : Action before after)
    (flows : FlowAt before) : FlowAt after := by
  obtain ⟨flow, writing⟩ := flows
  cases action with
  | schedule => exact ⟨{ flow with }, fun open' isOpen => { writing open' isOpen with }⟩
  | setEnds pipe readers writers => exact ⟨flow.modifyEnds pipe readers writers, nofun⟩
  | move task outside => exact ⟨flow.move task outside, nofun⟩
  | take len ready => exact ⟨flow.takeAndReturn ready, nofun⟩
  | beginWrite pipe buffer =>
    obtain ⟨begun, begins⟩ := flow.beginWrite pipe buffer
    exact ⟨begun, by simpa using begins⟩
  | store more notFull isNext =>
    subst isNext
    obtain ⟨-, room⟩ := turn_length (flow.valid _).count notFull more
    obtain ⟨stored, further⟩ := flow.storeBytes (writing _ rfl) _ room
    exact ⟨stored, by simpa using further⟩
  | waitWriting task => exact ⟨flow.waitWriting (writing _ rfl) task, nofun⟩
  | goOnWriting place => exact ⟨flow.move _ trivial, by simpa using flow.goOnWriting place⟩
  | returnWrite done => exact ⟨flow.returnWrite (writing _ rfl) done, nofun⟩
  | abandon => exact ⟨flow, nofun⟩

theorem Flow.acts (flow : Flow m) {result : Option (WaitState Proc)} (acts : Acts m none result)
    (isResult : result = some m') : Flow m' := by
  have flows : ∀ last, Relation.ReflTransGen Action (m, none) last → FlowAt last := by
    intro last chain
    induction chain with
    | refl => exact ⟨flow, nofun⟩
    | tail chain action ih => exact action.flowAt ih
  exact (flows _ (acts m' isResult)).1

section Steps

variable [DecidableEq Proc] (flow : Flow m)

include flow

theorem Flow.resume (result : resume m callback = some m') : Flow m' := by
  rcases resume_acts callback m with acts | ⟨slot, isExit⟩
  · exact flow.acts acts result
  · have outside : (Point.running : Point Proc).notWriting := trivial
    have back := flow.move m.sched.currentTask outside
    rw [isExit] at result
    refine Flow.acts ?_ (acts_exitCurrent callback _) result
    unfold releaseSleepSlot
    split
    · exact { back with }
    · exact back

theorem Flow.wakeSleepers {slots : List SleepSlot} (result : wakeSleepers slots m = some m') :
    Flow m' := by
  induction slots generalizing m with
  | nil =>
    rw [← Option.some.inj result]
    exact flow
  | cons slot slots ih =>
    rw [Waits.wakeSleepers] at result
    split at result
    · exact ih flow result
    split at result
    · obtain ⟨m₁, woke, rest⟩ := Option.bind_eq_some_iff.mp result
      have woken := flow.acts (acts_wakeAll m _) woke
      refine ih ?_ rest
      exact { woken with }
    · exact ih flow result

theorem Flow.timerCallback {alarmed : List Nat}
    (result : timerCallback m alarmed callback = some m') : Flow m' := by
  obtain ⟨woken, isWoken, acts⟩ := timerCallback_acts callback result
  have ticked : Flow { m with timerTicks := (m.timerTicks + 1) % 2 ^ 32 } :=
    { flow with }
  exact (ticked.wakeSleepers isWoken).acts acts rfl

theorem Flow.timerSleep {ticks : Nat} (result : timerSleep m ticks callback = some m') :
    Flow m' := by
  unfold Waits.timerSleep at result
  split at result
  · rw [← Option.some.inj result]
    exact flow
  split at result
  · exact flow.acts (acts_exitCurrent callback m) result
  split at result
  · rw [← Option.some.inj result]
    exact flow
  case h_2 slot _ =>
    obtain ⟨blocked, isBlocked, rfl⟩ := Option.map_eq_some_iff.mp result
    obtain ⟨sched, -, rfl⟩ := Option.map_eq_some_iff.mp isBlocked
    have outside : (Point.timerSleep slot : Point Proc).notWriting := trivial
    exact { flow.move m.sched.currentTask outside with }

variable {op : WaitOp Proc}

theorem Flow.perform (result : perform m op = some m') : Flow m' := by
  cases op with
  | timerSleep ticks callback => exact flow.timerSleep result
  | timerTick alarmed callback => exact flow.timerCallback result
  | resume callback => exact flow.resume result
  | _ => exact flow.acts (perform_acts (by simp) (by simp) (by simp)) result

theorem Flow.waitCall (result : waitCall m op = some m') : Flow m' := by
  unfold Waits.waitCall at result
  split at result
  · exact flow.resume result
  split at result
  · rw [← Option.some.inj result]
    exact flow
  · exact flow.perform result

omit flow

/-- The pipes after every run: the buffer is a queue between writes and reads, and
every call returned what its contract says. -/
theorem run_pipeFifo {idleTaskRunner kernelSpace mainTask idleTask idleStack : Nat}
    (runner : idleTaskRunner ≠ 0) (space : kernelSpace ≠ 0)
    (frames : BootFrames mainTask idleTask idleStack) {ops : List (WaitOp Proc)}
    (admissible : Admissible waitStep (WaitAllowed idleTask)
      (some (waitStart idleTaskRunner kernelSpace mainTask idleTask idleStack)) ops) :
    ∃ m, run waitStep (some (waitStart idleTaskRunner kernelSpace mainTask idleTask idleStack))
        ops = some m ∧
      (∀ pipe, (m.pipes pipe).writePos =
          ((m.pipes pipe).readPos + (m.pipes pipe).count) % pipeBufSize ∧
        (m.pipes pipe).count ≤ pipeBufSize ∧
        readBytes m.returns pipe ++ (m.pipes pipe).contents = (m.stored pipe).map Prod.snd) ∧
      ∀ result ∈ m.returns, ReturnSound m.stored result := by
  obtain ⟨m, result, -⟩ := run_waitsSound runner space frames admissible
  have kept : ∀ m ∈ run waitStep (some (waitStart idleTaskRunner kernelSpace mainTask idleTask
      idleStack)) ops, Flow m := by
    refine run_invariant (fun state => ∀ m ∈ state, Flow m) ?_ ?_ ops
    · intro state op flows m' next
      obtain ⟨m, isState, call⟩ := Option.bind_eq_some_iff.mp next
      exact (flows m isState).waitCall call
    · rintro m ⟨⟩
      exact waitStart_flow ..
  have flow := kept m result
  refine ⟨m, result, fun pipe => ?_, fun entry member => (flow.returned entry member).1⟩
  exact ⟨(flow.valid pipe).writePos, (flow.valid pipe).count, flow.conserved pipe⟩

/-- A reader waits on an empty pipe, is woken by a write and returns its bytes. -/
theorem run_pipeFifo_transfer : let start : Option (WaitState Nat) := some (waitStart 1 1 1 2 3)
    let ops : List (WaitOp Nat) :=
      [.createTask 1 1 (some 7) 4 5, .timerTick [] [], .pipeRead 0 2 [], .timerTick [] [],
        .pipeWrite 0 [10, 11, 12] [], .timerTick [] [], .resume []]
    Admissible waitStep (WaitAllowed 2) start ops ∧
      (∃ m, run waitStep start ops = some m ∧
        (∀ pipe, (m.pipes pipe).writePos =
            ((m.pipes pipe).readPos + (m.pipes pipe).count) % pipeBufSize ∧
          (m.pipes pipe).count ≤ pipeBufSize ∧
          readBytes m.returns pipe ++ (m.pipes pipe).contents = (m.stored pipe).map Prod.snd) ∧
        ∀ result ∈ m.returns, ReturnSound m.stored result) ∧
      (run waitStep start ops).map
          (fun m => (readBytes m.returns 0, (m.pipes 0).contents)) = some ([10, 11], [12]) := by
  refine ⟨by decide +kernel, run_pipeFifo (by decide) (by decide)
    ⟨by decide, by decide⟩ (by decide +kernel), by decide +kernel⟩

end Steps

end MiniOS.Waits
