import MiniOS.PipeBuffer
import MiniOS.SchedulerStructure

/-!
# Tasks that wait

The blocking operations of the kernel on top of the scheduler of `task.c`: pipes
with their buffers, sleeping tasks, and all other waits through
`task_block_killable`.  Every operation is executed by the current task with
interrupts off, so it runs up to the point where the task blocks.  A task that is
given the processor again goes on behind its call of `task_block_current`; until
then nothing else happens.

Whether the condition of a loop around `task_block_killable` still holds is left
open: a run may enter such a wait at any time, leave it after any wake-up and wake
the tasks on any channel.  For pipes the conditions are those of `pipe.c`.
-/

namespace MiniOS

namespace Waits

open Function Kernel Tasks

/-- `MAX_SLEEPING_TASKS`. -/
abbrev SleepSlot := Fin 16

inductive Channel (Proc : Type*) where
  | pipeCount (pipe : PipeId)
  | pipeReadPos (pipe : PipeId)
  | semaphore (id : Nat)
  | keyboardBuffer
  | process (process : Proc)
  | waitpidEvent (process : Proc)
  | threadCount (process : Proc)
  | stopped (process : Proc)
  | sleepSlot (slot : SleepSlot)
deriving DecidableEq

/-- The waits that go through `task_block_killable`. -/
inductive KillableWait (Proc : Type*) where
  | semWait (id : Nat)
  | keyboardRead
  | processWait (child : Proc)
  | processWaitpid (current : Proc)
  | processPause (current : Proc)
  | processThreadJoin (current : Proc)
  | signalStop (current : Proc)

def KillableWait.channel {Proc : Type*} : KillableWait Proc → Channel Proc
  | semWait id => .semaphore id
  | keyboardRead => .keyboardBuffer
  | processWait child => .process child
  | processWaitpid current => .waitpidEvent current
  | processPause current => .process current
  | processThreadJoin current => .threadCount current
  | signalStop current => .stopped current

/-- Where a task that is not current stands: between two operations, or behind its
call of `task_block_current` with the local variables that it still needs.  Calls
of `pipe_write` carry a number of their own. -/
inductive Point (Proc : Type*) where
  | running
  | killableWait (wait : KillableWait Proc)
  | pipeRead (pipe : PipeId) (len : Nat)
  | pipeWrite (call : Nat) (pipe : PipeId) (buffer : List UInt8) (put : Nat)
  | timerSleep (slot : SleepSlot)

/-- A call that has returned, with the counters of the pipe at that moment. -/
inductive Return where
  | pipeRead (pipe : PipeId) (len : Nat) (bytes : List UInt8) (count writers : Nat)
  | pipeWrite (call : Nat) (pipe : PipeId) (buffer : List UInt8) (put readers : Nat)

/-- What an exit callback can do to pipes and waiting tasks. -/
inductive CallbackAction (Proc : Type*) where
  | pipeCloseRead (pipe : PipeId)
  | pipeCloseWrite (pipe : PipeId)
  | taskWakeAll (channel : Channel Proc)
  | taskWakeTask (task : Nat)

/-- The scheduler, the place of every task, the pipes and the sleeping tasks.  The
last three fields are not variables of the source: every byte stored in a pipe with
the call that stored it, the calls that have returned, and the next call number. -/
structure WaitState (Proc : Type*) where
  sched : Scheduler (Channel Proc) Proc
  point : Nat → Point Proc
  pipes : PipeId → Pipe
  sleepingTasks : SleepSlot → Option (Nat × Nat)
  timerTicks : Nat
  stored : PipeId → List (Nat × UInt8)
  returns : List Return
  nextCall : Nat

variable {Proc : Type*} [DecidableEq Proc] (m : WaitState Proc)

def WaitState.onSched (call : Scheduler (Channel Proc) Proc → Option (Scheduler (Channel Proc) Proc)) :
    Option (WaitState Proc) :=
  (call m.sched).map fun sched => { m with sched := sched }

def WaitState.modifyPipe (pipe : PipeId) (change : Pipe → Pipe) : WaitState Proc :=
  { m with pipes := update m.pipes pipe (change (m.pipes pipe)) }

def wakeAll (channel : Channel Proc) : Option (WaitState Proc) :=
  m.onSched (taskWakeAll · (some channel))

def wakeOne (channel : Channel Proc) : Option (WaitState Proc) :=
  m.onSched (taskWakeOne · (some channel))

def wakeTask (task : Nat) : Option (WaitState Proc) :=
  m.onSched (taskWakeTask · task)

def WaitState.killPending (m : WaitState Proc) : Bool :=
  m.sched.killPending m.sched.currentTask

section Pipes

/-- Numbers of pipes are never used again, so `pipe_free_if_done` has no effect
here. -/
def pipeCloseRead (pipe : PipeId) : Option (WaitState Proc) :=
  let m := m.modifyPipe pipe fun state => { state with readers := state.readers - 1 }
  if (m.pipes pipe).readers = 0 then wakeAll m (.pipeReadPos pipe) else some m

def pipeCloseWrite (pipe : PipeId) : Option (WaitState Proc) :=
  let m := m.modifyPipe pipe fun state => { state with writers := state.writers - 1 }
  if (m.pipes pipe).writers = 0 then wakeAll m (.pipeCount pipe) else some m

def pipeRefRead (pipe : PipeId) : WaitState Proc :=
  m.modifyPipe pipe fun state => { state with readers := state.readers + 1 }

def pipeRefWrite (pipe : PipeId) : WaitState Proc :=
  m.modifyPipe pipe fun state => { state with writers := state.writers + 1 }

end Pipes

section Exits

def callbackAction : CallbackAction Proc → Option (WaitState Proc)
  | .pipeCloseRead pipe => pipeCloseRead m pipe
  | .pipeCloseWrite pipe => pipeCloseWrite m pipe
  | .taskWakeAll channel => wakeAll m channel
  | .taskWakeTask task => wakeTask m task

def runCallback : List (CallbackAction Proc) → WaitState Proc → Option (WaitState Proc)
  | [], m => some m
  | action :: actions, m => (callbackAction m action).bind (runCallback actions)

/-- `task_exit` with its callback.  The task is gone, so its place is forgotten. -/
def exitCurrent (callback : List (CallbackAction Proc)) : Option (WaitState Proc) :=
  ((WaitState.onSched m taskExit).map fun exited =>
    { exited with point := update m.point m.sched.currentTask .running }).bind
      (runCallback callback)

end Exits

section Blocking

/-- `task_block_current`; the task will go on at `point`. -/
def blockAt (channel : Channel Proc) (point : Point Proc) : Option (WaitState Proc) :=
  (WaitState.onSched m (taskBlockCurrent · (some channel))).map fun blocked =>
    { blocked with point := update m.point m.sched.currentTask point }

def taskBlockKillable (wait : KillableWait Proc)
    (callback : List (CallbackAction Proc)) : Option (WaitState Proc) :=
  if m.killPending then exitCurrent m callback
  else blockAt m wait.channel (.killableWait wait)

/-- `pipe_block_killable` for a reader, up to the switch. -/
def blockReader (pipe : PipeId) (len : Nat)
    (callback : List (CallbackAction Proc)) : Option (WaitState Proc) :=
  if m.killPending then (pipeCloseRead m pipe).bind (exitCurrent · callback)
  else blockAt m (.pipeCount pipe) (.pipeRead pipe len)

/-- `pipe_block_killable` for a writer, up to the switch. -/
def blockWriter (call : Nat) (pipe : PipeId) (buffer : List UInt8)
    (put : Nat) (callback : List (CallbackAction Proc)) : Option (WaitState Proc) :=
  if m.killPending then (pipeCloseWrite m pipe).bind (exitCurrent · callback)
  else blockAt m (.pipeReadPos pipe) (.pipeWrite call pipe buffer put)

/-- Take bytes out of the buffer and record the return of `pipe_read`. -/
def takeAndReturn (pipe : PipeId) (len : Nat) : WaitState Proc :=
  let taken := pipeTake (min len (m.pipes pipe).count) (m.pipes pipe)
  { m.modifyPipe pipe fun _ => taken.2 with
    returns := m.returns ++ [.pipeRead pipe len taken.1 taken.2.count taken.2.writers] }

/-- `pipe_read` from the test of its first loop on. -/
def pipeReadLoop (pipe : PipeId) (len : Nat)
    (callback : List (CallbackAction Proc)) : Option (WaitState Proc) :=
  if (m.pipes pipe).count = 0 ∧ 0 < (m.pipes pipe).writers then blockReader m pipe len callback
  else
    let got := min len (m.pipes pipe).count
    let m := takeAndReturn m pipe len
    (if 0 < got then wakeAll m (.pipeReadPos pipe) else some m).bind (pipeCloseRead · pipe)

/-- The end of `pipe_write`. -/
def finishWrite (call : Nat) (pipe : PipeId) (buffer : List UInt8)
    (put : Nat) : Option (WaitState Proc) :=
  pipeCloseWrite
    { m with
      returns := m.returns ++ [.pipeWrite call pipe buffer put (m.pipes pipe).readers] } pipe

/-- The inner loop of `pipe_write`: store bytes and record who stored them. -/
def storeBytes (call : Nat) (pipe : PipeId) (bytes : List UInt8) : WaitState Proc :=
  { m.modifyPipe pipe (pipePut bytes) with
    stored := update m.stored pipe (m.stored pipe ++ bytes.map fun byte => (call, byte)) }

def pipeWriteLoop : Nat → WaitState Proc → Nat → PipeId → List UInt8 → Nat →
    List (CallbackAction Proc) → Option (WaitState Proc)
  | 0, _, _, _, _, _, _ => none
  | turns + 1, m, call, pipe, buffer, put, callback =>
    if buffer.length ≤ put ∨ (m.pipes pipe).readers = 0 then finishWrite m call pipe buffer put
    else if (m.pipes pipe).count = pipeBufSize then
      (wakeAll m (.pipeCount pipe)).bind (blockWriter · call pipe buffer put callback)
    else
      let bytes := (buffer.drop put).take (pipeBufSize - (m.pipes pipe).count)
      (wakeAll (storeBytes m call pipe bytes) (.pipeCount pipe)).bind fun m =>
        pipeWriteLoop turns m call pipe buffer (put + bytes.length) callback

def writeTurns (buffer : List UInt8) : Nat := buffer.length + 1

/-- `pipe_read` with a buffer of `len` bytes. -/
def pipeRead (pipe : PipeId) (len : Nat)
    (callback : List (CallbackAction Proc)) : Option (WaitState Proc) :=
  if len = 0 then some m else pipeReadLoop (pipeRefRead m pipe) pipe len callback

def pipeWrite (pipe : PipeId) (buffer : List UInt8)
    (callback : List (CallbackAction Proc)) : Option (WaitState Proc) :=
  if buffer = [] then some m
  else
    let call := m.nextCall
    let m := { pipeRefWrite m pipe with nextCall := call + 1 }
    pipeWriteLoop (writeTurns buffer) m call pipe buffer 0 callback

def timerSleep (ticks : Nat) (callback : List (CallbackAction Proc)) : Option (WaitState Proc) :=
  if ticks = 0 ∨ 0x7FFFFFFF < ticks then some m
  else if m.killPending then exitCurrent m callback
  else
    match (List.finRange 16).find? fun slot => (m.sleepingTasks slot).isNone with
    | none => some m
    | some slot =>
      blockAt
        { m with
          sleepingTasks := update m.sleepingTasks slot
            (some (m.sched.currentTask, (m.timerTicks + ticks) % 2 ^ 32)) }
        (.sleepSlot slot) (.timerSleep slot)

/-- The kill path of `timer_sleep`: give the slot back while it is still ours. -/
def releaseSleepSlot (slot : SleepSlot) : WaitState Proc :=
  if (m.sleepingTasks slot).map Prod.fst = some m.sched.currentTask then
    { m with sleepingTasks := update m.sleepingTasks slot none }
  else m

/-- The current task goes on behind its call of `task_block_current`. -/
def resume (callback : List (CallbackAction Proc)) : Option (WaitState Proc) :=
  let back := { m with point := update m.point m.sched.currentTask .running }
  match m.point m.sched.currentTask with
  | .running => some m
  | .killableWait _ => if m.killPending then exitCurrent back callback else some back
  | .pipeRead pipe len =>
    if m.killPending then (pipeCloseRead back pipe).bind (exitCurrent · callback)
    else pipeReadLoop back pipe len callback
  | .pipeWrite call pipe buffer put =>
    if m.killPending then (pipeCloseWrite back pipe).bind (exitCurrent · callback)
    else pipeWriteLoop (writeTurns buffer) back call pipe buffer put callback
  | .timerSleep slot =>
    if m.killPending then exitCurrent (releaseSleepSlot back slot) callback else some back

end Blocking

section Ticks

/-- `tick_reached`: the difference as a signed number. -/
def tickReached (current deadline : Nat) : Bool :=
  decide ((current + (2 ^ 32 - deadline)) % 2 ^ 32 < 2 ^ 31)

/-- The loop of `timer_callback` over the sleep slots. -/
def wakeSleepers : List SleepSlot → WaitState Proc → Option (WaitState Proc)
  | [], m => some m
  | slot :: slots, m =>
    match m.sleepingTasks slot with
    | none => wakeSleepers slots m
    | some (_, wakeTick) =>
      if tickReached m.timerTicks wakeTick then
        (wakeAll m (.sleepSlot slot)).bind fun m =>
          wakeSleepers slots { m with sleepingTasks := update m.sleepingTasks slot none }
      else wakeSleepers slots m

/-- The main tasks that `process_check_alarms` wakes. -/
def wakeTasks : List Nat → WaitState Proc → Option (WaitState Proc)
  | [], m => some m
  | task :: tasks, m => (wakeTask m task).bind (wakeTasks tasks)

/-- `timer_callback`, with `process_check_kill` and the tasks whose alarm expired. -/
def timerCallback (alarmed : List Nat)
    (callback : List (CallbackAction Proc)) : Option (WaitState Proc) :=
  (wakeSleepers (List.finRange 16)
      { m with timerTicks := (m.timerTicks + 1) % 2 ^ 32 }).bind fun m =>
    if m.killPending then exitCurrent m callback
    else (wakeTasks alarmed m).bind fun m => m.onSched fun sched => some (schedule sched)

end Ticks

section Steps

/-- An operation of the current task, or an interrupt while it runs.  Those that can
end the task come with what its exit callback does. -/
inductive WaitOp (Proc : Type*) where
  | pipeRead (pipe : PipeId) (len : Nat) (callback : List (CallbackAction Proc))
  | pipeWrite (pipe : PipeId) (buffer : List UInt8) (callback : List (CallbackAction Proc))
  | pipeRefRead (pipe : PipeId)
  | pipeRefWrite (pipe : PipeId)
  | pipeCloseRead (pipe : PipeId)
  | pipeCloseWrite (pipe : PipeId)
  | wait (wait : KillableWait Proc) (callback : List (CallbackAction Proc))
  | timerSleep (ticks : Nat) (callback : List (CallbackAction Proc))
  | taskWakeOne (channel : Channel Proc)
  | taskWakeAll (channel : Channel Proc)
  | taskWakeTask (task : Nat)
  | processRequestKill (process : Option Proc)
  | createTask (entry addressSpace : Nat) (process : Option Proc) (newTask stack : Nat)
  | taskExit (callback : List (CallbackAction Proc))
  | timerTick (alarmed : List Nat) (callback : List (CallbackAction Proc))
  | resume (callback : List (CallbackAction Proc))

/-- `create_task`; the new task has not waited for anything. -/
def startTask (entry addressSpace : Nat) (process : Option Proc)
    (newTask stack : Nat) : WaitState Proc :=
  { m with
    sched := (Tasks.createTask m.sched entry addressSpace process newTask stack).2
    point := update m.point newTask .running }

def perform : WaitOp Proc → Option (WaitState Proc)
  | .pipeRead pipe len callback => pipeRead m pipe len callback
  | .pipeWrite pipe buffer callback => pipeWrite m pipe buffer callback
  | .pipeRefRead pipe => some (pipeRefRead m pipe)
  | .pipeRefWrite pipe => some (pipeRefWrite m pipe)
  | .pipeCloseRead pipe => pipeCloseRead m pipe
  | .pipeCloseWrite pipe => pipeCloseWrite m pipe
  | .wait wait callback => taskBlockKillable m wait callback
  | .timerSleep ticks callback => timerSleep m ticks callback
  | .taskWakeOne channel => wakeOne m channel
  | .taskWakeAll channel => wakeAll m channel
  | .taskWakeTask task => wakeTask m task
  | .processRequestKill process => m.onSched (taskKillBlocked · process)
  | .createTask entry addressSpace process newTask stack =>
    some (startTask m entry addressSpace process newTask stack)
  | .taskExit callback => exitCurrent m callback
  | .timerTick alarmed callback => timerCallback m alarmed callback
  | .resume callback => resume m callback

/-- The current task is behind a call of `task_block_current`. -/
def WaitState.resuming : Bool :=
  match m.point m.sched.currentTask with
  | .running => false
  | _ => true

/-- A task that comes back from a wait goes on there before anything else happens. -/
def waitCall (op : WaitOp Proc) : Option (WaitState Proc) :=
  match op with
  | .resume callback => resume m callback
  | op => if m.resuming then some m else perform m op

/-- One operation; `none` stands for one that did not return. -/
def waitStep (m : Option (WaitState Proc)) (op : WaitOp Proc) : Option (WaitState Proc) :=
  m.bind fun m => waitCall m op

/-- The idle task only takes interrupts, and frames are handed out when unused. -/
def OpAllowed (idle : Nat) (m : WaitState Proc) : WaitOp Proc → Prop
  | .createTask _ _ _ newTask stack => FreshFrames m.sched newTask stack
  | .taskWakeOne _ | .taskWakeAll _ | .taskWakeTask _ | .processRequestKill _ => True
  | .timerTick _ _ | .resume _ => True
  | _ => m.sched.currentTask ≠ idle

instance (idle : Nat) (m : WaitState Proc) (op : WaitOp Proc) : Decidable (OpAllowed idle m op) := by
  cases op <;> unfold OpAllowed <;> try unfold FreshFrames
  all_goals infer_instance

def WaitAllowed (idle : Nat) (m : Option (WaitState Proc)) (op : WaitOp Proc) : Prop :=
  ∀ running ∈ m, OpAllowed idle running op

instance (idle : Nat) (m : Option (WaitState Proc)) (op : WaitOp Proc) :
    Decidable (WaitAllowed idle m op) :=
  inferInstanceAs (Decidable (∀ running ∈ m, OpAllowed idle running op))

/-- The state after `tasking_init`: nobody waits, and every pipe is as `pipe_create`
leaves it. -/
def waitStart (idleTaskRunner kernelSpace mainTask idleTask idleStack : Nat) : WaitState Proc where
  sched := taskingInit unstarted idleTaskRunner kernelSpace mainTask idleTask idleStack
  point := fun _ => .running
  pipes := newPipe
  sleepingTasks := fun _ => none
  timerTicks := 0
  stored := fun _ => []
  returns := []
  nextCall := 0

end Steps

end Waits

end MiniOS
