import MiniOS.PageFaults
import MiniOS.TaskQueues
import MiniOS.WaitMachine

/-!
# The life of processes and threads

Launch, fork, exec, threads, exit, waiting and killing in `process.c`, together with
the ready and blocked tasks.  System calls run with interrupts off, so every operation
is executed as a whole up to the point where its task blocks; a task that is woken goes
on behind its call of `task_block_current` once it gets the processor.  The kernel shell
is the exception: its `process_kill` can be interrupted between its three steps.

Tasks, address spaces and the processes that a slot holds one after the other are
numbered in the order of their creation, so that a number is never used again.  Of a
process only the fields that decide about its life are kept up: streams, open files,
heap, mappings and signal masks are left out, and a signal is only the wake-up it
causes.  The waits for pipes, semaphores, keyboard, timer and signals are sleeps on a
channel that may end at any time.
-/

namespace MiniOS.Lifecycle

open Function Paging
open Kernel (ProcessSlot ProcessTable Process ProcessState ExitCallback Signal processFind
  processAllocate processRelease abandonChildren taskKillStatus sigchld)

abbrev Channel := Waits.Channel ProcessSlot

/-- Where a task stands: between two operations, or behind a call of
`task_block_current` with the local variables that it still needs.  The last two are the
places in which `process_kill` of the shell can be interrupted. -/
inductive Point
  | running
  | processWait (slot : ProcessSlot) (pid current : Int)
  | processWaitpid (pid : Int)
  | processThreadJoin
  | asleep
  | killFind (pid : Int) (serial : Nat)
  | killMark (pid : Int) (slot : ProcessSlot) (serial : Nat)
deriving DecidableEq

/-- A call of `process_wait` or `process_waitpid` that has returned the status of a
process: the process with its two numbers, the status, the number of the caller and the
number that was asked for. -/
structure Reap where
  serial : Nat
  pid : Int
  parentPid : Int
  status : Int
  caller : Int
  asked : Option Int

/-- What has happened so far.  None of this is a variable of the source.  `released`
has an entry for each call of `process_release`, `none` if the slot was not in use, and
`marked` an entry for each task whose mark a kill has set: the number that was asked for
and the number of the process of the task, 0 for a task of the kernel. -/
structure History where
  started : List Nat
  mainStatus : Nat → Option Int
  finished : List (Nat × Int)
  destroyed : List SpaceId
  released : List (Option Nat)
  reaped : List Reap
  killed : List Nat
  marked : List (Int × Int)

/-- Tasks and processes.  `owner` is the process for which a task was created, and
`serial` the one that a slot holds. -/
structure Life where
  queues : TaskQueues Channel ProcessSlot
  onExit : Nat → ExitCallback
  space : Nat → SpacePtr
  point : Nat → Point
  processes : ProcessTable
  nextPid : Int
  nextTask : Nat
  nextSpace : SpaceId
  nextSerial : Nat
  owner : Nat → Option Nat
  serial : ProcessSlot → Nat
  history : History

variable (m : Life)

variable {slot other : ProcessSlot}

namespace Life

/-- `process_get_current_pid` for a task. -/
def currentPid (task : Nat) : Int :=
  match m.queues.process task with
  | none => 0
  | some slot => (m.processes slot).pid

def modifyProcess (slot : ProcessSlot) (change : Process → Process) : Life :=
  { m with processes := update m.processes slot (change (m.processes slot)) }

def setPoint (task : Nat) (point : Point) : Life :=
  { m with point := update m.point task point }

def block (m : Life) (task : Nat) (channel : Channel) (point : Point) : Life :=
  { m.setPoint task point with queues := m.queues.block task channel }

def wakeAll (m : Life) (channel : Channel) : Life :=
  { m with queues := m.queues.wakeAll channel }

def release (slot : ProcessSlot) : Life :=
  { m with
    processes := processRelease m.processes slot
    history :=
      { m.history with
        released :=
          (if (m.processes slot).state = .unused then none else some (m.serial slot)) ::
            m.history.released } }

theorem modifyProcess_self (slot : ProcessSlot) (change : Process → Process) :
    (m.modifyProcess slot change).processes slot = change (m.processes slot) :=
  update_self ..

theorem modifyProcess_of_ne (different : other ≠ slot)
    (change : Process → Process) : (m.modifyProcess slot change).processes other = m.processes other :=
  update_of_ne different ..

theorem release_self (slot : ProcessSlot) : (m.release slot).processes slot = .zero :=
  update_self ..

theorem release_of_ne (different : other ≠ slot) :
    (m.release slot).processes other = m.processes other :=
  update_of_ne different ..

def destroySpace : SpacePtr → Life
  | .user id => { m with history := { m.history with destroyed := id :: m.history.destroyed } }
  | _ => m

end Life

/-- `process_send_signal`: the main task of the process is woken. -/
def processSendSignal (pid : Int) (signum : Signal) : Life :=
  match processFind m.processes pid with
  | none => m
  | some slot =>
    match (m.processes slot).task with
    | none => m
    | some task => if signum = 0 then m else { m with queues := m.queues.wakeTask task }

/-- The loop of `process_finish_exit` over the children. -/
def leaveChildren (pid : Int) : Life :=
  let zombies := (List.finRange 16).filter fun slot =>
    (m.processes slot).state = .zombie ∧ (m.processes slot).parentPid = pid
  { m with
    processes := abandonChildren m.processes pid
    history :=
      { m.history with
        released := zombies.map (fun slot => some (m.serial slot)) ++ m.history.released } }

def becomeZombie (slot : ProcessSlot) (status : Int) : Life :=
  let m := m.modifyProcess slot fun proc =>
    { proc with addressSpace := .null, task := none, exitStatus := status, state := .zombie }
  { m with
    history := { m.history with finished := (m.serial slot, status) :: m.history.finished } }

theorem becomeZombie_self (slot : ProcessSlot) (status : Int) :
    (becomeZombie m slot status).processes slot =
      { m.processes slot with
        addressSpace := .null, task := none, exitStatus := status, state := .zombie } :=
  update_self ..

theorem becomeZombie_of_ne (different : other ≠ slot)
    (status : Int) : (becomeZombie m slot status).processes other = m.processes other :=
  update_of_ne different ..

def notifyParent (parentPid : Int) : Life :=
  if 0 < parentPid then
    let parent := processFind m.processes parentPid
    let m := processSendSignal m parentPid sigchld
    match parent with
    | none => m
    | some slot => m.wakeAll (.waitpidEvent slot)
  else m

def processFinishExit (slot : ProcessSlot) (status : Int) : Life :=
  let m := leaveChildren m (m.processes slot).pid
  let m := m.destroySpace (m.processes slot).addressSpace
  let m := becomeZombie m slot status
  let m := notifyParent m (m.processes slot).parentPid
  let m := m.wakeAll (.process slot)
  if (m.processes slot).autoReap then m.release slot else m

def processTaskExit (slot : ProcessSlot) (status : Int) : Life :=
  let m :=
    { m with
      history :=
        { m.history with
          mainStatus := update m.history.mainStatus (m.serial slot) (some status) } }
  if 0 < (m.processes slot).threadCount then
    m.modifyProcess slot fun proc =>
      { proc with mainExited := true, exitStatus := status, task := none }
  else processFinishExit m slot status

def threadOnExit (slot : ProcessSlot) : Life :=
  let m := m.modifyProcess slot fun proc => { proc with threadCount := proc.threadCount - 1 }
  let m := m.wakeAll (.threadCount slot)
  if (m.processes slot).threadCount = 0 ∧ (m.processes slot).mainExited = true then
    processFinishExit m slot (m.processes slot).exitStatus
  else m

def taskExit (task : Nat) (status : Int) : Life :=
  let m := { m with queues := m.queues.exit task }
  match m.queues.process task with
  | none => m
  | some slot =>
    match m.onExit task with
    | .none => m
    | .processTaskExit => processTaskExit m slot status
    | .threadOnExit => threadOnExit m slot

/-- `task_block_killable` up to the switch to another task. -/
def blockKillable (task : Nat) (channel : Channel) (point : Point) : Life :=
  if m.queues.killPending task then taskExit m task taskKillStatus
  else m.block task channel point

def createTask (onExit : ExitCallback) (space : SpacePtr) (slot : ProcessSlot) : Life :=
  { m with
    queues := m.queues.create m.nextTask (some slot)
    onExit := update m.onExit m.nextTask onExit
    space := update m.space m.nextTask space
    point := update m.point m.nextTask .running
    owner := update m.owner m.nextTask (some (m.serial slot))
    nextTask := m.nextTask + 1 }

/-- `paging_create_user_address_space` and `paging_clone_address_space`. -/
def createSpace : SpaceId × Life := (m.nextSpace, { m with nextSpace := m.nextSpace + 1 })

/-- `process_allocate` for the process of a task. -/
def allocateSlot (task : Nat) : Option ProcessSlot × Life :=
  match processAllocate m.processes m.nextPid (m.currentPid task) with
  | (none, processes, nextPid) => (none, { m with processes := processes, nextPid := nextPid })
  | (some slot, processes, nextPid) =>
    (some slot,
      { m with
        processes := processes
        nextPid := nextPid
        serial := update m.serial slot m.nextSerial
        nextSerial := m.nextSerial + 1 })

/-- The main task of a new process is created, or the slot is given back. -/
def startProcess (slot : ProcessSlot) (space : SpaceId) (memory : Bool) : Bool × Life :=
  if memory then
    let task := m.nextTask
    let m := createTask m .processTaskExit (.user space) slot
    let m := m.modifyProcess slot fun proc => { proc with task := some task }
    (true,
      { m with history := { m.history with started := m.serial slot :: m.history.started } })
  else (false, m.release slot)

/-- A process with the given address space; `false` if there is no slot or no memory for
its task. -/
def newProcess (task : Nat) (space : SpaceId) (memory : Bool) : Bool × Life :=
  match allocateSlot m task with
  | (none, m) => (false, m)
  | (some slot, m) =>
    startProcess (m.modifyProcess slot fun proc => { proc with addressSpace := .user space })
      slot space memory

def processLaunch (task : Nat) (space : SpaceId) (memory : Bool) : Bool × Life :=
  newProcess m task space memory

/-- What a child inherits from its parent has no part in its life. -/
def processFork (task : Nat) (space : SpaceId) (memory : Bool) : Bool × Life :=
  newProcess m task space memory

def orDestroy (space : SpaceId) : Bool × Life → Life
  | (true, m) => m
  | (false, m) => m.destroySpace (.user space)

/-- The end of `elf_load_and_spawn`, once the image is loaded. -/
def spawn (task : Nat) (memory : Bool) : Life :=
  match createSpace m with
  | (space, m) => orDestroy space (processLaunch m task space memory)

def sysFork (task : Nat) (memory : Bool) : Life :=
  match m.queues.process task with
  | none => m
  | some _ =>
    match createSpace m with
    | (space, m) => orDestroy space (processFork m task space memory)

def processExecReset (task : Nat) (space : SpaceId) : Bool × Life :=
  match m.queues.process task with
  | none => (false, m)
  | some slot =>
    if 0 < (m.processes slot).threadCount then (false, m)
    else
      let old := (m.processes slot).addressSpace
      let m := m.modifyProcess slot fun proc => { proc with addressSpace := .user space }
      let m := { m with space := update m.space task (.user space) }
      (true, m.destroySpace old)

/-- The end of `sys_execv`, once the image is loaded. -/
def sysExecv (task : Nat) : Life :=
  match createSpace m with
  | (space, m) => orDestroy space (processExecReset m task space)

def processThreadCreate (task : Nat) (memory : Bool) : Life :=
  match m.queues.process task with
  | none => m
  | some slot =>
    let space := (m.processes slot).addressSpace
    if space = .null then m
    else
      let m := m.modifyProcess slot fun proc => { proc with threadCount := proc.threadCount + 1 }
      if memory then createTask m .threadOnExit space slot
      else m.modifyProcess slot fun proc => { proc with threadCount := proc.threadCount - 1 }

/-- The status is returned to the caller and the slot is released. -/
def reap (task : Nat) (slot : ProcessSlot) (asked : Option Int) : Life :=
  let proc := m.processes slot
  let entry : Reap :=
    { serial := m.serial slot
      pid := proc.pid
      parentPid := proc.parentPid
      status := proc.exitStatus
      caller := m.currentPid task
      asked := asked }
  Life.release
    { m with history := { m.history with reaped := entry :: m.history.reaped } } slot

/-- `process_wait` from the test of the loop on. -/
def processWaitLoop (task : Nat) (slot : ProcessSlot) (pid current : Int) : Life :=
  let proc := m.processes slot
  if proc.state = .running then
    blockKillable m task (.process slot) (.processWait slot pid current)
  else if proc.state = .zombie ∧ proc.pid = pid ∧ proc.parentPid = current then
    reap (m.setPoint task .running) task slot (some pid)
  else m.setPoint task .running

def processWait (task : Nat) (pid : Int) : Life :=
  match processFind m.processes pid with
  | none => m
  | some slot =>
    if (m.processes slot).parentPid = m.currentPid task then
      processWaitLoop m task slot pid (m.currentPid task)
    else m

/-- `process_wait` behind `task_block_killable`. -/
def processWaitResume (task : Nat) (slot : ProcessSlot) (pid current : Int) : Life :=
  let proc := m.processes slot
  if proc.state = .unused ∨ proc.pid ≠ pid ∨ proc.parentPid ≠ current then
    m.setPoint task .running
  else processWaitLoop m task slot pid current

/-- A child that `process_waitpid` looks for: any child, or the one with the given
number. -/
def isChild (current pid : Int) (slot : ProcessSlot) : Bool :=
  decide ((m.processes slot).state ≠ .unused) && decide ((m.processes slot).parentPid = current) &&
    (decide (pid ≤ 0) || decide ((m.processes slot).pid = pid))

def processWaitpidLoop (task : Nat) (own : ProcessSlot) (pid : Int) (nohang : Bool) : Life :=
  let current := (m.processes own).pid
  match (List.finRange 16).find? fun slot =>
      isChild m current pid slot && decide ((m.processes slot).state = .zombie) with
  | some slot => reap (m.setPoint task .running) task slot (if 0 < pid then some pid else none)
  | none =>
    if (List.finRange 16).any (isChild m current pid) && !nohang then
      blockKillable m task (.waitpidEvent own) (.processWaitpid pid)
    else m.setPoint task .running

def processWaitpid (task : Nat) (pid : Int) (nohang : Bool) : Life :=
  match m.queues.process task with
  | none => m
  | some own => processWaitpidLoop m task own pid nohang

def processThreadJoin (task : Nat) : Life :=
  match m.queues.process task with
  | none => m
  | some own =>
    if 0 < (m.processes own).threadCount then
      blockKillable m task (.threadCount own) .processThreadJoin
    else m.setPoint task .running

def processDetach (pid : Int) : Life :=
  match processFind m.processes pid with
  | none => m
  | some slot =>
    if (m.processes slot).state = .zombie then m.release slot
    else m.modifyProcess slot fun proc => { proc with parentPid := 0, autoReap := true }

/-- `task_kill_blocked`, called for the process with the number `asked`. -/
def taskKillBlocked (asked : Int) (slot : ProcessSlot) : Life :=
  let queues := m.queues.killProcess slot
  let victims := m.queues.tasks.filter fun task =>
    queues.killPending task && !m.queues.killPending task
  let number (task : Nat) : Int :=
    (m.queues.process task).elim 0 fun place => (m.processes place).pid
  { m with
    queues := queues
    history :=
      { m.history with
        marked := victims.map (fun task => (asked, number task)) ++ m.history.marked } }

/-- `process_request_kill` with interrupts off. -/
def processRequestKill (pid : Int) : Life :=
  match processFind m.processes pid with
  | none => m
  | some slot => taskKillBlocked m pid slot

/-- A call of `process_kill` has returned 0. -/
def noteKilled (serial : Nat) : Life :=
  { m with history := { m.history with killed := serial :: m.history.killed } }

/-- `process_kill` in a system call. -/
def processKill (pid : Int) : Life :=
  match processFind m.processes pid with
  | none => m
  | some slot =>
    if (m.processes slot).state = .running then
      noteKilled (processRequestKill m pid) (m.serial slot)
    else m

/-- The test at the beginning of `process_kill` in the shell. -/
def shellKillTest (task : Nat) (pid : Int) : Life :=
  match processFind m.processes pid with
  | none => m
  | some slot =>
    if (m.processes slot).state = .running then m.setPoint task (.killFind pid (m.serial slot))
    else m

/-- `process_find` in `process_request_kill`. -/
def shellKillFind (task : Nat) (pid : Int) (serial : Nat) : Life :=
  match processFind m.processes pid with
  | none => noteKilled (m.setPoint task .running) serial
  | some slot => m.setPoint task (.killMark pid slot serial)

inductive Event
  | spawn (task : Nat) (memory : Bool)
  | fork (task : Nat) (memory : Bool)
  | threadCreate (task : Nat) (memory : Bool)
  | exec (task : Nat)
  | exit (task : Nat) (status : Int)
  | wait (task : Nat) (pid : Int)
  | waitpid (task : Nat) (pid : Int) (nohang : Bool)
  | threadJoin (task : Nat)
  | sleep (task : Nat) (channel : Channel)
  | kill (task : Nat) (pid : Int)
  | shellKill (task : Nat) (pid : Int)
  | resume (task : Nat)
  | requestKill (pid : Int)
  | sendSignal (pid : Int) (signum : Signal)
  | wake (channel : Channel)
  | detach (pid : Int)

/-- A ready task goes on where it was interrupted or behind the call that blocked it. -/
def resume (task : Nat) : Life :=
  match m.point task with
  | .running => m
  | .killFind pid serial => shellKillFind m task pid serial
  | .killMark pid slot serial =>
    noteKilled (taskKillBlocked (m.setPoint task .running) pid slot) serial
  | .processWait slot pid current =>
    if m.queues.killPending task then taskExit m task taskKillStatus
    else processWaitResume m task slot pid current
  | .processWaitpid pid =>
    if m.queues.killPending task then taskExit m task taskKillStatus
    else processWaitpid m task pid false
  | .processThreadJoin =>
    if m.queues.killPending task then taskExit m task taskKillStatus
    else processThreadJoin m task
  | .asleep => m.setPoint task .running

def Life.idle (task : Nat) : Bool :=
  decide (task ∈ m.queues.ready) && decide (m.point task = .running)

/-- What an event does; an event of a task that cannot perform it does nothing. -/
def lifeStep : Event → Life
  | .spawn task memory => if m.idle task then spawn m task memory else m
  | .fork task memory => if m.idle task then sysFork m task memory else m
  | .threadCreate task memory => if m.idle task then processThreadCreate m task memory else m
  | .exec task => if m.idle task then sysExecv m task else m
  | .exit task status => if m.idle task then taskExit m task status else m
  | .wait task pid => if m.idle task then processWait m task pid else m
  | .waitpid task pid nohang => if m.idle task then processWaitpid m task pid nohang else m
  | .threadJoin task => if m.idle task then processThreadJoin m task else m
  | .sleep task channel => if m.idle task then m.block task channel .asleep else m
  | .kill task pid => if m.idle task then processKill m pid else m
  | .shellKill task pid =>
    if m.idle task && (m.queues.process task).isNone then shellKillTest m task pid else m
  | .resume task => if task ∈ m.queues.ready then resume m task else m
  | .requestKill pid => processRequestKill m pid
  | .sendSignal pid signum => processSendSignal m pid signum
  | .wake channel => m.wakeAll channel
  | .detach pid => processDetach m pid

/-- The shell and the idle task are running, and there are no processes. -/
def lifeStart : Life where
  queues :=
    { ready := [0, 1], blocked := [], process := fun _ => none, killPending := fun _ => false }
  onExit := fun _ => .none
  space := fun _ => .kernel
  point := fun _ => .running
  processes := fun _ => .zero
  nextPid := 1
  nextTask := 2
  nextSpace := 0
  nextSerial := 0
  owner := fun _ => none
  serial := fun _ => 0
  history :=
    { started := []
      mainStatus := fun _ => none
      finished := []
      destroyed := []
      released := []
      reaped := []
      killed := []
      marked := [] }

end MiniOS.Lifecycle
