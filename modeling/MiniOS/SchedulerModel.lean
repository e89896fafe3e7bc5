import MiniOS.LinkedSegments

/-!
# The task lists of `task.c`

The fields of all `task_t` structures are kept as one function per field, from
the address of the structure; address 0 is the null pointer.  Interrupts are off
in every function of this file, so each of them runs to its end.

Loops that follow pointers are given as many rounds as there are tasks and
return `none` if they have not ended by then, so that a loop which never ends in
the source has no result here.
-/

namespace MiniOS.Tasks

inductive TaskState
  | ready
  | blocked
deriving DecidableEq, Repr

/-- The static variables of `task.c` and the tasks they refer to.  The last three
fields are not variables of the source: the tasks that were created and have not
exited, and the frames (the structure and the stack) of every task that exited
and of every task that was reclaimed, in order. -/
structure Scheduler (Channel Proc : Type*) where
  next : Nat → Nat
  blockedNext : Nat → Nat
  id : Nat → Nat
  stackBottom : Nat → Nat
  kernelStackTop : Nat → Nat
  addressSpace : Nat → Nat
  process : Nat → Option Proc
  waitChannel : Nat → Option Channel
  state : Nat → TaskState
  killPending : Nat → Bool
  currentTask : Nat
  readyQueue : Nat
  blockedTasks : Nat
  retiredTask : Nat
  nextPid : Nat
  kernelStack : Nat
  activeSpace : Nat
  tasks : List Nat
  exits : List (Nat × Nat)
  reaped : List (Nat × Nat)

variable {Channel Proc : Type*}

open Function LinkedSegments

variable (s : Scheduler Channel Proc)

def reapRetiredTask : Scheduler Channel Proc :=
  if s.retiredTask = 0 then s
  else
    { s with
      retiredTask := 0
      reaped := s.reaped ++ [(s.retiredTask, s.stackBottom s.retiredTask)] }

def activateTask (task : Nat) : Scheduler Channel Proc :=
  { s with
    currentTask := task
    kernelStack := s.kernelStackTop task
    activeSpace := s.addressSpace task }

def readyPreviousFrom (next : Nat → Nat) (task : Nat) : Nat → Nat → Option Nat
  | 0, _ => none
  | rounds + 1, previous =>
    if next previous = task then some previous
    else
      let previous := next previous
      if previous = task then some 0 else readyPreviousFrom next task rounds previous

def findReadyPrevious (task : Nat) : Option Nat :=
  if s.readyQueue = 0 ∨ task = 0 then some 0
  else readyPreviousFrom s.next task s.tasks.length task

def addReadyTask (task : Nat) : Scheduler Channel Proc :=
  let s :=
    { s with
      state := update s.state task .ready
      waitChannel := update s.waitChannel task none
      blockedNext := update s.blockedNext task 0 }
  if s.readyQueue = 0 then
    { s with next := update s.next task task, readyQueue := task }
  else
    { s with
      next := update (update s.next task (s.next s.readyQueue)) s.readyQueue task }

/-- The fields that `create_task` writes up to the request for a stack, with what
that request returns. -/
def writeNewTask (newTask stack : Nat) : Scheduler Channel Proc :=
  { s with
    id := update s.id newTask s.nextPid
    nextPid := (s.nextPid + 1) % 2 ^ 32
    blockedNext := update s.blockedNext newTask 0
    waitChannel := update s.waitChannel newTask none
    state := update s.state newTask .ready
    killPending := update s.killPending newTask false
    stackBottom := update s.stackBottom newTask stack }

/-- The fields that `create_task` writes once it has a stack. -/
def completeTask (addressSpace : Nat) (process : Option Proc)
    (newTask stack : Nat) : Scheduler Channel Proc :=
  { s with
    kernelStackTop := update s.kernelStackTop newTask (stack + 4096)
    addressSpace := update s.addressSpace newTask addressSpace
    process := update s.process newTask process
    tasks := newTask :: s.tasks }

/-- `create_task`, given what its two calls of `pmm_alloc_block` return. -/
def createTask (entry addressSpace : Nat) (process : Option Proc)
    (newTask stack : Nat) : Nat × Scheduler Channel Proc :=
  if entry = 0 ∨ s.readyQueue = 0 ∨ addressSpace = 0 then (0, s)
  else if newTask = 0 then (0, s)
  else
    let s := writeNewTask s newTask stack
    if stack = 0 then (0, s)
    else (newTask, addReadyTask (completeTask s addressSpace process newTask stack) newTask)

/-- Append a task to the blocked list, as the end of `task_block_current` does. -/
def appendBlocked (task : Nat) : Option (Scheduler Channel Proc) :=
  if s.blockedTasks = 0 then some { s with blockedTasks := task }
  else
    match lastBefore s.blockedNext 0 s.tasks.length s.blockedTasks with
    | none => none
    | some last => some { s with blockedNext := update s.blockedNext last task }

def unlinkReady (previous task : Nat) : Scheduler Channel Proc :=
  { s with
    next := update s.next previous (s.next task)
    readyQueue := if s.readyQueue = task then s.next task else s.readyQueue }

/-- The fields that `task_block_current` sets in the task that blocks. -/
def markBlocked (task : Nat) (channel : Option Channel) : Scheduler Channel Proc :=
  { s with
    next := update s.next task 0
    blockedNext := update s.blockedNext task 0
    waitChannel := update s.waitChannel task channel
    state := update s.state task .blocked }

def taskBlockCurrent (channel : Option Channel) : Option (Scheduler Channel Proc) :=
  let task := s.currentTask
  if task = 0 ∨ s.state task ≠ .ready ∨ s.next task = task then some s
  else
    match findReadyPrevious s task with
    | none => none
    | some 0 => some s
    | some previous =>
      let next := s.next task
      match appendBlocked (markBlocked (unlinkReady s previous task) task channel) task with
      | none => none
      | some s => some (activateTask s next)

/-- A `task_t **link`: the head of the blocked list, or the link in a task. -/
abbrev Link := Option Nat

def readLink : Link → Nat
  | none => s.blockedTasks
  | some task => s.blockedNext task

def writeLink (link : Link) (target : Nat) : Scheduler Channel Proc :=
  match link with
  | none => { s with blockedTasks := target }
  | some task => { s with blockedNext := update s.blockedNext task target }

/-- The loop over the blocked list that all wake-up functions share.  `selects`
says which tasks are woken, `once` that the loop ends with the first of them and
`kill` that they are marked. -/
def wakeFrom (selects : Option Channel → Option Proc → Nat → Bool) (once kill : Bool) :
    Nat → Link → Scheduler Channel Proc → Option (Scheduler Channel Proc)
  | rounds, link, s =>
    let task := readLink s link
    if task = 0 then some s
    else
      match rounds with
      | 0 => none
      | rounds + 1 =>
        if selects (s.waitChannel task) (s.process task) task then
          let s := { s with killPending := update s.killPending task (s.killPending task || kill) }
          let s := addReadyTask (writeLink s link (s.blockedNext task)) task
          if once then some s else wakeFrom selects once kill rounds link s
        else wakeFrom selects once kill rounds (some task) s

section Waking

variable [DecidableEq Channel] [DecidableEq Proc]

def taskWakeOne (channel : Option Channel) : Option (Scheduler Channel Proc) :=
  wakeFrom (fun waitChannel _ _ => decide (waitChannel = channel)) true false s.tasks.length none s

def taskWakeAll (channel : Option Channel) : Option (Scheduler Channel Proc) :=
  wakeFrom (fun waitChannel _ _ => decide (waitChannel = channel)) false false s.tasks.length none s

def taskWakeTask (task : Nat) : Option (Scheduler Channel Proc) :=
  if task = 0 then some s
  else wakeFrom (fun _ _ waiting => decide (waiting = task)) true false s.tasks.length none s

def markKilled (process : Proc) (task : Nat) : Scheduler Channel Proc :=
  if s.process task = some process then
    { s with killPending := update s.killPending task true }
  else s

/-- The loop of `task_kill_blocked` over the ready list, standing at `task`. -/
def markReadyFrom (process : Proc) (ready : Nat) :
    Nat → Nat → Scheduler Channel Proc → Option (Scheduler Channel Proc)
  | 0, _, _ => none
  | rounds + 1, task, s =>
    let s := markKilled s process task
    if s.next task ≠ 0 ∧ s.next task ≠ ready then
      markReadyFrom process ready rounds (s.next task) s
    else some s

def taskKillBlocked : Option Proc → Option (Scheduler Channel Proc)
  | none => some s
  | some process =>
    match
      if s.readyQueue = 0 then some s
      else markReadyFrom process s.readyQueue s.tasks.length s.readyQueue s
    with
    | none => none
    | some s =>
      wakeFrom (fun _ owner _ => decide (owner = some process)) false true s.tasks.length none s

end Waking

def schedule : Scheduler Channel Proc :=
  if s.currentTask = 0 then s
  else
    let s := reapRetiredTask s
    if s.currentTask = s.next s.currentTask then s
    else activateTask s (s.next s.currentTask)

/-- The end of `task_exit`, given the task before the one that exits. -/
def retireTask (previous task : Nat) : Scheduler Channel Proc :=
  let s := reapRetiredTask s
  let next := s.next task
  let s := unlinkReady s previous task
  activateTask
    { s with
      retiredTask := task
      tasks := s.tasks.erase task
      exits := s.exits ++ [(task, s.stackBottom task)] }
    next

/-- `task_exit` up to the exit callback.  There is no result when the system halts
because nothing is left to run. -/
def taskExit : Option (Scheduler Channel Proc) :=
  let task := s.currentTask
  if task = 0 then none
  else
    match lastBefore s.next task s.tasks.length task with
    | none => none
    | some previous => if previous = task then none else some (retireTask s previous task)

/-- The static variables before `tasking_init`. -/
def unstarted : Scheduler Channel Proc where
  next := fun _ => 0
  blockedNext := fun _ => 0
  id := fun _ => 0
  stackBottom := fun _ => 0
  kernelStackTop := fun _ => 0
  addressSpace := fun _ => 0
  process := fun _ => none
  waitChannel := fun _ => none
  state := fun _ => .ready
  killPending := fun _ => false
  currentTask := 0
  readyQueue := 0
  blockedTasks := 0
  retiredTask := 0
  nextPid := 1
  kernelStack := 0
  activeSpace := 0
  tasks := []
  exits := []
  reaped := []

/-- The main task as `tasking_init` sets it up. -/
def startMainTask (kernelSpace mainTask : Nat) : Scheduler Channel Proc :=
  { s with
    id := update s.id mainTask 0
    next := update s.next mainTask mainTask
    blockedNext := update s.blockedNext mainTask 0
    stackBottom := update s.stackBottom mainTask 0
    kernelStackTop := update s.kernelStackTop mainTask 0x90000
    addressSpace := update s.addressSpace mainTask kernelSpace
    process := update s.process mainTask none
    waitChannel := update s.waitChannel mainTask none
    state := update s.state mainTask .ready
    killPending := update s.killPending mainTask false
    currentTask := mainTask
    readyQueue := mainTask
    tasks := mainTask :: s.tasks }

/-- `tasking_init`, given what its calls of `pmm_alloc_block` return: the main task,
then the structure and the stack of the idle task. -/
def taskingInit (idleTaskRunner kernelSpace : Nat)
    (mainTask idleTask idleStack : Nat) : Scheduler Channel Proc :=
  if s.currentTask ≠ 0 then s
  else if mainTask = 0 then s
  else
    (createTask (startMainTask s kernelSpace mainTask) idleTaskRunner kernelSpace none
      idleTask idleStack).2

end MiniOS.Tasks
