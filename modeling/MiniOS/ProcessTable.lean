import MiniOS.PipeBuffer
import MiniOS.UserMemory

/-!
# The process table

The records of `process.c`, the allocation of slots and process numbers, and the
reservations of the mmap window that each record carries.  Names, working
directories, environments, alarms and accounting are left out.
-/

namespace MiniOS.Kernel

open UserLayout Paging

/-- The number of the frame that holds a `task_t`. -/
abbrev TaskId := Nat

/-- An index into `processes`. -/
abbrev ProcessSlot := Fin 16

abbrev NodeId := Nat

/-- A signal number below `NSIG`. -/
abbrev Signal := Fin 32

instance neZero_nsig : NeZero 32 := ⟨by decide⟩

def sigchld : Signal := 17

def sigcont : Signal := 18

def sigstop : Signal := 19

/-- The callback that `task_exit` runs for a task. -/
inductive ExitCallback
  | none
  | processTaskExit
  | threadOnExit
deriving DecidableEq, Repr

/-- The user registers that a signal frame saves, in the order of
`sigcontext_t`. -/
structure UserRegisters where
  eip : Nat
  eflags : Nat
  eax : Nat
  ebx : Nat
  ecx : Nat
  edx : Nat
  esi : Nat
  edi : Nat
  ebp : Nat
  useresp : Nat
deriving DecidableEq, Repr

def taskKillStatus : Int := -130

inductive ProcessState
  | unused
  | running
  | zombie
deriving DecidableEq, Repr

/-- `process_t`.  Pipes and file nodes are numbers instead of pointers, and the
reservation bitmap is a predicate on page indices. -/
structure Process where
  pid : Int
  parentPid : Int
  exitStatus : Int
  autoReap : Bool
  state : ProcessState
  addressSpace : SpacePtr
  task : Option TaskId
  heapStart : Nat
  heapBreak : Nat
  extMap : Nat → Bool
  stdoutNode : Option NodeId
  stdinNode : Option NodeId
  stdoutPipe : Option PipeId
  stdinPipe : Option PipeId
  sigPending : Signal → Bool
  sigHandler : Signal → Nat
  sigTrampoline : Nat
  inSignal : Bool
  stopped : Bool
  threadCount : Nat
  mainExited : Bool

/-- A record cleared by `memset`. -/
def Process.zero : Process where
  pid := 0
  parentPid := 0
  exitStatus := 0
  autoReap := false
  state := .unused
  addressSpace := .null
  task := none
  heapStart := 0
  heapBreak := 0
  extMap := fun _ => false
  stdoutNode := none
  stdinNode := none
  stdoutPipe := none
  stdinPipe := none
  sigPending := fun _ => false
  sigHandler := fun _ => 0
  sigTrampoline := 0
  inSignal := false
  stopped := false
  threadCount := 0
  mainExited := false

abbrev ProcessTable := ProcessSlot → Process

variable (table : ProcessTable)

def processFind (pid : Int) : Option ProcessSlot :=
  (List.finRange 16).find? fun slot =>
    decide ((table slot).state ≠ .unused) && decide ((table slot).pid = pid)

def int32Max : Int := 2147483647

/-- The loop of `process_allocate_pid`: the number and the next candidate. -/
def allocatePid (table : ProcessTable) : (attempts : Nat) → Int → Option Int × Int
  | 0, candidate => (none, candidate)
  | attempts + 1, candidate =>
    let next := if candidate = int32Max then 1 else candidate + 1
    if (processFind table candidate).isNone then (some candidate, next)
    else allocatePid table attempts next

/-- `process_allocate`: claim the first unused slot under a new number. -/
def processAllocate (nextPid parentPid : Int) : Option ProcessSlot × ProcessTable × Int :=
  match (List.finRange 16).find? fun slot => decide ((table slot).state = .unused) with
  | none => (none, table, nextPid)
  | some slot =>
    match allocatePid table 16 nextPid with
    | (none, nextPid) => (none, table, nextPid)
    | (some pid, nextPid) =>
      if pid < 1 then (none, table, nextPid)
      else
        (some slot, Function.update table slot
          { Process.zero with pid := pid, parentPid := parentPid, state := .running },
          nextPid)

def processRelease (slot : ProcessSlot) : ProcessTable :=
  Function.update table slot .zero

/-- Children of an exiting process: zombies are released, the others are left to
reap themselves. -/
def abandonChildren (pid : Int) : ProcessTable := fun slot =>
  if (table slot).state = .unused ∨ (table slot).parentPid ≠ pid then table slot
  else if (table slot).state = .zombie then .zero
  else { table slot with parentPid := 0, autoReap := true }

/-- The page of `vaddr` has been handed out by `SYS_MMAP`. -/
def processExtReserved (proc : Process) (vaddr : Nat) : Bool :=
  if vaddr < userExtBase ∨ userExtTop ≤ vaddr then false
  else proc.extMap ((vaddr - userExtBase) / 0x1000)

/-- `signal_stack_range_valid`: the range lies in the low user stack, or in pages
of the mmap window that are all reserved. -/
def signalStackRangeValid (proc : Process) (start size : Nat) : Bool :=
  if size = 0 ∨ uint32Max - start < size then false
  else
    let stop := start + size
    if userStackBottom ≤ start ∧ stop ≤ userStackTop then true
    else if start < userExtBase ∨ userExtTop < stop then false
    else
      let firstPage := start / 0x1000
      (List.range' firstPage ((stop - 1) / 0x1000 + 1 - firstPage)).all fun page =>
        processExtReserved proc (page * 0x1000)

end MiniOS.Kernel
