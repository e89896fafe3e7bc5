import MiniOS.ProcessTable

/-!
# Page faults

How an instruction reaches memory through the active page tables, and what
`page_fault_handler` does when it cannot.  Supervisor accesses ignore the user
bit but, with write protection on, not the writable bit.
-/

namespace MiniOS.Kernel

open PhysicalMemory UserLayout Paging PagingState

variable (st : PagingState)

/-- The page-table entry that translates an address in the active space.  Below
32 MB, outside the two private tables, every space shares the kernel identity
map; above it only the mmap window is ever mapped. -/
def pageOf (addr : Nat) : PageEntry :=
  let identity := if addr < pmmMaxMemory then .kernelIdentity (addr / 0x1000) else .absent
  match st.active with
  | .null | .kernel => identity
  | .user id =>
    match userPte addr with
    | none => identity
    | some slot => st.entry id slot

def permits (page : PageEntry) (userMode write : Bool) : Bool :=
  page.present && (page.user || !userMode) && (page.rw || !write)

/-- The attempts of `page_fault_handler` to resolve a fault, in order; `true`
when one of them succeeds and the instruction is restarted. -/
def pageFaultHandler (proc : Option Process) (addr : Nat) (write : Bool) : Bool × PagingState :=
  let (copied, st) := if write then pagingTryCow st addr else (false, st)
  if copied then (true, st)
  else
    let (stack, st) :=
      if userStackBottom ≤ addr ∧ addr < userStackTop then pagingDemandMap st addr
      else (false, st)
    if stack then (true, st)
    else
      match proc with
      | none => (false, st)
      | some proc =>
        let (heap, st) :=
          if proc.heapStart ≤ addr ∧ addr < proc.heapBreak then pagingDemandMap st addr
          else (false, st)
        if heap then (true, st)
        else if processExtReserved proc addr then pagingDemandMap st addr
        else (false, st)

/-- The frame and the offset that an access reaches, after at most one fault.
`none` means that the fault is not resolved: ring 3 code is then terminated, and
in ring 0 the system halts. -/
def access (proc : Option Process) (userMode write : Bool) (addr : Nat) :
    Option (Nat × Nat) × PagingState :=
  if permits (pageOf st addr) userMode write then
    (some ((pageOf st addr).frame, addr % 0x1000), st)
  else
    match pageFaultHandler st proc addr write with
    | (false, st) => (none, st)
    | (true, st) =>
      if permits (pageOf st addr) userMode write then
        (some ((pageOf st addr).frame, addr % 0x1000), st)
      else (none, st)

def loadByte (proc : Option Process) (userMode : Bool) (addr : Nat) : Option UInt8 × PagingState :=
  match access st proc userMode false addr with
  | (none, st) => (none, st)
  | (some (frame, offset), st) => (some (st.mem frame offset), st)

end MiniOS.Kernel
