import MiniOS.PagingFrameRun

/-!
# Access to user memory inside the paging layer

The functions of `paging.c` that the system calls and the page fault handler use to
reach user pages: demand mapping, and the test that a range is mapped.
-/

namespace MiniOS.Paging

open PhysicalMemory KernelHeap UserLayout PagingState

def uint32Max : Nat := 2 ^ 32 - 1

/-- Page in `addr` for the active user space if it is not already a usable user
page; `true` when it was mapped. -/
def pagingDemandMap (st : PagingState) (addr : Nat) : Bool × PagingState :=
  match st.active with
  | .null | .kernel => (false, st)
  | .user id =>
    match userPte addr with
    | none => (false, st)
    | some slot =>
      let page := st.entry id slot
      if page.present && page.user then (false, st)
      else pagingMapUserPage st (.user id) (addr / 0x1000 * 0x1000)

/-- Every page of a range is mapped for the user in the active space. -/
def pagingUserRangeMapped (st : PagingState) (vaddr size : Nat) : Bool :=
  if size = 0 then true
  else
    match st.active with
    | .null => false
    | .kernel => false
    | .user id =>
      if uint32Max - vaddr < size then false
      else
        let firstIdx := vaddr / 0x1000
        let lastIdx := (vaddr + size - 1) / 0x1000
        (List.range' firstIdx (lastIdx + 1 - firstIdx)).all fun idx =>
          match userPte (idx * 0x1000) with
          | none => false
          | some slot => (st.entry id slot).present && (st.entry id slot).user

/-- The exclusive end of the user-owned region that contains `start`, 0 outside
all of them. -/
def userRegionTop (start : Nat) : Nat :=
  if userLoadBase ≤ start ∧ start < userStackTop then userStackTop
  else if userShmBase ≤ start ∧ start < userShmTop then userShmTop
  else if userExtBase ≤ start ∧ start < userExtTop then userExtTop
  else 0

/-- `user_buffer_valid`, which every system call applies to the buffers it is
given. -/
def userBufferValid (st : PagingState) (buffer count : Nat) : Bool :=
  if count = 0 then true
  else
    let top := userRegionTop buffer
    if top = 0 then false
    else decide (count ≤ top - buffer) && pagingUserRangeMapped st buffer count

end MiniOS.Paging
