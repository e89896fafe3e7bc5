import MiniOS.KernelHeap
import MiniOS.UserLayout

/-!
# User address spaces

The functions of `paging.c` that create, clone, change and destroy user
address spaces, together with the copy-on-write fault path.  Page tables and
page frames are physical addresses in the kernel identity map, so the model
keeps the entries of a space beside the numbers of the frames that hold them,
and the bytes of user pages in `mem`, indexed by frame number and offset.

The kernel reaches a frame by its physical number.  This assumes that the
identity map is in effect wherever the kernel reads or writes a table or a
page: that every frame it is given lies below `PMM_MAX_MEMORY`, and that no
page of the active space covers the address of the frame.
-/

namespace MiniOS.Paging

open Function PhysicalMemory KernelHeap UserLayout

/-- `page_entry_t`, without the bits that software ignores. -/
structure PageEntry where
  present : Bool
  rw : Bool
  user : Bool
  accessed : Bool
  dirty : Bool
  shared : Bool
  frame : Nat
deriving DecidableEq, Repr

namespace PageEntry

/-- An entry cleared by `memset`. -/
def absent : PageEntry where
  present := false
  rw := false
  user := false
  accessed := false
  dirty := false
  shared := false
  frame := 0

/-- The supervisor identity mapping installed by `paging_install`. -/
def kernelIdentity (frame : Nat) : PageEntry where
  present := true
  rw := true
  user := false
  accessed := false
  dirty := false
  shared := false
  frame := frame

def userFrame (entry : PageEntry) : Option Nat :=
  if entry.present && entry.user then some entry.frame else none

end PageEntry

inductive TableId
  | first
  | ext
deriving DecidableEq, Repr

instance : Fintype TableId where
  elems := {.first, .ext}
  complete := by intro table; cases table <;> decide

abbrev Slot := TableId × Fin 1024

abbrev SpaceId := Nat

/-- `address_space_t`.  The directory and the tables are the numbers of the
frames that hold them, `pte` the contents of the two tables, and `object` the
heap address of the structure itself. -/
structure AddressSpace where
  object : Nat
  directory : Nat
  firstTable : Nat
  extTable : Nat
  pte : Slot → PageEntry

/-- An `address_space_t *`.  Spaces are named by a serial number; a number
that names no live space behaves like the null pointer. -/
inductive SpacePtr
  | null
  | kernel
  | user (id : SpaceId)
deriving DecidableEq, Repr

/-- One call of `pmm_free_block`: the frame, whether its bit was set, and how
many user page-table entries pointed at it, apart from the entry that the
caller was about to clear. -/
structure FreeEvent where
  frame : Nat
  allocated : Bool
  mappings : Nat
deriving DecidableEq, Repr

/-- The static variables of `paging.c` with the memory they manage.
`outOfMemory` and `freeLog` are not variables of the source: they record that
an allocation returned null and which frames were freed. -/
structure PagingState where
  pmm : Pmm
  heap : Heap
  mem : Nat → Nat → UInt8
  pageRef : Nat → Nat
  spaces : SpaceId → Option AddressSpace
  nextSpace : SpaceId
  active : SpacePtr
  userSpaceCount : Nat
  outOfMemory : Bool
  freeLog : List FreeEvent

variable (st : PagingState)

namespace PagingState

/-- The entry of a live space; an absent entry for any other number. -/
def entry (id : SpaceId) (slot : Slot) : PageEntry :=
  match st.spaces id with
  | none => .absent
  | some space => space.pte slot

def frameOf (holder : SpaceId × Slot) : Option Nat :=
  (st.entry holder.1 holder.2).userFrame

def setEntry (id : SpaceId) (slot : Slot) (entry : PageEntry) : PagingState :=
  { st with
    spaces := update st.spaces id
      ((st.spaces id).map fun space =>
        { space with pte := update space.pte slot entry }) }

def mapCount (frame : Nat) : Nat :=
  ((Finset.range st.nextSpace ×ˢ (Finset.univ : Finset Slot)).filter
    fun holder => st.frameOf holder = some frame).card

def allocBlock : Option Nat × PagingState :=
  match pmmAllocBlock st.pmm with
  | (none, pmm) => (none, { st with pmm := pmm, outOfMemory := true })
  | (some addr, pmm) => (some addr, { st with pmm := pmm })

/-- `pmm_free_block((void *)(frame << 12))`, called by somebody who then clears
`clearing` entries that point at the frame. -/
def freeBlock (frame clearing : Nat) : PagingState :=
  { st with
    pmm := pmmFreeBlock st.pmm (frame * pmmBlockSize)
    freeLog := st.freeLog ++
      [{ frame := frame
         allocated := st.pmm.memoryMap frame
         mappings := st.mapCount frame - clearing }] }

/-- `kmalloc(sizeof(address_space_t))`. -/
def allocObject : Option Nat × PagingState :=
  match kmalloc st.pmm st.heap 16 with
  | (none, pmm, heap) => (none, { st with pmm := pmm, heap := heap, outOfMemory := true })
  | (some object, pmm, heap) => (some object, { st with pmm := pmm, heap := heap })

def freeObject (object : Nat) : PagingState :=
  { st with heap := kfree st.heap object }

/-- `memset(frame, 0, PMM_BLOCK_SIZE)`. -/
def zeroFrame (frame : Nat) : PagingState :=
  { st with mem := update st.mem frame fun _ => 0 }

/-- `memcpy` of one whole frame. -/
def copyFrame (target source : Nat) : PagingState :=
  { st with mem := update st.mem target (st.mem source) }

def storeByte (frame offset : Nat) (byte : UInt8) : PagingState :=
  { st with
    mem := update st.mem frame (update (st.mem frame) offset byte) }

end PagingState

open PagingState

/-- The number of frames that `page_ref` covers. -/
def frameCount : Nat := pmmMaxMemory / pmmBlockSize

/-- `page_ref` holds 16-bit counters. -/
def cowRefInc (frame : Nat) : PagingState :=
  if frame < frameCount then
    { st with
      pageRef := update st.pageRef frame ((st.pageRef frame + 1) % 2 ^ 16) }
  else st

/-- Release one reference; `true` when the frame should now be freed. -/
def cowRefRelease (frame : Nat) : Bool × PagingState :=
  if frame < frameCount ∧ 0 < st.pageRef frame then
    (false, { st with pageRef := update st.pageRef frame (st.pageRef frame - 1) })
  else (true, st)

/-- The entry that backs a user virtual address: the first table below 4 MB,
the mmap table from 32 to 36 MB, nothing elsewhere. -/
def userPte (vaddr : Nat) : Option Slot :=
  if low : vaddr < 0x400000 then
    some (.first, ⟨vaddr / 0x1000, by omega⟩)
  else if ext : userExtBase ≤ vaddr ∧ vaddr < userExtTop then
    some (.ext, ⟨(vaddr - userExtBase) / 0x1000, by
      unfold userExtBase userExtTop at *
      omega⟩)
  else none

/-- The tables of a new space: a copy of the kernel identity map and an empty
mmap table. -/
def freshTables : Slot → PageEntry
  | (.first, index) => .kernelIdentity index.val
  | (.ext, _) => .absent

/-- The static variables after `paging_install`: the kernel space is active and
no user space exists. -/
def pagingInstall (pmm : Pmm) (heap : Heap) (mem : Nat → Nat → UInt8) : PagingState where
  pmm := pmm
  heap := heap
  mem := mem
  pageRef := fun _ => 0
  spaces := fun _ => none
  nextSpace := 0
  active := .kernel
  userSpaceCount := 0
  outOfMemory := false
  freeLog := []

def freeObtained : Option Nat → PagingState
  | none => st
  | some addr => freeBlock st (addr / pmmBlockSize) 0

def pagingCreateUserAddressSpace : Option SpaceId × PagingState :=
  match allocObject st with
  | (none, st) => (none, st)
  | (some object, st) =>
    let (directory, st) := allocBlock st
    let (firstTable, st) := allocBlock st
    let (extTable, st) := allocBlock st
    match directory, firstTable, extTable with
    | some directory, some firstTable, some extTable =>
      let space : AddressSpace :=
        { object := object
          directory := directory / pmmBlockSize
          firstTable := firstTable / pmmBlockSize
          extTable := extTable / pmmBlockSize
          pte := freshTables }
      (some st.nextSpace,
        { st with
          spaces := update st.spaces st.nextSpace (some space)
          nextSpace := st.nextSpace + 1
          userSpaceCount := st.userSpaceCount + 1 })
    | directory, firstTable, extTable =>
      let st := freeObtained st directory
      let st := freeObtained st firstTable
      let st := freeObtained st extTable
      (none, freeObject st object)

/-- One turn of the loop of `paging_cow_clone_table`. -/
def cowCloneEntry (parent child : SpaceId) (st : PagingState) (slot : Slot) : PagingState :=
  let source := st.entry parent slot
  if source.present && source.user then
    if source.shared then
      cowRefInc (st.setEntry child slot source) source.frame
    else
      let source := { source with rw := false }
      cowRefInc ((st.setEntry parent slot source).setEntry child slot source) source.frame
  else st

def tableSlots (table : TableId) : List Slot :=
  (List.finRange 1024).map fun index => (table, index)

def pagingCowCloneTable (parent child : SpaceId) (table : TableId) (st : PagingState) :
    PagingState :=
  (tableSlots table).foldl (cowCloneEntry parent child) st

/-- The kernel space has no user entries and no mmap table, so cloning it
yields an empty space. -/
def pagingCloneAddressSpace (parent : SpacePtr) : Option SpaceId × PagingState :=
  match parent with
  | .null => (none, st)
  | .kernel => pagingCreateUserAddressSpace st
  | .user parent =>
    if (st.spaces parent).isNone then (none, st)
    else
      match pagingCreateUserAddressSpace st with
      | (none, st) => (none, st)
      | (some child, st) =>
        (some child,
          pagingCowCloneTable parent child .ext (pagingCowCloneTable parent child .first st))

/-- The statement shared by unmapping and destruction: the frame is freed only
once its last sharer is gone. -/
def releaseFrame (frame : Nat) : PagingState :=
  let (last, st) := cowRefRelease st frame
  if last then freeBlock st frame 1 else st

/-- One turn of the loops of `paging_destroy_user_address_space`. -/
def destroyEntry (id : SpaceId) (st : PagingState) (slot : Slot) : PagingState :=
  let page := st.entry id slot
  if page.present && page.user then
    (releaseFrame st page.frame).setEntry id slot { page with user := false }
  else st

/-- The end of `paging_destroy_user_address_space`: the tables, the directory and
the structure itself are freed. -/
def freeSpace (id : SpaceId) (space : AddressSpace) (st : PagingState) : PagingState :=
  let st := freeBlock st space.firstTable 0
  let st := freeBlock st space.extTable 0
  let st := freeBlock st space.directory 0
  let st := freeObject st space.object
  { st with
    spaces := update st.spaces id none
    userSpaceCount := st.userSpaceCount - 1 }

def pagingDestroyUserAddressSpace (ptr : SpacePtr) : PagingState :=
  match ptr with
  | .null | .kernel => st
  | .user id =>
    match st.spaces id with
    | none => st
    | some space =>
      let st := if ptr = st.active then { st with active := .kernel } else st
      let st := (tableSlots .first ++ tableSlots .ext).foldl (destroyEntry id) st
      freeSpace id space st

def pagingActivateAddressSpace (ptr : SpacePtr) : PagingState :=
  match ptr with
  | .null | .kernel => { st with active := .kernel }
  | .user id =>
    if (st.spaces id).isNone then { st with active := .kernel }
    else { st with active := .user id }

/-- The entry written for a page that has just been given the frame `frame`. -/
def mappedEntry (frame : Nat) (shared : Bool) : PageEntry where
  present := true
  rw := true
  user := true
  accessed := false
  dirty := false
  shared := shared
  frame := frame

def pagingMapUserPage (ptr : SpacePtr) (vaddr : Nat) : Bool × PagingState :=
  match ptr with
  | .null | .kernel => (false, st)
  | .user id =>
    if (st.spaces id).isNone then (false, st)
    else
      match userPte vaddr with
      | none => (false, st)
      | some slot =>
        let page := st.entry id slot
        if page.present && page.user then (true, st)
        else
          match allocBlock st with
          | (none, st) => (false, st)
          | (some addr, st) =>
            let frame := addr / pmmBlockSize
            (true, (zeroFrame st frame).setEntry id slot (mappedEntry frame false))

def pagingUnmapUserPage (ptr : SpacePtr) (vaddr : Nat) : PagingState :=
  match ptr with
  | .null | .kernel => st
  | .user id =>
    match userPte vaddr with
    | none => st
    | some slot =>
      let page := st.entry id slot
      if page.present && page.user then
        (releaseFrame st page.frame).setEntry id slot .absent
      else st

def pagingSharePage (vaddr : Nat) : Bool × PagingState :=
  match st.active with
  | .null | .kernel => (false, st)
  | .user id =>
    if (st.spaces id).isNone then (false, st)
    else if low : vaddr < 0x400000 then
      let slot : Slot := (.first, ⟨vaddr / 0x1000, by omega⟩)
      let page := st.entry id slot
      if page.present && page.user then (page.shared, st)
      else
        match allocBlock st with
        | (none, st) => (false, st)
        | (some addr, st) =>
          let frame := addr / pmmBlockSize
          (true, (zeroFrame st frame).setEntry id slot (mappedEntry frame true))
    else (false, st)

/-- Resolve a copy-on-write fault at `addr`; `true` when it was handled. -/
def pagingTryCow (addr : Nat) : Bool × PagingState :=
  match st.active with
  | .null | .kernel => (false, st)
  | .user id =>
    match userPte addr with
    | none => (false, st)
    | some slot =>
      let page := st.entry id slot
      if !page.present || !page.user || page.rw then (false, st)
      else if 0 < st.pageRef page.frame then
        match allocBlock st with
        | (none, st) => (false, st)
        | (some addr, st) =>
          let frame := addr / pmmBlockSize
          let st := copyFrame st frame page.frame
          let st := { st with
            pageRef := update st.pageRef page.frame
              (st.pageRef page.frame - 1) }
          (true, st.setEntry id slot { page with frame := frame, rw := true })
      else (true, st.setEntry id slot { page with rw := true })

/-- The byte ring 3 reads at `vaddr` of a live space, if the page is mapped
for the user. -/
def userLoad (id : SpaceId) (vaddr : Nat) : Option UInt8 :=
  match userPte vaddr with
  | none => none
  | some slot =>
    match st.frameOf (id, slot) with
    | none => none
    | some frame => some (st.mem frame (vaddr % 0x1000))

/-- A ring 3 store in the active space.  A store to a mapped read-only page
traps first and is retried once the fault has been resolved. -/
def userStore (vaddr : Nat) (byte : UInt8) : PagingState :=
  match st.active with
  | .null | .kernel => st
  | .user id =>
    match userPte vaddr with
    | none => st
    | some slot =>
      let page := st.entry id slot
      if page.present && page.user then
        if page.rw then st.storeByte page.frame (vaddr % 0x1000) byte
        else
          match pagingTryCow st vaddr with
          | (false, st) => st
          | (true, st) => st.storeByte (st.entry id slot).frame (vaddr % 0x1000) byte
      else st

/-- The operations on user address spaces that a run consists of. -/
inductive PagingOp
  | create
  | clone (parent : SpacePtr)
  | map (space : SpacePtr) (vaddr : Nat)
  | unmap (space : SpacePtr) (vaddr : Nat)
  | share (vaddr : Nat)
  | destroy (space : SpacePtr)
  | activate (space : SpacePtr)
  | cowFault (vaddr : Nat)
  | store (vaddr : Nat) (byte : UInt8)
deriving DecidableEq, Repr

def pagingStep : PagingOp → PagingState
  | .create => (pagingCreateUserAddressSpace st).2
  | .clone parent => (pagingCloneAddressSpace st parent).2
  | .map space vaddr => (pagingMapUserPage st space vaddr).2
  | .unmap space vaddr => pagingUnmapUserPage st space vaddr
  | .share vaddr => (pagingSharePage st vaddr).2
  | .destroy space => pagingDestroyUserAddressSpace st space
  | .activate space => pagingActivateAddressSpace st space
  | .cowFault vaddr => (pagingTryCow st vaddr).2
  | .store vaddr byte => userStore st vaddr byte

end MiniOS.Paging
