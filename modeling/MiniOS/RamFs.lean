import MiniOS.ByteMemory
import MiniOS.NamedTree
import MiniOS.VfsPaths

/-!
# The file system in memory

The functions of `ramfs.c`.  The table `ramfs_nodes` holds a node with its parent and the
size of its buffer; the nodes themselves live on the kernel heap, and a node that has been
freed is not there any more.  What `kmalloc` returns is an argument of the operations:
nothing, the address of a node, or a buffer whose contents are arbitrary.
-/

namespace MiniOS.RamFs

open Function

open ByteMemory (Region load store)
open Fat16 (CString)
open Vfs (slash dot skipSlash continues)

abbrev NodeId := Nat

inductive Kind
  | file
  | directory
deriving DecidableEq

def maxRamfsNodes : Nat := 64

def maxRamfsPath : Nat := 128

def ramfsDynamic : Nat := 1

def ramfsOpenRef : Nat := 2

/-- The fields of `fs_node_t` that this file system reads.  The handlers of a node are
those of `ramfs.c` for its kind unless it is `foreign`; a file without `writer` has no
`write` handler.  A null `ptr` is a missing `data`. -/
structure Node where
  name : CString
  kind : Kind
  inode : Nat
  length : Nat
  impl : Nat
  writer : Bool
  foreign : Bool
  data : Option Region

structure Entry where
  node : NodeId
  parent : Option NodeId
  capacity : Nat
deriving DecidableEq

structure State where
  entries : List Entry
  nodes : NodeId → Option Node
  fsRoot : Option NodeId
  nextInode : Nat

/-- The state before `ramfs_init`. -/
def State.empty : State where
  entries := []
  nodes := fun _ => none
  fsRoot := none
  nextInode := 1

namespace State

variable (s : State)

def isDirectory (id : NodeId) : Bool := (s.nodes id).any fun node => node.kind = .directory

def isFile (id : NodeId) : Bool := (s.nodes id).any fun node => node.kind = .file

def setNode (id : NodeId) (node : Node) : State :=
  { s with nodes := update s.nodes id (some node) }

end State

/-- The test that `ramfs_find_child` makes of an entry. -/
def isChild (s : State) (parent : NodeId) (name : CString) (entry : Entry) : Bool :=
  decide (entry.parent = some parent) && (s.nodes entry.node).any fun node => node.name = name

def ramfsFindChild (s : State) (parent : NodeId) (name : CString) : Option NodeId :=
  if s.isDirectory parent then (s.entries.find? (isChild s parent name)).map Entry.node
  else none

def ramfsComponentValid (name : CString) : Bool :=
  decide (0 < name.chars.length) && decide (name.chars.length < Vfs.nameSize) &&
    decide (name.chars ≠ [dot]) && decide (name.chars ≠ [dot, dot])

def ramfsParseLoop : (length : Nat) → (cursor : List UInt8) → Option (List UInt8 × List UInt8)
  | _, [] => some ([], [])
  | length, char :: rest =>
    if char = slash then some ([], char :: rest)
    else if Vfs.nameSize ≤ length + 1 then none
    else (ramfsParseLoop (length + 1) rest).map fun parsed => (char :: parsed.1, parsed.2)

def ramfsParseComponent (cursor : List UInt8) : Option (CString × List UInt8) :=
  match ramfsParseLoop 0 cursor with
  | none => none
  | some (component, rest) =>
    if ramfsComponentValid (CString.ofBuffer component) then
      some (CString.ofBuffer component, rest)
    else none

/-- The loop of `ramfs_resolve_path`; every turn consumes a character. -/
def ramfsResolveLoop (s : State) : (turns : Nat) → List UInt8 → NodeId → Option NodeId
  | 0, _, _ => none
  | turns + 1, cursor, node =>
    match ramfsParseComponent cursor with
    | none => none
    | some (component, rest) =>
      match ramfsFindChild s node component with
      | none => none
      | some node =>
        match rest with
        | [] => some node
        | _ :: rest => if continues rest then ramfsResolveLoop s turns rest node else none

def ramfsResolvePath (s : State) (path : CString) : Option NodeId :=
  match s.fsRoot with
  | none => none
  | some root =>
    if maxRamfsPath ≤ path.chars.length then none
    else
      let cursor := skipSlash path.chars
      if cursor = [] then some root else ramfsResolveLoop s cursor.length cursor root

def ramfsResolveParentLoop (s : State) :
    (turns : Nat) → List UInt8 → NodeId → Option (NodeId × CString)
  | 0, _, _ => none
  | turns + 1, cursor, parent =>
    match ramfsParseComponent cursor with
    | none => none
    | some (component, []) => some (parent, component)
    | some (component, _ :: rest) =>
      if continues rest then
        match ramfsFindChild s parent component with
        | none => none
        | some parent =>
          if s.isDirectory parent then ramfsResolveParentLoop s turns rest parent else none
      else none

def ramfsResolveParent (s : State) (path : CString) : Option (NodeId × CString) :=
  match s.fsRoot with
  | none => none
  | some root =>
    if path.chars.length = 0 ∨ maxRamfsPath ≤ path.chars.length then none
    else
      let cursor := skipSlash path.chars
      if cursor = [] then none else ramfsResolveParentLoop s cursor.length cursor root

def ramfsFindIndex (s : State) (id : NodeId) : Option Nat :=
  s.entries.findIdx? fun entry => entry.node = id

def ramfsHasChildren (s : State) (parent : NodeId) : Bool :=
  s.entries.any fun entry => entry.parent = some parent

def ramfsOpen (s : State) (id : NodeId) : State :=
  match s.nodes id with
  | none => s
  | some node =>
    if node.impl ≤ 0xFFFFFFFD then s.setNode id { node with impl := node.impl + ramfsOpenRef }
    else s

def ramfsClose (s : State) (id : NodeId) : State :=
  match s.nodes id with
  | none => s
  | some node =>
    if ramfsOpenRef ≤ node.impl then s.setNode id { node with impl := node.impl - ramfsOpenRef }
    else s

/-- The loop that doubles the capacity.  It ends before `newCap` can wrap, so 32 turns are
enough. -/
def growCapacity : (turns : Nat) → (newCap newLength : Nat) → Nat
  | 0, newCap, _ => newCap
  | turns + 1, newCap, newLength =>
    if newCap < newLength then
      if 0xFFFFFFFF / 2 < newCap then newLength
      else growCapacity turns (newCap * 2) newLength
    else newCap

/-- `memset` to zero. -/
def zeroFill (data : Region) (start count : Nat) : Region := fun offset =>
  if start ≤ offset ∧ offset < start + count then 0 else data offset

/-- `memcpy` of the first `count` bytes. -/
def copyFront (data source : Region) (count : Nat) : Region := fun offset =>
  if offset < count then source offset else data offset

/-- The two attempts to allocate a larger buffer: the doubled capacity, then an exact fit.
The arguments are what `kmalloc` returns for them. -/
def allocateBuffer (newCap newLength : Nat) (first second : Option Region) :
    Option (Nat × Region) :=
  match first with
  | some buffer => some (newCap, buffer)
  | none => second.map fun buffer => (newLength, buffer)

/-- The buffer that replaces the old one: its contents, and zeros behind them. -/
def movedBuffer (node : Node) (newCap : Nat) (buffer : Region) : Region :=
  let copied :=
    match node.data with
    | none => buffer
    | some data => copyFront buffer data node.length
  zeroFill copied node.length (newCap - node.length)

def setCapacity (s : State) (index capacity : Nat) : State :=
  { s with entries := s.entries.modify index fun entry => { entry with capacity := capacity } }

/-- The part of `ramfs_write` that makes room: the state with the new length, or `none`
when the write fails. -/
def ramfsGrow (s : State) (id : NodeId) (node : Node) (offset newLength : Nat)
    (first second : Option Region) : Option State :=
  match ramfsFindIndex s id with
  | none => none
  | some index =>
    let capacity := (s.entries.map Entry.capacity).getD index 0
    if capacity < newLength then
      let wanted := growCapacity 32 (if capacity = 0 then 64 else capacity) newLength
      match allocateBuffer wanted newLength first second with
      | none => none
      | some (newCap, buffer) =>
        some (setCapacity
          (s.setNode id { node with
            data := some (movedBuffer node newCap buffer), length := newLength }) index newCap)
    else if node.length < offset then
      some (s.setNode id { node with
        data := node.data.map fun data => zeroFill data node.length (offset - node.length),
        length := newLength })
    else some (s.setNode id { node with length := newLength })

/-- The last `memcpy` of `ramfs_write`. -/
def storeBytes (s : State) (id : NodeId) (offset : Nat) (buffer : List UInt8) : State :=
  match s.nodes id with
  | none => s
  | some node => s.setNode id { node with data := node.data.map fun data => store data offset buffer }

/-- `ramfs_write`: the number of bytes written. -/
def ramfsWrite (s : State) (id : NodeId) (offset : Nat) (buffer : List UInt8)
    (first second : Option Region) : Nat × State :=
  match s.nodes id with
  | none => (0, s)
  | some node =>
    if buffer.length = 0 ∨ 0xFFFFFFFF - offset < buffer.length then (0, s)
    else if node.length < offset + buffer.length then
      match ramfsGrow s id node offset (offset + buffer.length) first second with
      | none => (0, s)
      | some s => (buffer.length, storeBytes s id offset buffer)
    else (buffer.length, storeBytes s id offset buffer)

/-- `ramfs_read`: the bytes stored in the buffer, or `none` for a read from a null
pointer. -/
def ramfsRead (node : Node) (offset size : Nat) : Option (List UInt8) :=
  if node.length ≤ offset then some []
  else node.data.map fun data => load data offset (min size (node.length - offset))

def Node.contents (node : Node) : List UInt8 := (node.data.map (load · 0 node.length)).getD []

def addEntry (s : State) (id : NodeId) (parent : Option NodeId) (node : Node) : State :=
  { s with
    entries := s.entries ++ [{ node := id, parent := parent, capacity := 0 }]
    nodes := update s.nodes id (some node) }

/-- The node that `ramfs_create_node` fills in. -/
def newNode (s : State) (name : CString) (kind : Kind) (impl : Nat) : Node where
  name := name
  kind := kind
  inode := s.nextInode
  length := 0
  impl := impl
  writer := decide (kind = .file)
  foreign := false
  data := none

def ramfsCreateNode (s : State) (parent : Option NodeId) (name : CString) (kind : Kind)
    (impl : Nat) (kmalloc : Option NodeId) : Option NodeId × State :=
  if ramfsComponentValid name = false ∨ maxRamfsNodes ≤ s.entries.length ∨
      (parent.bind fun parent => ramfsFindChild s parent name).isSome then (none, s)
  else
    match kmalloc with
    | none => (none, s)
    | some id =>
      (some id, { addEntry s id parent (newNode s name kind impl) with
        nextInode := (s.nextInode + 1) % 2 ^ 32 })

def rootName : CString := ⟨[0x72, 0x6F, 0x6F, 0x74], by decide⟩

def ramfsInit (s : State) (kmalloc : Option NodeId) : State :=
  match s.fsRoot with
  | some _ => s
  | none =>
    let created := ramfsCreateNode s none rootName .directory 0 kmalloc
    { created.2 with fsRoot := created.1 }

def ramfsCreate (s : State) (parent : NodeId) (name : CString) (kmalloc : Option NodeId) :
    Option NodeId × State :=
  match ramfsFindIndex s parent with
  | none => (none, s)
  | some _ => ramfsCreateNode s (some parent) name .file ramfsDynamic kmalloc

def ramfsMkdir (s : State) (parent : NodeId) (name : CString) (kmalloc : Option NodeId) :
    Bool × State :=
  match ramfsFindIndex s parent with
  | none => (false, s)
  | some _ =>
    let created := ramfsCreateNode s (some parent) name .directory ramfsDynamic kmalloc
    (created.1.isSome, created.2)

def ramfsCreateFile (s : State) (path : CString) (kmalloc : Option NodeId) :
    Option NodeId × State :=
  match ramfsResolveParent s path with
  | none => (none, s)
  | some (parent, name) => ramfsCreateNode s (some parent) name .file ramfsDynamic kmalloc

def ramfsCreateStaticFile (s : State) (path : CString) (data : Option Region) (size : Nat)
    (kmalloc : Option NodeId) : Option NodeId × State :=
  match ramfsCreateFile s path kmalloc with
  | (none, s) => (none, s)
  | (some id, s) =>
    match s.nodes id with
    | none => (some id, s)
    | some node =>
      (some id, s.setNode id
        { node with impl := 0, writer := false, data := data, length := size })

def ramfsCreateDirectory (s : State) (path : CString) (kmalloc : Option NodeId) : Bool × State :=
  match ramfsResolveParent s path with
  | none => (false, s)
  | some (parent, name) =>
    let created := ramfsCreateNode s (some parent) name .directory ramfsDynamic kmalloc
    (created.1.isSome, created.2)

/-- `ramfs_mount` of the node `foreign` at the address `id`. -/
def ramfsMount (s : State) (path : CString) (id : NodeId) (foreign : Node) : Bool × State :=
  match ramfsResolveParent s path with
  | none => (false, s)
  | some (parent, name) =>
    if maxRamfsNodes ≤ s.entries.length ∨ (ramfsFindChild s parent name).isSome then (false, s)
    else (true, addEntry s id (some parent) { foreign with name := name })

def dropEntry (s : State) (id : NodeId) (index : Nat) : State :=
  { s with
    entries := s.entries.eraseIdx index
    nodes := update s.nodes id none }

/-- The test of `ramfs_remove_node`: the dynamic flag is set and there is no open
reference. -/
def removable (node : Node) : Bool :=
  decide (node.impl % ramfsOpenRef = ramfsDynamic) && decide (node.impl / ramfsOpenRef = 0)

def ramfsRemoveNode (s : State) (id : NodeId) : Bool × State :=
  match ramfsFindIndex s id with
  | none => (false, s)
  | some 0 => (false, s)
  | some (index + 1) =>
    if (s.nodes id).any removable then (true, dropEntry s id (index + 1)) else (false, s)

def ramfsUnlink (s : State) (parent : NodeId) (name : CString) : Bool × State :=
  match ramfsFindIndex s parent with
  | none => (false, s)
  | some _ =>
    match ramfsFindChild s parent name with
    | none => (false, s)
    | some id => if s.isFile id then ramfsRemoveNode s id else (false, s)

def ramfsRmdir (s : State) (parent : NodeId) (name : CString) : Bool × State :=
  match ramfsFindIndex s parent with
  | none => (false, s)
  | some _ =>
    match ramfsFindChild s parent name with
    | none => (false, s)
    | some id =>
      if some id = s.fsRoot ∨ s.isDirectory id = false ∨ ramfsHasChildren s id then (false, s)
      else ramfsRemoveNode s id

def ramfsUnlinkFile (s : State) (path : CString) : Bool × State :=
  match ramfsResolvePath s path with
  | none => (false, s)
  | some id => if s.isFile id then ramfsRemoveNode s id else (false, s)

def ramfsRemoveDirectory (s : State) (path : CString) : Bool × State :=
  match ramfsResolvePath s path with
  | none => (false, s)
  | some id =>
    if some id = s.fsRoot ∨ s.isDirectory id = false ∨ ramfsHasChildren s id then (false, s)
    else ramfsRemoveNode s id

def ramfsFindNode (s : State) (path : CString) : Option NodeId := ramfsResolvePath s path

def ramfsFinddir (s : State) (node : NodeId) (name : CString) : Option NodeId :=
  if ramfsComponentValid name then ramfsFindChild s node name else none

def directoryHandlers (s : State) (id : NodeId) : Bool :=
  (s.nodes id).any fun node => decide (node.kind = .directory) && !node.foreign

def fileHandlers (s : State) (id : NodeId) : Bool :=
  (s.nodes id).any fun node => decide (node.kind = .file) && !node.foreign

def writeHandler (s : State) (id : NodeId) : Bool :=
  (s.nodes id).any fun node => decide (node.kind = .file) && !node.foreign && node.writer

end MiniOS.RamFs
