import MiniOS.RamFsWrites
import MiniOS.VfsMeaning

/-!
# The two interfaces of the file system in memory

`ramfs.c` has functions on paths of its own beside the handlers that the virtual file
system calls.  As long as nothing is mounted, both sets of functions do the same: they
find the same nodes, succeed for the same paths and leave the same state behind.
-/

namespace MiniOS.RamFs

open Fat16 (CString)
open Vfs (slash dot skipSlash continues ComponentAllowed)

variable (s : State)

/-- The file system as the resolvers of `fs.c` see it. -/
def vfsTree : Vfs.Tree NodeId where
  root := s.fsRoot
  isDirectory := s.isDirectory
  finddir := fun directory name =>
    if directoryHandlers s directory then ramfsFinddir s directory name else none

@[simp]
theorem vfsTree_root : (vfsTree s).root = s.fsRoot := rfl

@[simp]
theorem vfsTree_isDirectory (id : NodeId) : (vfsTree s).isDirectory id = s.isDirectory id := rfl

def createFs (path : CString) (kmalloc : Option NodeId) : Option NodeId × State :=
  match (vfsTree s).resolveParent path with
  | none => (none, s)
  | some (parent, name) =>
    if directoryHandlers s parent then ramfsCreate s parent name kmalloc else (none, s)

def unlinkFs (path : CString) : Bool × State :=
  match (vfsTree s).resolveParent path with
  | none => (false, s)
  | some (parent, name) =>
    if directoryHandlers s parent then ramfsUnlink s parent name else (false, s)

def mkdirFs (path : CString) (kmalloc : Option NodeId) : Bool × State :=
  match (vfsTree s).resolveParent path with
  | none => (false, s)
  | some (parent, name) =>
    if directoryHandlers s parent then ramfsMkdir s parent name kmalloc else (false, s)

def rmdirFs (path : CString) : Bool × State :=
  match (vfsTree s).resolveParent path with
  | none => (false, s)
  | some (parent, name) =>
    if directoryHandlers s parent then ramfsRmdir s parent name else (false, s)

theorem ramfsParseLoop_eq (cursor : List UInt8) :
    ∀ length, ramfsParseLoop length cursor = Vfs.parseLoop length cursor := by
  induction cursor with
  | nil =>
    intro length
    rfl
  | cons char rest ih =>
    intro length
    rw [ramfsParseLoop, Vfs.parseLoop, ih]

variable {cursor : List UInt8} {name path : CString} {s : State}

theorem parseLoop_spec : ∀ {length : Nat} {component rest : List UInt8},
      Vfs.parseLoop length cursor = some (component, rest) → length < Vfs.nameSize →
        cursor = component ++ rest ∧ length + component.length < Vfs.nameSize := by
  induction cursor with
  | nil =>
    intro length component rest parsed short
    obtain ⟨rfl, rfl⟩ := Prod.mk.inj (Option.some.inj parsed)
    exact ⟨rfl, short⟩
  | cons char tail ih =>
    intro length component rest parsed short
    rw [Vfs.parseLoop] at parsed
    split at parsed
    · obtain ⟨rfl, rfl⟩ := Prod.mk.inj (Option.some.inj parsed)
      exact ⟨rfl, short⟩
    · split at parsed
      · cases parsed
      · next fits =>
        obtain ⟨⟨later, after⟩, tailParsed, same⟩ := Option.map_eq_some_iff.mp parsed
        obtain ⟨rfl, rfl⟩ := Prod.mk.inj same
        obtain ⟨split, bounded⟩ := ih tailParsed (Nat.lt_of_not_le fits)
        refine ⟨by rw [split]; rfl, ?_⟩
        dsimp only
        rw [List.length_cons]
        omega

/-- The test of `ramfs_component_valid` is that of the resolver. -/
theorem componentValid_iff {component : List UInt8} (noNul : 0 ∉ component)
    (short : component.length < Vfs.nameSize) :
    ramfsComponentValid (CString.ofBuffer component) = true ↔ ComponentAllowed component := by
  have chars : (CString.ofBuffer component).chars = component :=
    congrArg CString.chars (Vfs.ofBuffer_chars ⟨component, noNul⟩)
  simp only [ramfsComponentValid, chars, short, ComponentAllowed, decide_true, Bool.and_true,
    Bool.and_eq_true, decide_eq_true_eq, List.length_pos_iff, and_assoc]

/-- On a string the two tokenizers agree: they reject it, or read one valid name and leave
a string. -/
theorem parseComponent_cases (noNul : 0 ∉ cursor) :
    ramfsParseComponent cursor = none ∧ Vfs.parseComponent cursor = none ∨
      ∃ component rest, ramfsParseComponent cursor = some (CString.ofBuffer component, rest) ∧
        Vfs.parseComponent cursor = some (component, rest) ∧ 0 ∉ rest ∧
        ramfsComponentValid (CString.ofBuffer component) = true := by
  rw [ramfsParseComponent, Vfs.parseComponent, ramfsParseLoop_eq]
  cases parsed : Vfs.parseLoop 0 cursor with
  | none => exact .inl ⟨rfl, rfl⟩
  | some parts =>
    obtain ⟨component, rest⟩ := parts
    obtain ⟨split, bounded⟩ := parseLoop_spec parsed (by decide)
    rw [split, List.mem_append, not_or] at noNul
    have valid := componentValid_iff noNul.1 (by omega)
    by_cases allowed : ComponentAllowed component
    · have isValid := valid.mpr allowed
      exact .inr ⟨component, rest, by simp [isValid], by simp [allowed], noNul.2, isValid⟩
    · rw [← valid, Bool.not_eq_true] at allowed
      exact .inl (by simp [← valid, allowed])

def NothingMounted (s : State) : Prop :=
  ∀ entry ∈ s.entries, ∀ node, s.nodes entry.node = some node → node.foreign = false

theorem resolveLoop_not_directory {node : NodeId} (file : s.isDirectory node = false)
    (turns : Nat) (cursor : List UInt8) : ramfsResolveLoop s turns cursor node = none := by
  cases turns with
  | zero => rfl
  | succ turns =>
    rw [ramfsResolveLoop]
    split
    · rfl
    · rw [ramfsFindChild, file]
      rfl

theorem skipSlash_noNul : 0 ∉ skipSlash path.chars := by
  intro member
  refine path.noNul ?_
  cases chars : path.chars with
  | nil =>
    rw [chars] at member
    exact absurd member List.not_mem_nil
  | cons char rest =>
    rw [chars, skipSlash] at member
    split at member
    · exact List.mem_cons_of_mem _ member
    · exact member

section Resolvers

variable {sys : System} (inv : Invariant sys) (own : NothingMounted sys.fs)

include inv own

theorem handlers_eq (id : NodeId) : directoryHandlers sys.fs id = sys.fs.isDirectory id := by
  rw [directoryHandlers, State.isDirectory]
  cases isNode : sys.fs.nodes id with
  | none => rfl
  | some node =>
    obtain ⟨entry, member, rfl⟩ := inv.mem_of_live isNode
    simp [own entry member node isNode]

/-- A valid name is found alike by `ramfs_find_child` and through the handlers. -/
theorem finddir_eq (directory : NodeId) (valid : ramfsComponentValid name = true) :
    (vfsTree sys.fs).finddir directory name = ramfsFindChild sys.fs directory name := by
  rw [vfsTree]
  dsimp only
  rw [handlers_eq inv own, ramfsFinddir, if_pos valid, ramfsFindChild]
  split <;> rfl

theorem ramfsResolveLoop_eq (turns : Nat) :
    ∀ cursor node, 0 ∉ cursor → ramfsResolveLoop sys.fs turns cursor node =
      (Vfs.resolveLoop (vfsTree sys.fs).fileSystem turns cursor node ()).1 := by
  induction turns with
  | zero =>
    intro cursor node _
    rfl
  | succ turns ih =>
    intro cursor node noNul
    rw [ramfsResolveLoop, Vfs.resolveLoop]
    rcases parseComponent_cases noNul with
      ⟨none, none'⟩ | ⟨component, rest, some, some', restNoNul, valid⟩
    · rw [none, none']
    · rw [some, some']
      simp only [Vfs.Tree.fileSystem_finddir, finddir_eq inv own node valid]
      cases ramfsFindChild sys.fs node (CString.ofBuffer component) with
      | none => rfl
      | some child =>
        cases rest with
        | nil => rfl
        | cons char rest =>
          have later : 0 ∉ rest := fun member => restNoNul (List.mem_cons_of_mem _ member)
          simp only [Vfs.Tree.fileSystem_isDirectory, vfsTree_isDirectory]
          cases more : continues rest with
          | false => rfl
          | true =>
            by_cases isDirectory : sys.fs.isDirectory child = true
            · simpa [isDirectory] using ih rest child later
            · rw [Bool.not_eq_true] at isDirectory
              simp [isDirectory, resolveLoop_not_directory isDirectory]

theorem ramfsResolveParentLoop_eq (turns : Nat) :
    ∀ cursor node, 0 ∉ cursor → ramfsResolveParentLoop sys.fs turns cursor node =
      (Vfs.resolveParentLoop (vfsTree sys.fs).fileSystem turns cursor node ()).1 := by
  induction turns with
  | zero =>
    intro cursor node _
    rfl
  | succ turns ih =>
    intro cursor node noNul
    rw [ramfsResolveParentLoop, Vfs.resolveParentLoop]
    rcases parseComponent_cases noNul with
      ⟨none, none'⟩ | ⟨component, rest, some, some', restNoNul, valid⟩
    · rw [none, none']
    · rw [some, some']
      cases rest with
      | nil => rfl
      | cons char rest =>
        have later : 0 ∉ rest := fun member => restNoNul (List.mem_cons_of_mem _ member)
        simp only [Vfs.Tree.fileSystem_finddir, finddir_eq inv own node valid]
        cases more : continues rest with
        | false => rfl
        | true =>
          cases ramfsFindChild sys.fs node (CString.ofBuffer component) with
          | none => rfl
          | some child =>
            simp only [Vfs.Tree.fileSystem_isDirectory, vfsTree_isDirectory, if_true]
            by_cases isDirectory : sys.fs.isDirectory child = true
            · simpa [isDirectory] using ih rest child later
            · simp [isDirectory]

/-- `ramfs_resolve_path` is `resolve_fs`. -/
theorem ramfsResolvePath_eq (path : CString) :
    ramfsResolvePath sys.fs path = (vfsTree sys.fs).resolve path := by
  rw [ramfsResolvePath, Vfs.Tree.resolve, Vfs.resolveFs, Vfs.Tree.fileSystem_root, vfsTree_root]
  cases sys.fs.fsRoot with
  | none => rfl
  | some root =>
    dsimp only
    rw [ramfsResolveLoop_eq inv own _ _ root skipSlash_noNul]
    rw [apply_ite Prod.fst, apply_ite Prod.fst]
    rfl

theorem ramfsResolveParent_eq (path : CString) :
    ramfsResolveParent sys.fs path = (vfsTree sys.fs).resolveParent path := by
  rw [ramfsResolveParent, Vfs.Tree.resolveParent, Vfs.resolveParentFs, Vfs.Tree.fileSystem_root,
    vfsTree_root]
  cases sys.fs.fsRoot with
  | none => rfl
  | some root =>
    dsimp only
    rw [ramfsResolveParentLoop_eq inv own _ _ root skipSlash_noNul]
    rw [apply_ite Prod.fst, apply_ite Prod.fst]
    rfl

end Resolvers

section Operations

variable {sys : System} (inv : Invariant sys) (own : NothingMounted sys.fs)

include inv

theorem findIndex_of_directory {id : NodeId} (isDirectory : sys.fs.isDirectory id) :
    ∃ index, ramfsFindIndex sys.fs id = some index := by
  obtain ⟨node, isNode, -⟩ := (Option.any_eq_true _ _).mp isDirectory
  obtain ⟨entry, member, same⟩ := inv.mem_of_live isNode
  rw [← Option.isSome_iff_exists, ramfsFindIndex, List.findIdx?_isSome, List.any_eq_true]
  exact ⟨entry, member, by simpa using same⟩

include own

/-- What the resolver of `fs.c` finds as a parent: a directory with handlers that stands in
the table, and the file that the whole path names is its entry of that name. -/
theorem resolveParent_spec {parent : NodeId}
    (found : (vfsTree sys.fs).resolveParent path = some (parent, name)) :
    directoryHandlers sys.fs parent = true ∧ (∃ index, ramfsFindIndex sys.fs parent = some index) ∧
      ramfsResolvePath sys.fs path = ramfsFindChild sys.fs parent name := by
  have ramfsFound := found
  rw [← ramfsResolveParent_eq inv own] at ramfsFound
  obtain ⟨isDirectory, valid⟩ := inv.resolveParent_spec ramfsFound
  refine ⟨by rw [handlers_eq inv own]; exact isDirectory, findIndex_of_directory inv isDirectory, ?_⟩
  rw [ramfsResolvePath_eq inv own, Vfs.resolve_of_parent _ found,
    finddir_eq inv own parent valid]

/-- A path without a parent names nothing or the root. -/
theorem resolvePath_of_no_parent (missing : (vfsTree sys.fs).resolveParent path = none) {id : NodeId}
    (found : ramfsResolvePath sys.fs path = some id) : sys.fs.fsRoot = some id := by
  have resolved := found
  rw [ramfsResolvePath_eq inv own] at resolved
  by_cases root : path.chars = [] ∨ path.chars = [slash]
  · rw [ramfsResolvePath] at found
    split at found
    · cases found
    · next isRoot =>
      rw [isRoot]
      rcases root with empty | single
      · simpa [empty, skipSlash, maxRamfsPath] using found
      · simpa [single, skipSlash, maxRamfsPath] using found
  · rw [not_or] at root
    have parent := Vfs.resolveParent_of_resolve _ resolved root.1 root.2
    rw [missing] at parent
    cases parent

theorem createFile_eq (path : CString) (kmalloc : Option NodeId) :
    ramfsCreateFile sys.fs path kmalloc = createFs sys.fs path kmalloc := by
  rw [ramfsCreateFile, createFs, ramfsResolveParent_eq inv own]
  cases found : (vfsTree sys.fs).resolveParent path with
  | none => rfl
  | some result =>
    obtain ⟨parent, name⟩ := result
    obtain ⟨handlers, ⟨index, inTable⟩, -⟩ := resolveParent_spec inv own found
    simp only [handlers, if_true, ramfsCreate, inTable]

theorem createDirectory_eq (path : CString) (kmalloc : Option NodeId) :
    ramfsCreateDirectory sys.fs path kmalloc = mkdirFs sys.fs path kmalloc := by
  rw [ramfsCreateDirectory, mkdirFs, ramfsResolveParent_eq inv own]
  cases found : (vfsTree sys.fs).resolveParent path with
  | none => rfl
  | some result =>
    obtain ⟨parent, name⟩ := result
    obtain ⟨handlers, ⟨index, inTable⟩, -⟩ := resolveParent_spec inv own found
    simp only [handlers, if_true, ramfsMkdir, inTable]

theorem unlinkFile_eq (path : CString) : ramfsUnlinkFile sys.fs path = unlinkFs sys.fs path := by
  rw [ramfsUnlinkFile, unlinkFs]
  cases found : (vfsTree sys.fs).resolveParent path with
  | none =>
    cases resolved : ramfsResolvePath sys.fs path with
    | none => rfl
    | some id =>
      have isRoot := resolvePath_of_no_parent inv own found resolved
      obtain ⟨node, isNode, kind⟩ := (Option.any_eq_true _ _).mp
        (isDirectory_iff.mpr (inv.rootDirectory id isRoot))
      have notFile : sys.fs.isFile id = false := by
        rw [decide_eq_true_eq] at kind
        simp [State.isFile, isNode, kind]
      simp [notFile]
  | some result =>
    obtain ⟨parent, name⟩ := result
    obtain ⟨handlers, ⟨index, inTable⟩, resolved⟩ := resolveParent_spec inv own found
    simp only [handlers, if_true, ramfsUnlink, inTable, resolved]

theorem removeDirectory_eq (path : CString) :
    ramfsRemoveDirectory sys.fs path = rmdirFs sys.fs path := by
  rw [ramfsRemoveDirectory, rmdirFs]
  cases found : (vfsTree sys.fs).resolveParent path with
  | none =>
    cases resolved : ramfsResolvePath sys.fs path with
    | none => rfl
    | some id =>
      have isRoot := resolvePath_of_no_parent inv own found resolved
      simp [isRoot]
  | some result =>
    obtain ⟨parent, name⟩ := result
    obtain ⟨handlers, ⟨index, inTable⟩, resolved⟩ := resolveParent_spec inv own found
    simp only [handlers, if_true, ramfsRmdir, inTable, resolved]

omit inv own

/-- On a tree without mounted nodes the functions of `ramfs.c` on paths are those of
`fs.c`: the same results and the same states. -/
theorem path_interfaces_agree (inv : Invariant sys) (own : NothingMounted sys.fs)
    (path : CString) (kmalloc : Option NodeId) :
    ramfsFindNode sys.fs path = (vfsTree sys.fs).resolve path ∧
      ramfsCreateFile sys.fs path kmalloc = createFs sys.fs path kmalloc ∧
      ramfsCreateDirectory sys.fs path kmalloc = mkdirFs sys.fs path kmalloc ∧
      ramfsUnlinkFile sys.fs path = unlinkFs sys.fs path ∧
      ramfsRemoveDirectory sys.fs path = rmdirFs sys.fs path :=
  ⟨ramfsResolvePath_eq inv own path, createFile_eq inv own path kmalloc,
    createDirectory_eq inv own path kmalloc, unlinkFile_eq inv own path,
    removeDirectory_eq inv own path⟩

/-- The paths of a file in a directory, which is there to be found and removed. -/
theorem path_interfaces_agree_directoryAndFile :
    let fs := (Machine.run step (start (some 1)) (directoryAndFile.take 2)).fs
    let path : CString := .ofBuffer [0x61, 0x2F, 0x62]
    ramfsFindNode fs path = some 3 ∧
      ramfsFindNode fs path = (vfsTree fs).resolve path ∧
      ramfsCreateFile fs path (some 4) = createFs fs path (some 4) ∧
      ramfsCreateDirectory fs path (some 4) = mkdirFs fs path (some 4) ∧
      ramfsUnlinkFile fs path = unlinkFs fs path ∧
      ramfsRemoveDirectory fs path = rmdirFs fs path := by
  have own : NothingMounted (Machine.run step (start (some 1)) (directoryAndFile.take 2)).fs := by
    intro entry member node isNode
    have all : ∀ entry ∈ (Machine.run step (start (some 1)) (directoryAndFile.take 2)).fs.entries,
        ((Machine.run step (start (some 1)) (directoryAndFile.take 2)).fs.nodes entry.node).all
          (fun node => node.foreign = false) := by decide +kernel
    simpa [isNode] using all entry member
  exact ⟨by decide +kernel, path_interfaces_agree (reachable_invariant (by decide +kernel)) own
    (.ofBuffer [0x61, 0x2F, 0x62]) (some 4)⟩

end Operations

end MiniOS.RamFs
