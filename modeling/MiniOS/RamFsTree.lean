import MiniOS.RamFs
import MiniOS.RunInvariant

/-!
# The tree of the file system in memory

Operations on the file system in memory keep its table a tree of named nodes, and the
buffer of a file zero behind the contents.  The proof separates the two: the shape of the
tree is a table of parents, which only adding and removing a node change, and what is
known of a single node depends on nothing but the node, its capacity and the number of
times it is open.
-/

namespace MiniOS.RamFs

open Function

open ByteMemory (Region store)
open Fat16 (CString)
open NamedTree (Table Sound Detached)

/-- The file system and, for every node, how many opens are not closed yet. -/
structure System where
  fs : State
  opens : NodeId → Nat

inductive Op
  | createFile (path : CString) (kmalloc : Option NodeId)
  | createDirectory (path : CString) (kmalloc : Option NodeId)
  | createStaticFile (path : CString) (data : Option Region) (size : Nat)
      (kmalloc : Option NodeId)
  | mount (path : CString) (id : NodeId) (foreign : Node)
  | unlinkFile (path : CString)
  | removeDirectory (path : CString)
  | create (parent : NodeId) (name : CString) (kmalloc : Option NodeId)
  | mkdir (parent : NodeId) (name : CString) (kmalloc : Option NodeId)
  | unlink (parent : NodeId) (name : CString)
  | rmdir (parent : NodeId) (name : CString)
  | openFile (id : NodeId)
  | closeFile (id : NodeId)
  | write (id : NodeId) (offset : Nat) (buffer : List UInt8) (first second : Option Region)

/-- One operation; those on a node are calls through its handlers. -/
def step (sys : System) : Op → System
  | .createFile path kmalloc => { sys with fs := (ramfsCreateFile sys.fs path kmalloc).2 }
  | .createDirectory path kmalloc => { sys with fs := (ramfsCreateDirectory sys.fs path kmalloc).2 }
  | .createStaticFile path data size kmalloc =>
    { sys with fs := (ramfsCreateStaticFile sys.fs path data size kmalloc).2 }
  | .mount path id foreign => { sys with fs := (ramfsMount sys.fs path id foreign).2 }
  | .unlinkFile path => { sys with fs := (ramfsUnlinkFile sys.fs path).2 }
  | .removeDirectory path => { sys with fs := (ramfsRemoveDirectory sys.fs path).2 }
  | .create parent name kmalloc =>
    if directoryHandlers sys.fs parent then
      { sys with fs := (ramfsCreate sys.fs parent name kmalloc).2 }
    else sys
  | .mkdir parent name kmalloc =>
    if directoryHandlers sys.fs parent then
      { sys with fs := (ramfsMkdir sys.fs parent name kmalloc).2 }
    else sys
  | .unlink parent name =>
    if directoryHandlers sys.fs parent then
      { sys with fs := (ramfsUnlink sys.fs parent name).2 }
    else sys
  | .rmdir parent name =>
    if directoryHandlers sys.fs parent then
      { sys with fs := (ramfsRmdir sys.fs parent name).2 }
    else sys
  | .openFile id =>
    if fileHandlers sys.fs id then
      { fs := ramfsOpen sys.fs id, opens := update sys.opens id (sys.opens id + 1) }
    else sys
  | .closeFile id =>
    if fileHandlers sys.fs id then
      { fs := ramfsClose sys.fs id, opens := update sys.opens id (sys.opens id - 1) }
    else sys
  | .write id offset buffer first second =>
    if writeHandler sys.fs id then
      { sys with fs := (ramfsWrite sys.fs id offset buffer first second).2 }
    else sys

/-- What `kmalloc` returns for a node is not in use. -/
def Fresh (s : State) (kmalloc : Option NodeId) : Prop :=
  ∀ id ∈ kmalloc, (s.nodes id).isNone

/-- The operations considered: `kmalloc` returns fresh memory or nothing, what is mounted
is a directory of another file system that is not in the table yet, a close belongs to an
open, and there are fewer than 2^31 - 1 opens. -/
def Allowed (sys : System) : Op → Prop
  | .createFile _ kmalloc => Fresh sys.fs kmalloc
  | .createDirectory _ kmalloc => Fresh sys.fs kmalloc
  | .createStaticFile _ _ _ kmalloc => Fresh sys.fs kmalloc
  | .mount _ id foreign =>
    (∀ entry ∈ sys.fs.entries, entry.node ≠ id) ∧ foreign.kind = .directory ∧
      foreign.impl = 0 ∧ foreign.foreign = true
  | .create _ _ kmalloc => Fresh sys.fs kmalloc
  | .mkdir _ _ kmalloc => Fresh sys.fs kmalloc
  | .openFile id => sys.opens id < 2 ^ 31 - 1
  | .closeFile id => 0 < sys.opens id
  | _ => True

instance (s : State) : ∀ kmalloc, Decidable (Fresh s kmalloc)
  | none => isTrue (by simp [Fresh])
  | some id => decidable_of_iff (s.nodes id).isNone (by simp [Fresh])

instance (sys : System) (op : Op) : Decidable (Allowed sys op) := by
  cases op <;> unfold Allowed <;> infer_instance

/-- The state behind `ramfs_init`. -/
def start (kmalloc : Option NodeId) : System where
  fs := ramfsInit State.empty kmalloc
  opens := fun _ => 0

def State.table (s : State) : Table NodeId CString where
  links := s.entries.map fun entry => (entry.node, entry.parent)
  label := fun id => (s.nodes id).map fun node => (node.name, decide (node.kind = .directory))

variable {s : State} {id : NodeId} {entry : Entry} {index : Nat} {node : Node}

theorem mem_nodes_iff : id ∈ s.table.nodes ↔ ∃ entry ∈ s.entries, entry.node = id := by
  simp [Table.nodes, State.table]

theorem mem_links (member : entry ∈ s.entries) : (entry.node, entry.parent) ∈ s.table.links :=
  List.mem_map_of_mem (f := fun entry : Entry => (entry.node, entry.parent)) member

theorem label_isSome_iff : (s.table.label id).isSome ↔ (s.nodes id).isSome := by
  simp [State.table]

theorem isDirectory_iff : s.isDirectory id = true ↔ s.table.Directory id := by
  simp only [State.isDirectory, Table.Directory, State.table, Option.any_eq_true,
    decide_eq_true_eq, Option.map_eq_some_iff, Prod.mk.injEq]
  constructor
  · rintro ⟨node, found, isDirectory⟩
    exact ⟨node.name, node, found, rfl, isDirectory⟩
  · rintro ⟨name, node, found, -, isDirectory⟩
    exact ⟨node, found, isDirectory⟩

variable {old new : Node}

theorem table_setNode (found : s.nodes id = some old)
    (name : new.name = old.name) (kind : new.kind = old.kind) :
    (s.setNode id new).table = s.table := by
  rw [State.table, State.table, State.setNode]
  congr 1
  funext other
  by_cases same : other = id
  · subst same
    simp [found, name, kind]
  · simp [update_of_ne same]

theorem table_setCapacity (s : State) (index capacity : Nat) :
    (setCapacity s index capacity).table = s.table := by
  rw [State.table, State.table, setCapacity]
  congr 1
  refine List.ext_getElem (by simp) fun place _ _ => ?_
  simp only [List.getElem_map, List.getElem_modify]
  split <;> rfl

theorem table_addEntry (s : State) (id parent : NodeId) (node : Node) :
    (addEntry s id (some parent) node).table =
      s.table.attach id parent node.name (decide (node.kind = .directory)) := by
  rw [State.table, addEntry, Table.attach, State.table]
  congr 1
  · simp
  · funext other
    by_cases same : other = id
    · subst same
      simp
    · simp [update_of_ne same]

theorem findIndex_split (found : ramfsFindIndex s id = some index) :
    ∃ front entry back, s.entries = front ++ entry :: back ∧ entry.node = id ∧
      front.length = index ∧ s.entries.eraseIdx index = front ++ back := by
  rw [ramfsFindIndex, List.findIdx?_eq_some_iff_getElem] at found
  obtain ⟨within, isNode, -⟩ := found
  refine ⟨s.entries.take index, s.entries[index], s.entries.drop (index + 1), ?_,
    by simpa using isNode, List.length_take_of_le (Nat.le_of_lt within), ?_⟩
  · simp
  · exact List.eraseIdx_eq_take_drop_succ ..

theorem detached_dropEntry (found : ramfsFindIndex s id = some (index + 1)) :
    Detached s.table (dropEntry s id (index + 1)).table id := by
  obtain ⟨front, entry, back, split, isNode, length, erased⟩ := findIndex_split found
  refine ⟨⟨front.map fun entry => (entry.node, entry.parent), entry.parent,
    back.map fun entry => (entry.node, entry.parent), ?_, ?_, ?_⟩, ?_⟩
  · simp [State.table, split, isNode]
  · intro empty
    rw [List.map_eq_nil_iff] at empty
    rw [empty] at length
    exact nomatch length
  · simp [State.table, dropEntry, erased]
  · funext other
    by_cases same : other = id
    · subst same
      simp [State.table, dropEntry]
    · simp [State.table, dropEntry, update_of_ne same]

/-- The buffer of a file that may grow: it holds the contents, and zeros behind them. -/
structure BufferSound (node : Node) (capacity : Nat) : Prop where
  fits : node.length ≤ capacity
  bounded : capacity < 2 ^ 32
  present : node.data = none → capacity = 0
  tail : ∀ data, node.data = some data → ∀ offset, node.length ≤ offset → offset < capacity →
    data offset = 0

/-- The open count of a file stands in `impl` beside the dynamic flag; directories and
mounted nodes are never opened. -/
def NodeSound (node : Node) (capacity opens : Nat) : Prop :=
  if node.foreign then node.kind = .directory ∧ node.impl = 0 ∧ opens = 0
  else
    match node.kind with
    | .directory => node.impl ≤ ramfsDynamic ∧ opens = 0
    | .file =>
      if node.writer then
        node.impl = ramfsDynamic + ramfsOpenRef * opens ∧ BufferSound node capacity
      else node.impl = ramfsOpenRef * opens

structure Invariant (sys : System) : Prop where
  tree : Sound sys.fs.table sys.fs.fsRoot
  rootDirectory : ∀ root, sys.fs.fsRoot = some root → sys.fs.table.Directory root
  bounded : sys.fs.entries.length ≤ maxRamfsNodes
  contents : ∀ entry ∈ sys.fs.entries, ∀ node, sys.fs.nodes entry.node = some node →
    NodeSound node entry.capacity (sys.opens entry.node)
  closed : ∀ id, sys.fs.nodes id = none → sys.opens id = 0

variable {fs : State} {parent : NodeId}

namespace Invariant

variable {sys : System} (inv : Invariant sys)

include inv

theorem mem_of_live (found : sys.fs.nodes id = some node) :
    ∃ entry ∈ sys.fs.entries, entry.node = id := by
  rw [← mem_nodes_iff, ← inv.tree.live, label_isSome_iff, found]
  rfl

theorem live_of_mem (member : entry ∈ sys.fs.entries) :
    ∃ node, sys.fs.nodes entry.node = some node := by
  rw [← Option.isSome_iff_exists, ← label_isSome_iff, inv.tree.live]
  exact NamedTree.mem_nodes_of_mem (mem_links member)

theorem nodup : (sys.fs.entries.map Entry.node).Nodup := by
  have distinct := inv.tree.nodup
  rwa [Table.nodes, State.table, List.map_map] at distinct

theorem entry_unique {other : Entry} (member : entry ∈ sys.fs.entries)
    (otherMember : other ∈ sys.fs.entries) (same : entry.node = other.node) : entry = other :=
  List.inj_on_of_nodup_map inv.nodup member otherMember same

variable {opens : NodeId → Nat}

/-- One node and its capacity change, the tree does not. -/
theorem changed (id : NodeId) (table : fs.table = sys.fs.table) (root : fs.fsRoot = sys.fs.fsRoot)
    (entries : ∀ entry ∈ fs.entries, entry.node ≠ id → entry ∈ sys.fs.entries)
    (nodes : ∀ other, other ≠ id → fs.nodes other = sys.fs.nodes other)
    (counts : ∀ other, other ≠ id → opens other = sys.opens other)
    (node : Node) (found : fs.nodes id = some node)
    (sound : ∀ entry ∈ fs.entries, entry.node = id → NodeSound node entry.capacity (opens id)) :
    Invariant { fs := fs, opens := opens } := by
  have lengths : fs.entries.length = sys.fs.entries.length := by
    simpa [State.table] using congrArg (fun t : Table NodeId CString => t.links.length) table
  refine ⟨?_, ?_, ?_, ?_, ?_⟩
  · rw [table, root]
    exact inv.tree
  · rw [table, root]
    exact inv.rootDirectory
  · exact lengths ▸ inv.bounded
  · intro entry member other otherFound
    by_cases same : entry.node = id
    · rw [same, found, Option.some.injEq] at otherFound
      subst otherFound
      rw [same]
      exact sound entry member same
    · dsimp only
      rw [counts _ same]
      exact inv.contents entry (entries entry member same) other (by rw [← nodes _ same]; exact otherFound)
  · intro other missing
    by_cases same : other = id
    · rw [same, found] at missing
      exact nomatch missing
    · dsimp only
      rw [counts other same]
      exact inv.closed other (by rw [← nodes other same]; exact missing)

theorem setNode (found : sys.fs.nodes id = some old) (name : new.name = old.name)
    (kind : new.kind = old.kind)
    (counts : ∀ other, other ≠ id → opens other = sys.opens other)
    (sound : ∀ entry ∈ sys.fs.entries, entry.node = id → NodeSound new entry.capacity (opens id)) :
    Invariant { fs := sys.fs.setNode id new, opens := opens } :=
  inv.changed id (table_setNode found name kind) rfl (fun _ member _ => member)
    (fun _ other => update_of_ne other ..) counts new (update_self ..) sound

theorem added (room : sys.fs.entries.length < maxRamfsNodes)
    (fresh : ∀ entry ∈ sys.fs.entries, entry.node ≠ id) (isDirectory : sys.fs.isDirectory parent)
    (free : ramfsFindChild sys.fs parent node.name = none) (sound : NodeSound node 0 0) :
    Invariant { sys with fs := addEntry sys.fs id (some parent) node } := by
  have notThere : id ∉ sys.fs.table.nodes := fun member => by
    obtain ⟨entry, inTable, same⟩ := mem_nodes_iff.mp member
    exact fresh entry inTable same
  have missing : sys.fs.nodes id = none := by
    rw [← Option.not_isSome_iff_eq_none, ← label_isSome_iff, inv.tree.live]
    exact notThere
  have nameFree : ∀ link ∈ sys.fs.table.links, link.2 = some parent →
      sys.fs.table.nameOf link.1 ≠ some node.name := by
    intro link member below sameName
    obtain ⟨entry, inTable, rfl⟩ := List.mem_map.mp member
    rw [ramfsFindChild, if_pos isDirectory, Option.map_eq_none_iff, List.find?_eq_none] at free
    apply free entry inTable
    simp only [Table.nameOf, State.table, Option.map_map, Option.map_eq_some_iff,
      Function.comp_apply] at sameName
    obtain ⟨child, found, same⟩ := sameName
    simp only [isChild, found, Option.any_some, Bool.and_eq_true, decide_eq_true_eq]
    exact ⟨below, same⟩
  have tree : Sound (sys.fs.table.attach id parent node.name (decide (node.kind = .directory)))
      sys.fs.fsRoot := inv.tree.attach notThere (isDirectory_iff.mp isDirectory) nameFree
  rw [← table_addEntry] at tree
  refine ⟨tree, ?_, ?_, ?_, ?_⟩
  · intro root isRoot
    dsimp only
    rw [table_addEntry]
    exact (inv.rootDirectory root isRoot).attach inv.tree notThere
  · change (sys.fs.entries ++ [_]).length ≤ _
    rw [List.length_append, List.length_singleton]
    exact room
  · intro entry member other found
    rcases List.mem_append.mp member with old | new
    · have notNew := fresh entry old
      exact inv.contents entry old other (by rw [← found]; exact (update_of_ne notNew ..).symm)
    · obtain rfl := List.mem_singleton.mp new
      obtain rfl : node = other := by simpa [addEntry] using found
      rw [inv.closed id missing]
      exact sound
  · intro other otherMissing
    refine inv.closed other ?_
    by_cases same : other = id
    · exact same ▸ missing
    · rw [← otherMissing]
      exact (update_of_ne same ..).symm

end Invariant

theorem NodeSound.of_removable {capacity opens : Nat} (sound : NodeSound node capacity opens)
    (allowed : removable node) :
    opens = 0 ∧ node.foreign = false ∧ (node.kind = .file → node.writer = true) := by
  obtain ⟨dynamic, unopened⟩ : node.impl % 2 = 1 ∧ node.impl / 2 = 0 := by
    rw [removable, Bool.and_eq_true, decide_eq_true_eq, decide_eq_true_eq] at allowed
    exact allowed
  rw [NodeSound] at sound
  split at sound
  · omega
  · next notForeign =>
    refine ⟨?_, by simpa using notForeign, ?_⟩
    · split at sound
      · exact sound.2
      · split at sound
        · have := sound.1
          simp only [ramfsDynamic, ramfsOpenRef] at this
          omega
        · simp only [ramfsOpenRef] at sound
          omega
    · intro isFile
      rw [isFile] at sound
      dsimp only at sound
      split at sound
      · assumption
      · simp only [ramfsOpenRef] at sound
        omega

/-- What `ramfs_remove_node` may do: nothing, or take out a node that passes its test. -/
theorem removeNode_cases (s : State) (id : NodeId) :
    (ramfsRemoveNode s id).2 = s ∨ ∃ index node, ramfsFindIndex s id = some (index + 1) ∧
      s.nodes id = some node ∧ removable node = true ∧
      (ramfsRemoveNode s id).2 = dropEntry s id (index + 1) := by
  rw [ramfsRemoveNode]
  split
  · exact Or.inl rfl
  · exact Or.inl rfl
  · next index found =>
    split
    · next passes =>
      obtain ⟨node, isNode, allowed⟩ := Option.any_eq_true _ _ |>.mp passes
      exact Or.inr ⟨index, node, found, isNode, allowed, rfl⟩
    · exact Or.inl rfl

namespace Invariant

variable {sys : System}

theorem childless_links (childless : ∀ entry ∈ sys.fs.entries, entry.parent ≠ some id) :
    ∀ link ∈ sys.fs.table.links, link.2 ≠ some id := by
  intro link member
  obtain ⟨entry, inTable, rfl⟩ := List.mem_map.mp member
  exact childless entry inTable

theorem entry_of_findIndex (found : ramfsFindIndex sys.fs id = some index) :
    ∃ entry ∈ sys.fs.entries, entry.node = id := by
  obtain ⟨front, entry, back, split, isNode, -, -⟩ := findIndex_split found
  exact ⟨entry, by rw [split]; simp, isNode⟩

theorem removeNode (inv : Invariant sys)
    (childless : ∀ entry ∈ sys.fs.entries, entry.parent ≠ some id) :
    Invariant { sys with fs := (ramfsRemoveNode sys.fs id).2 } := by
  rcases removeNode_cases sys.fs id with same | ⟨index, node, found, isNode, allowed, result⟩
  · rw [same]
    exact inv
  · rw [result]
    have detached := detached_dropEntry found
    have erased : ∀ entry ∈ (dropEntry sys.fs id (index + 1)).entries,
        entry ∈ sys.fs.entries ∧ entry.node ≠ id := fun entry member =>
      ⟨List.mem_of_mem_eraseIdx member, ((detached.mem_links inv.tree _).mp (mem_links member)).2⟩
    obtain ⟨row, rowMember, rfl⟩ := entry_of_findIndex found
    refine ⟨inv.tree.detach detached (childless_links childless), ?_, ?_, ?_, ?_⟩
    · intro root isRoot
      refine (inv.rootDirectory root isRoot).detach detached ?_
      -- the root stands in the first row, and that row is never removed
      rintro rfl
      obtain ⟨front, entry, back, split, isEntry, length, -⟩ := findIndex_split found
      have first := inv.tree.head
      have nodup := inv.tree.nodup
      change sys.fs.fsRoot = some row.node at isRoot
      cases front with
      | nil => exact nomatch length
      | cons head front =>
        simp only [State.table, split, List.cons_append, List.map_cons, List.head?_cons,
          Option.map_some, isRoot, Option.some.injEq] at first
        simp [Table.nodes, State.table, split, isEntry, first] at nodup
    · exact Nat.le_trans (List.length_eraseIdx_le ..) inv.bounded
    · intro entry member other isOther
      obtain ⟨old, notRow⟩ := erased entry member
      refine inv.contents entry old other ?_
      rw [← isOther]
      exact (update_of_ne notRow ..).symm
    · intro other missing
      by_cases same : other = row.node
      · subst same
        exact ((inv.contents row rowMember node isNode).of_removable allowed).1
      · refine inv.closed other ?_
        rw [← missing]
        exact (update_of_ne same ..).symm

theorem childless_of_isFile (inv : Invariant sys) (isFile : sys.fs.isFile id) :
    ∀ entry ∈ sys.fs.entries, entry.parent ≠ some id := by
  intro entry member isParent
  obtain ⟨node, isNode, kind⟩ := (Option.any_eq_true _ _).mp isFile
  rcases inv.tree.parent _ (mem_links member) with ⟨noParent, -⟩ | ⟨parent, hasParent, directory⟩
  · rw [isParent] at noParent
    exact nomatch noParent
  · obtain rfl : id = parent := Option.some.inj (isParent.symm.trans hasParent)
    obtain ⟨other, isOther, isDirectory⟩ := (Option.any_eq_true _ _).mp (isDirectory_iff.mpr directory)
    rw [isNode, Option.some.injEq] at isOther
    subst isOther
    simp_all

theorem childless_of_hasChildren (none : ramfsHasChildren s id = false) :
    ∀ entry ∈ s.entries, entry.parent ≠ some id := by
  intro entry member isParent
  simp only [ramfsHasChildren, List.any_eq_false, decide_eq_true_eq] at none
  exact none entry member isParent

end Invariant

/-- What `ramfs_create_node` may do: nothing, or add a node under a free name. -/
theorem createNode_cases (s : State) (parent : NodeId) (name : CString) (kind : Kind) (impl : Nat)
    (kmalloc : Option NodeId) :
    ramfsCreateNode s (some parent) name kind impl kmalloc = (none, s) ∨
      ∃ id ∈ kmalloc, s.entries.length < maxRamfsNodes ∧ ramfsFindChild s parent name = none ∧
        ramfsCreateNode s (some parent) name kind impl kmalloc =
          (some id, { addEntry s id (some parent) (newNode s name kind impl) with
            nextInode := (s.nextInode + 1) % 2 ^ 32 }) := by
  unfold ramfsCreateNode
  split
  · exact Or.inl rfl
  · next passes =>
    simp only [not_or, Option.bind_some, Option.not_isSome_iff_eq_none, Nat.not_le] at passes
    cases kmalloc with
    | none => exact Or.inl rfl
    | some id => exact Or.inr ⟨id, rfl, passes.2.1, passes.2.2, rfl⟩

theorem newNode_sound (s : State) (name : CString) (kind : Kind) :
    NodeSound (newNode s name kind ramfsDynamic) 0 0 := by
  cases kind with
  | directory => exact ⟨Nat.le_refl _, rfl⟩
  | file =>
    exact ⟨rfl, Nat.le_refl _, by decide, fun _ => rfl, fun data isData => nomatch isData⟩

variable {name : CString}

theorem ramfsParseComponent_valid {cursor rest : List UInt8}
    (parsed : ramfsParseComponent cursor = some (name, rest)) : ramfsComponentValid name = true := by
  rw [ramfsParseComponent] at parsed
  split at parsed
  · exact nomatch parsed
  · split at parsed
    · next valid =>
      obtain ⟨rfl, -⟩ := Prod.mk.inj (Option.some.inj parsed)
      exact valid
    · exact nomatch parsed

variable {directory : NodeId}

theorem resolveParentLoop_spec (turns : Nat) : ∀ cursor parent, s.isDirectory parent →
      ramfsResolveParentLoop s turns cursor parent = some (directory, name) →
      s.isDirectory directory ∧ ramfsComponentValid name = true := by
  induction turns with
  | zero =>
    intro cursor parent _ found
    exact nomatch found
  | succ turns ih =>
    intro cursor parent isDirectory found
    rw [ramfsResolveParentLoop] at found
    split at found
    · exact nomatch found
    · next parsed =>
      obtain ⟨rfl, rfl⟩ := Prod.mk.inj (Option.some.inj found)
      exact ⟨isDirectory, ramfsParseComponent_valid parsed⟩
    · split at found
      · split at found
        · exact nomatch found
        · split at found
          · next next _ nextDirectory => exact ih _ next nextDirectory found
          · exact nomatch found
      · exact nomatch found

namespace Invariant

variable {sys : System} {path : CString} {kmalloc : Option NodeId} (inv : Invariant sys)

include inv

theorem resolveParent_spec (found : ramfsResolveParent sys.fs path = some (directory, name)) :
    sys.fs.isDirectory directory ∧ ramfsComponentValid name = true := by
  rw [ramfsResolveParent] at found
  split at found
  · exact nomatch found
  · next root isRoot =>
    split at found
    · exact nomatch found
    · dsimp only at found
      split at found
      · exact nomatch found
      · exact resolveParentLoop_spec _ _ root
          (isDirectory_iff.mpr (inv.rootDirectory root isRoot)) found

variable (fresh : Fresh sys.fs kmalloc)

include fresh

theorem entries_ne_of_fresh (isResult : id ∈ kmalloc) :
    ∀ entry ∈ sys.fs.entries, entry.node ≠ id := by
  rintro entry member rfl
  obtain ⟨node, isNode⟩ := inv.live_of_mem member
  have := fresh _ isResult
  rw [isNode] at this
  exact nomatch this

theorem createNode (isDirectory : sys.fs.isDirectory parent) (name : CString) (kind : Kind) :
    Invariant { sys with
      fs := (ramfsCreateNode sys.fs (some parent) name kind ramfsDynamic kmalloc).2 } := by
  rcases createNode_cases sys.fs parent name kind ramfsDynamic kmalloc with
    same | ⟨id, isResult, room, free, result⟩
  · rw [same]
    exact inv
  · rw [result]
    have added := inv.added room (inv.entries_ne_of_fresh fresh isResult) isDirectory free
      (newNode_sound sys.fs name kind)
    exact { added with }

theorem createFile (path : CString) :
    Invariant { sys with fs := (ramfsCreateFile sys.fs path kmalloc).2 } := by
  rw [ramfsCreateFile]
  split
  · exact inv
  · next parent name found =>
    exact inv.createNode fresh (inv.resolveParent_spec found).1 name .file

theorem createDirectory (path : CString) :
    Invariant { sys with fs := (ramfsCreateDirectory sys.fs path kmalloc).2 } := by
  rw [ramfsCreateDirectory]
  split
  · exact inv
  · next parent name found =>
    exact inv.createNode fresh (inv.resolveParent_spec found).1 name .directory

/-- A file that has just been created is not open. -/
theorem createFile_created (created : ramfsCreateFile sys.fs path kmalloc = (some id, s)) :
    sys.opens id = 0 ∧
      ∃ node, s.nodes id = some node ∧ node.kind = .file ∧ node.foreign = false := by
  rw [ramfsCreateFile] at created
  split at created
  · exact nomatch created
  · next parent name found =>
    rcases createNode_cases sys.fs parent name .file ramfsDynamic kmalloc with
      same | ⟨other, isResult, -, -, result⟩
    · rw [same] at created
      exact nomatch created
    · rw [result, Prod.mk.injEq, Option.some.injEq] at created
      obtain ⟨rfl, rfl⟩ := created
      exact ⟨inv.closed other (Option.isNone_iff_eq_none.mp (fresh other isResult)),
        newNode sys.fs name .file ramfsDynamic, update_self .., rfl, rfl⟩

theorem createStaticFile (path : CString) (data : Option Region) (size : Nat) :
    Invariant { sys with fs := (ramfsCreateStaticFile sys.fs path data size kmalloc).2 } := by
  have createdSound := inv.createFile fresh path
  rw [ramfsCreateStaticFile]
  split
  · next s created =>
    rw [created] at createdSound
    exact createdSound
  · next id s created =>
    rw [created] at createdSound
    obtain ⟨unopened, node, isNode, isFile, own⟩ := inv.createFile_created fresh created
    simp only [isNode]
    refine createdSound.setNode isNode rfl rfl (fun _ _ => rfl) fun entry _ _ => ?_
    rw [NodeSound]
    simp [own, isFile, unopened]

omit fresh

theorem mount {foreign : Node} (fresh : ∀ entry ∈ sys.fs.entries, entry.node ≠ id)
    (isDirectory : foreign.kind = .directory)
    (unused : foreign.impl = 0) (isForeign : foreign.foreign = true) (path : CString) :
    Invariant { sys with fs := (ramfsMount sys.fs path id foreign).2 } := by
  rw [ramfsMount]
  split
  · exact inv
  · next parent name found =>
    split
    · exact inv
    · next passes =>
      rw [not_or, Nat.not_le, Option.not_isSome_iff_eq_none] at passes
      refine inv.added passes.1 fresh (inv.resolveParent_spec found).1 passes.2 ?_
      rw [NodeSound]
      simp [isForeign, isDirectory, unused]

omit inv

theorem directory_of_handlers (handlers : directoryHandlers s id) : s.isDirectory id := by
  obtain ⟨node, isNode, isDirectory⟩ := (Option.any_eq_true _ _).mp handlers
  rw [State.isDirectory, isNode]
  exact (Bool.and_eq_true_iff.mp isDirectory).1

/-- Nothing happened, or `ramfs_remove_node` was called for a node without children. -/
def Removal (s after : State) : Prop :=
  after = s ∨ ∃ id, (∀ entry ∈ s.entries, entry.parent ≠ some id) ∧ after = (ramfsRemoveNode s id).2

theorem removal (inv : Invariant sys) (removal : Removal sys.fs fs) :
    Invariant { sys with fs := fs } := by
  rcases removal with rfl | ⟨id, childless, rfl⟩
  · exact inv
  · exact inv.removeNode childless

theorem removal_ofFile (inv : Invariant sys) (id : NodeId) : Removal sys.fs
      (if sys.fs.isFile id then ramfsRemoveNode sys.fs id else (false, sys.fs)).2 := by
  split
  · next isFile => exact Or.inr ⟨id, inv.childless_of_isFile isFile, rfl⟩
  · exact Or.inl rfl

theorem removal_ofDirectory (s : State) (id : NodeId) :
    Removal s (if some id = s.fsRoot ∨ s.isDirectory id = false ∨ ramfsHasChildren s id then
      (false, s) else ramfsRemoveNode s id).2 := by
  split
  · exact Or.inl rfl
  · next passes =>
    rw [not_or, not_or] at passes
    exact Or.inr ⟨id, childless_of_hasChildren (by simpa using passes.2.2), rfl⟩

theorem removal_unlinkFile (inv : Invariant sys) (path : CString) :
    Removal sys.fs (ramfsUnlinkFile sys.fs path).2 := by
  rw [ramfsUnlinkFile]
  split
  · exact Or.inl rfl
  · exact inv.removal_ofFile _

theorem removal_removeDirectory (s : State) (path : CString) :
    Removal s (ramfsRemoveDirectory s path).2 := by
  rw [ramfsRemoveDirectory]
  split
  · exact Or.inl rfl
  · exact removal_ofDirectory s _

theorem removal_unlink (inv : Invariant sys) (parent : NodeId) (name : CString) :
    Removal sys.fs (ramfsUnlink sys.fs parent name).2 := by
  rw [ramfsUnlink]
  split
  · exact Or.inl rfl
  · split
    · exact Or.inl rfl
    · exact inv.removal_ofFile _

theorem removal_rmdir (s : State) (parent : NodeId) (name : CString) :
    Removal s (ramfsRmdir s parent name).2 := by
  rw [ramfsRmdir]
  split
  · exact Or.inl rfl
  · split
    · exact Or.inl rfl
    · exact removal_ofDirectory s _

end Invariant

end MiniOS.RamFs
