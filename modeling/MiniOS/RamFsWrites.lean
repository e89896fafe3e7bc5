import MiniOS.RamFsTree

/-!
# Writes and runs of the file system in memory

A write that extends a file moves it to a larger buffer or uses the spare end of the old
one; in both cases the bytes behind the new contents are zero.  With this every operation
keeps the invariant, and so does every run, and a file behaves as an array of bytes.
-/

namespace MiniOS.RamFs

open Function

open ByteMemory (Region load store splice)
open Fat16 (CString)
open NamedTree (Table)
open RootedChains (Ends)

variable {newLength : Nat} {node : Node} {sys : System}

/-- The doubled capacity reaches the wanted length without leaving 32 bits. -/
theorem growCapacity_bounds (fits : newLength < 2 ^ 32) (turns : Nat) :
    ∀ newCap, newCap < 2 ^ 32 → 2 ^ 32 ≤ newCap * 2 ^ turns →
      newLength ≤ growCapacity turns newCap newLength ∧
        growCapacity turns newCap newLength < 2 ^ 32 := by
  induction turns with
  | zero =>
    intro newCap small enough
    omega
  | succ turns ih =>
    intro newCap small enough
    rw [growCapacity]
    split
    · split
      · exact ⟨Nat.le_refl _, fits⟩
      · refine ih (newCap * 2) (by omega) ?_
        rw [Nat.mul_assoc, Nat.mul_comm 2, ← Nat.pow_succ]
        exact enough
    · next reached => exact ⟨Nat.le_of_not_lt reached, small⟩

/-- The loop ends within 32 turns. -/
theorem growCapacity_ends (fits : newLength < 2 ^ 32) (more turns : Nat) :
    ∀ newCap, 2 ^ 32 ≤ newCap * 2 ^ turns →
      growCapacity (turns + more) newCap newLength = growCapacity turns newCap newLength := by
  induction turns with
  | zero =>
    intro newCap enough
    cases more with
    | zero => rfl
    | succ more =>
      rw [Nat.zero_add, growCapacity, growCapacity, if_neg (by omega)]
  | succ turns ih =>
    intro newCap enough
    rw [Nat.succ_add_eq_add_succ, Nat.add_succ, growCapacity, growCapacity, ih (newCap * 2)]
    rw [Nat.mul_assoc, Nat.mul_comm 2, ← Nat.pow_succ]
    exact enough

theorem allocateBuffer_bounds {capacity newCap : Nat} {first second : Option Region}
    {buffer : Region} (small : capacity < 2 ^ 32) (fits : newLength < 2 ^ 32)
    (allocated : allocateBuffer (growCapacity 32 (if capacity = 0 then 64 else capacity) newLength)
      newLength first second = some (newCap, buffer)) :
    newLength ≤ newCap ∧ newCap < 2 ^ 32 := by
  cases first with
  | some wide =>
    obtain ⟨rfl, -⟩ := Prod.mk.inj (Option.some.inj allocated)
    refine growCapacity_bounds fits 32 _ ?_ ?_
    · split <;> omega
    · split <;> omega
  | none =>
    obtain ⟨exactFit, -, same⟩ := Option.map_eq_some_iff.mp allocated
    obtain ⟨rfl, -⟩ := Prod.mk.inj same
    exact ⟨Nat.le_refl _, fits⟩

namespace BufferSound

variable {node : Node} {capacity offset newLength newCap : Nat}

theorem moved (longer : node.length ≤ newLength) (fits : newLength ≤ newCap)
    (small : newCap < 2 ^ 32) (buffer : Region) :
    BufferSound { node with data := some (movedBuffer node newCap buffer), length := newLength }
      newCap := by
  refine ⟨fits, small, fun missing => (nomatch missing), ?_⟩
  rintro data isData place behind within
  obtain rfl := Option.some.inj isData
  change newLength ≤ place at behind
  exact if_pos ⟨by omega, by omega⟩

variable (sound : BufferSound node capacity)

include sound

theorem extended (longer : node.length ≤ newLength)
    (fits : newLength ≤ capacity) : BufferSound { node with length := newLength } capacity :=
  ⟨fits, sound.bounded, sound.present, fun data isData place behind within =>
    sound.tail data isData place (Nat.le_trans longer behind) within⟩

/-- The zeros behind the contents stay. -/
theorem mapped {change : Region → Region} (zeros : ∀ data place, node.length ≤ place →
      data place = 0 → change data place = 0) :
    BufferSound { node with data := node.data.map change } capacity := by
  refine ⟨sound.fits, sound.bounded, fun missing => sound.present (Option.map_eq_none_iff.mp missing),
    ?_⟩
  intro data isData place behind within
  obtain ⟨old, isOld, rfl⟩ := Option.map_eq_some_iff.mp isData
  exact zeros old place behind (sound.tail old isOld place behind within)

theorem zeroFilled (count : Nat) :
    BufferSound { node with data := node.data.map fun data => zeroFill data node.length count }
      capacity := by
  refine sound.mapped fun data place _ zero => ?_
  rw [zeroFill]
  split
  · rfl
  · exact zero

theorem stored {buffer : List UInt8} (inside : offset + buffer.length ≤ node.length) :
    BufferSound { node with data := node.data.map fun data => store data offset buffer }
      capacity := by
  refine sound.mapped fun data place behind zero => ?_
  rwa [ByteMemory.store_outside (Or.inr (Nat.le_trans inside behind))]

omit sound in
theorem contents_of_data {data : Region} (isData : node.data = some data) :
    node.contents = load data 0 node.length := by
  rw [Node.contents, isData]
  rfl

theorem data_of_nonempty {place : Nat} (inside : place < node.length) :
    ∃ data, node.data = some data := by
  refine Option.ne_none_iff_exists'.mp fun missing => ?_
  have empty := sound.present missing
  have fits := sound.fits
  omega

theorem contents_getD {data : Region} (isData : node.data = some data) {place : Nat}
    (within : place < capacity) : data place = node.contents.getD place 0 := by
  rw [contents_of_data isData, ByteMemory.load_zero_getD]
  split
  · rfl
  · next behind => exact sound.tail data isData place (Nat.le_of_not_lt behind) within

theorem contents_length : node.contents.length = node.length := by
  by_cases empty : node.length = 0
  · rw [Node.contents, empty]
    cases node.data <;> rfl
  · obtain ⟨data, isData⟩ := sound.data_of_nonempty (Nat.pos_of_ne_zero empty)
    rw [contents_of_data isData, ByteMemory.load_length]

theorem movedBuffer_apply (buffer : Region) {place : Nat} (within : place < newCap) :
    movedBuffer node newCap buffer place = node.contents.getD place 0 := by
  rw [movedBuffer, zeroFill]
  by_cases behind : node.length ≤ place
  · rw [if_pos ⟨behind, by omega⟩, List.getD_eq_getElem?_getD,
      List.getElem?_eq_none (by rwa [sound.contents_length]), Option.getD_none]
  · obtain ⟨data, isData⟩ := sound.data_of_nonempty (Nat.lt_of_not_le behind)
    simp only [isData, copyFront, contents_of_data isData, ByteMemory.load_zero_getD, behind,
      Nat.lt_of_not_le behind, false_and, if_true, if_false]

/-- Every read returns the bytes of the contents that it asks for. -/
theorem reads (offset size : Nat) :
    ramfsRead node offset size = some ((node.contents.drop offset).take size) := by
  rw [ramfsRead]
  split
  · next ended => rw [List.drop_eq_nil_of_le (by rwa [sound.contents_length]), List.take_nil]
  · next inside =>
    obtain ⟨data, isData⟩ := sound.data_of_nonempty (Nat.lt_of_not_le inside)
    rw [contents_of_data isData, ByteMemory.load_drop_take, Nat.zero_add, isData,
      Option.map_some]

end BufferSound

/-- A file of this file system that may be written. -/
structure Writable (node : Node) : Prop where
  kind : node.kind = .file
  own : node.foreign = false
  writer : node.writer = true

/-- The open count of a file is what `impl` holds beside the dynamic flag. -/
theorem fileSound_iff (kind : node.kind = .file) (own : node.foreign = false)
    (capacity opens : Nat) :
    NodeSound node capacity opens ↔
      node.impl = (if node.writer then ramfsDynamic else 0) + ramfsOpenRef * opens ∧
        (node.writer = true → BufferSound node capacity) := by
  rw [NodeSound, own, kind]
  cases writer : node.writer <;> simp

theorem Writable.nodeSound_iff (writable : Writable node) (capacity opens : Nat) :
    NodeSound node capacity opens ↔
      node.impl = ramfsDynamic + ramfsOpenRef * opens ∧ BufferSound node capacity := by
  rw [fileSound_iff writable.kind writable.own]
  simp [writable.writer]

theorem writable_of_handler {s : State} {id : NodeId} (handler : writeHandler s id)
    (isNode : s.nodes id = some node) : Writable node := by
  simp only [writeHandler, isNode, Option.any_some, Bool.and_eq_true, decide_eq_true_eq,
    Bool.not_eq_true'] at handler
  exact ⟨handler.1.1, handler.1.2, handler.2⟩

namespace Invariant

variable {sys : System} {id : NodeId} {node : Node} {offset : Nat} {first second : Option Region}
  (inv : Invariant sys)

include inv

/-- The row of a node that lies in the table. -/
theorem row_capacity {index : Nat} (found : ramfsFindIndex sys.fs id = some index) {entry : Entry}
    (member : entry ∈ sys.fs.entries) (isNode : entry.node = id) :
    (sys.fs.entries.map Entry.capacity).getD index 0 = entry.capacity := by
  obtain ⟨front, row, back, split, isRow, length, -⟩ := findIndex_split found
  obtain rfl : entry = row :=
    inv.entry_unique member (by rw [split]; simp) (isNode.trans isRow.symm)
  simp [split, ← length]

variable (isNode : sys.fs.nodes id = some node)

include isNode

/-- The node moves to a buffer of another capacity. -/
theorem recapacitated {index capacity : Nat} {new : Node}
    (found : ramfsFindIndex sys.fs id = some index) (name : new.name = node.name)
    (kind : new.kind = node.kind) (sound : NodeSound new capacity (sys.opens id)) :
    Invariant { sys with fs := setCapacity (sys.fs.setNode id new) index capacity } := by
  obtain ⟨front, row, back, split, isRow, length, -⟩ := findIndex_split found
  have rows : (setCapacity (sys.fs.setNode id new) index capacity).entries =
      front ++ { row with capacity := capacity } :: back := by
    change sys.fs.entries.modify index _ = _
    simp [split, ← length, List.modify_eq_take_drop]
  refine inv.changed id ?_ rfl ?_ (fun _ other => update_of_ne other ..) (fun _ _ => rfl)
    new (update_self ..) ?_
  · rw [table_setCapacity]
    exact table_setNode isNode name kind
  · intro entry member other
    rw [rows] at member
    rw [split]
    rcases List.mem_append.mp member with inFront | inRest
    · exact List.mem_append_left _ inFront
    · rcases List.mem_cons.mp inRest with rfl | inBack
      · exact absurd isRow other
      · exact List.mem_append_right _ (List.mem_cons_of_mem _ inBack)
  · intro entry member same
    have newNodup : ((front ++ { row with capacity := capacity } :: back).map Entry.node).Nodup := by
      simpa [split] using inv.nodup
    rw [rows] at member
    have isNew : entry = { row with capacity := capacity } :=
      List.inj_on_of_nodup_map newNodup member (by simp) (same.trans isRow.symm)
    rw [isNew]
    exact sound

/-- A file that a write extends has the new length and stays a file that may be
written, with zeros behind its old contents. -/
theorem grow (writable : Writable node) {s : State}
    (longer : node.length ≤ newLength) (fits : newLength < 2 ^ 32)
    (grown : ramfsGrow sys.fs id node offset newLength first second = some s) :
    Invariant { sys with fs := s } ∧
      ∃ new, s.nodes id = some new ∧ Writable new ∧ new.length = newLength ∧
        ∀ data, new.data = some data → ∀ place < newLength,
          data place = node.contents.getD place 0 := by
  obtain ⟨entry, member, isEntry⟩ := inv.mem_of_live isNode
  obtain ⟨impl, buffer⟩ := (writable.nodeSound_iff _ _).mp
    (inv.contents entry member node (by rw [isEntry]; exact isNode))
  rw [isEntry] at impl
  rw [ramfsGrow] at grown
  split at grown
  · exact nomatch grown
  · next index found =>
    have capacity := inv.row_capacity found member isEntry
    simp only [capacity] at grown
    have inPlace : ∀ {new : Node}, Writable new → new.name = node.name → new.impl = node.impl →
        BufferSound new entry.capacity → Invariant { sys with fs := sys.fs.setNode id new } := by
      intro new newWritable name sameImpl sound
      refine inv.setNode isNode name (newWritable.kind.trans writable.kind.symm)
        (fun _ _ => rfl) ?_
      intro other otherMember isOther
      rw [inv.entry_unique otherMember member (isOther.trans isEntry.symm)]
      exact (newWritable.nodeSound_iff _ _).mpr ⟨sameImpl.trans impl, sound⟩
    split at grown
    · next tight =>
      split at grown
      · exact nomatch grown
      · next newCap fresh allocated =>
        obtain ⟨enough, small⟩ := allocateBuffer_bounds buffer.bounded fits allocated
        obtain rfl := Option.some.inj grown
        have newWritable : Writable { node with
            data := some (movedBuffer node newCap fresh), length := newLength } :=
          { writable with }
        refine ⟨inv.recapacitated isNode found rfl rfl ((newWritable.nodeSound_iff _ _).mpr
          ⟨impl, BufferSound.moved longer enough small fresh⟩), _, update_self ..,
          newWritable, rfl, fun data isData place inside => ?_⟩
        obtain rfl := Option.some.inj isData
        exact buffer.movedBuffer_apply fresh (Nat.lt_of_lt_of_le inside enough)
    · next room =>
      have enough : newLength ≤ entry.capacity := Nat.le_of_not_lt room
      split at grown
      · obtain rfl := Option.some.inj grown
        refine ⟨inPlace { writable with } rfl rfl
          ((buffer.zeroFilled (offset - node.length)).extended longer enough), _,
          update_self .., { writable with }, rfl, fun data isData place inside => ?_⟩
        obtain ⟨old, isOld, rfl⟩ := Option.map_eq_some_iff.mp isData
        have same := buffer.contents_getD isOld (Nat.lt_of_lt_of_le inside enough)
        rw [zeroFill]
        split
        · next hole => rw [← same, buffer.tail old isOld place hole.1 (by omega)]
        · exact same
      · obtain rfl := Option.some.inj grown
        exact ⟨inPlace { writable with } rfl rfl
          (buffer.extended longer enough), _, update_self ..,
          { writable with }, rfl, fun data isData place inside =>
            buffer.contents_getD isData (Nat.lt_of_lt_of_le inside enough)⟩

theorem grow_none
    (failed : ramfsGrow sys.fs id node offset newLength first second = none) :
    first = none ∧ second = none := by
  obtain ⟨entry, member, isEntry⟩ := inv.mem_of_live isNode
  rw [ramfsGrow] at failed
  split at failed
  · next missing =>
    rw [ramfsFindIndex, List.findIdx?_eq_none_iff] at missing
    simpa [isEntry] using missing entry member
  · dsimp only at failed
    split at failed
    · split at failed
      · next full =>
        cases first with
        | some wide => cases full
        | none => exact ⟨rfl, Option.map_eq_none_iff.mp full⟩
      · cases failed
    · split at failed <;> cases failed

theorem storeBytes (writable : Writable node)
    {buffer : List UInt8} (inside : offset + buffer.length ≤ node.length) :
    Invariant { sys with fs := RamFs.storeBytes sys.fs id offset buffer } := by
  simp only [RamFs.storeBytes, isNode]
  refine inv.setNode isNode rfl rfl (fun _ _ => rfl) fun entry member isEntry => ?_
  have newWritable : Writable { node with
      data := node.data.map fun data => store data offset buffer } :=
    { writable with }
  obtain ⟨impl, sound⟩ := (writable.nodeSound_iff _ _).mp
    (inv.contents entry member node (by rw [isEntry]; exact isNode))
  rw [isEntry] at impl
  exact (newWritable.nodeSound_iff _ _).mpr ⟨impl, sound.stored inside⟩

omit isNode

omit inv in
/-- The contents once the buffer has been copied to its place. -/
theorem contents_storeBytes {s : State} {new : Node} {data : Region} {contents : List UInt8}
    {buffer : List UInt8} (isNew : s.nodes id = some new) (writable : Writable new)
    (isData : new.data = some data)
    (length : new.length = max contents.length (offset + buffer.length))
    (same : ∀ place < new.length, data place = contents.getD place 0) :
    ∃ stored, (RamFs.storeBytes s id offset buffer).nodes id = some stored ∧ Writable stored ∧
      stored.length = max contents.length (offset + buffer.length) ∧
      stored.contents = splice contents offset buffer := by
  simp only [RamFs.storeBytes, isNew]
  refine ⟨_, update_self .., { writable with }, length, ?_⟩
  simp only [Node.contents, isData, Option.map_some, Option.getD_some]
  exact ByteMemory.load_store_eq_splice length same

theorem buffer (isNode : sys.fs.nodes id = some node) (writable : Writable node) :
    ∃ capacity, BufferSound node capacity := by
  obtain ⟨entry, member, rfl⟩ := inv.mem_of_live isNode
  exact ⟨_, ((writable.nodeSound_iff _ _).mp (inv.contents entry member node isNode)).2⟩

/-- A write fails without an effect, or it stores the whole buffer. -/
theorem write_cases (handler : writeHandler sys.fs id) (isNode : sys.fs.nodes id = some node)
    (offset : Nat) (buffer : List UInt8) (first second : Option Region) :
    (ramfsWrite sys.fs id offset buffer first second = (0, sys.fs) ∧
      (buffer.length = 0 ∨ 2 ^ 32 ≤ offset + buffer.length ∨ first = none ∧ second = none)) ∨
    ∃ fs, ramfsWrite sys.fs id offset buffer first second = (buffer.length, fs) ∧
      Invariant { sys with fs := fs } ∧ ∃ new, fs.nodes id = some new ∧ Writable new ∧
        new.length = max node.length (offset + buffer.length) ∧
        new.contents = splice node.contents offset buffer := by
  have writable := writable_of_handler handler isNode
  obtain ⟨capacity, sound⟩ := inv.buffer isNode writable
  have length := sound.contents_length
  simp only [ramfsWrite, isNode]
  split
  · exact Or.inl ⟨rfl, by omega⟩
  next fits =>
  rw [not_or, Nat.not_lt] at fits
  split
  · next longer =>
    split
    · next failed => exact Or.inl ⟨rfl, Or.inr (Or.inr (inv.grow_none isNode failed))⟩
    · next s grown =>
      obtain ⟨grownSound, new, isNew, newWritable, newLength, same⟩ :=
        inv.grow isNode writable (Nat.le_of_lt longer) (by omega) grown
      obtain ⟨_, newSound⟩ := grownSound.buffer isNew newWritable
      obtain ⟨data, isData⟩ := newSound.data_of_nonempty (show offset < new.length by omega)
      exact Or.inr ⟨_, rfl, grownSound.storeBytes isNew newWritable (Nat.le_of_eq newLength.symm),
        length ▸ contents_storeBytes isNew newWritable isData (by omega)
          (newLength ▸ same data isData)⟩
  · next inside =>
    obtain ⟨data, isData⟩ := sound.data_of_nonempty (show offset < node.length by omega)
    exact Or.inr ⟨_, rfl, inv.storeBytes isNode writable (Nat.le_of_not_lt inside),
      length ▸ contents_storeBytes isNode writable isData (by omega) fun place below =>
        sound.contents_getD isData (Nat.lt_of_lt_of_le below sound.fits)⟩

theorem write (handler : writeHandler sys.fs id) (offset : Nat)
    (buffer : List UInt8) (first second : Option Region) :
    Invariant { sys with fs := (ramfsWrite sys.fs id offset buffer first second).2 } := by
  obtain ⟨node, isNode, -⟩ := (Option.any_eq_true _ _).mp handler
  rcases inv.write_cases handler isNode offset buffer first second with ⟨result, -⟩ |
    ⟨fs, result, kept, -⟩
  · rw [result]
    exact inv
  · rw [result]
    exact kept

end Invariant

namespace Invariant

variable {sys : System} {id : NodeId} (inv : Invariant sys)

include inv

/-- The open count of a file becomes `opens`. -/
theorem recounted (isNode : sys.fs.nodes id = some node) (kind : node.kind = .file)
    (own : node.foreign = false) {impl opens : Nat}
    (count : impl = (if node.writer then ramfsDynamic else 0) + ramfsOpenRef * opens) :
    Invariant { fs := sys.fs.setNode id { node with impl := impl }
                opens := update sys.opens id opens } := by
  refine inv.setNode isNode rfl rfl (fun _ other => update_of_ne other ..) ?_
  intro entry member isEntry
  obtain ⟨-, buffer⟩ := (fileSound_iff kind own _ _).mp
    (inv.contents entry member node (by rw [isEntry]; exact isNode))
  rw [update_self, fileSound_iff (by exact kind) (by exact own)]
  exact ⟨count, fun writer => { buffer writer with }⟩

theorem file_count (handlers : fileHandlers sys.fs id) : ∃ node, sys.fs.nodes id = some node ∧
    node.kind = .file ∧ node.foreign = false ∧
      node.impl = (if node.writer then ramfsDynamic else 0) + ramfsOpenRef * sys.opens id := by
  obtain ⟨node, isNode, passes⟩ := (Option.any_eq_true _ _).mp handlers
  obtain ⟨kind, own⟩ : node.kind = .file ∧ node.foreign = false := by simpa using passes
  obtain ⟨entry, member, rfl⟩ := inv.mem_of_live isNode
  exact ⟨node, isNode, kind, own,
    ((fileSound_iff kind own _ _).mp (inv.contents entry member node isNode)).1⟩

theorem openFile (handlers : fileHandlers sys.fs id) (few : sys.opens id < 2 ^ 31 - 1) :
    Invariant { fs := ramfsOpen sys.fs id
                opens := update sys.opens id (sys.opens id + 1) } := by
  obtain ⟨node, isNode, kind, own, count⟩ := inv.file_count handlers
  have small : node.impl ≤ 0xFFFFFFFD := by
    simp only [ramfsDynamic, ramfsOpenRef] at count
    split at count <;> omega
  simp only [ramfsOpen, isNode, if_pos small]
  exact inv.recounted isNode kind own (by rw [count]; simp only [ramfsOpenRef]; omega)

theorem closeFile (handlers : fileHandlers sys.fs id) (isOpen : 0 < sys.opens id) :
    Invariant { fs := ramfsClose sys.fs id
                opens := update sys.opens id (sys.opens id - 1) } := by
  obtain ⟨node, isNode, kind, own, count⟩ := inv.file_count handlers
  have referenced : ramfsOpenRef ≤ node.impl := by
    simp only [ramfsOpenRef] at count ⊢
    omega
  simp only [ramfsClose, isNode, if_pos referenced]
  exact inv.recounted isNode kind own (by rw [count]; simp only [ramfsOpenRef]; omega)

theorem step {op : Op} (allowed : Allowed sys op) : Invariant (RamFs.step sys op) := by
  cases op with
  | createFile path kmalloc => exact inv.createFile allowed path
  | createDirectory path kmalloc => exact inv.createDirectory allowed path
  | createStaticFile path data size kmalloc => exact inv.createStaticFile allowed path data size
  | mount path id foreign =>
    exact inv.mount allowed.1 allowed.2.1 allowed.2.2.1 allowed.2.2.2 path
  | unlinkFile path => exact inv.removal (inv.removal_unlinkFile path)
  | removeDirectory path => exact inv.removal (removal_removeDirectory sys.fs path)
  | create parent name kmalloc =>
    rw [RamFs.step, ramfsCreate]
    split
    · next handlers =>
      split
      · exact inv
      · exact inv.createNode allowed (directory_of_handlers handlers) name .file
    · exact inv
  | mkdir parent name kmalloc =>
    rw [RamFs.step, ramfsMkdir]
    split
    · next handlers =>
      split
      · exact inv
      · exact inv.createNode allowed (directory_of_handlers handlers) name .directory
    · exact inv
  | unlink parent name =>
    rw [RamFs.step]
    split
    · exact inv.removal (inv.removal_unlink parent name)
    · exact inv
  | rmdir parent name =>
    rw [RamFs.step]
    split
    · exact inv.removal (removal_rmdir sys.fs parent name)
    · exact inv
  | openFile id =>
    rw [RamFs.step]
    split
    · next handlers => exact inv.openFile handlers allowed
    · exact inv
  | closeFile id =>
    rw [RamFs.step]
    split
    · next handlers => exact inv.closeFile handlers allowed
    · exact inv
  | write id offset buffer first second =>
    rw [RamFs.step]
    split
    · next handler => exact inv.write handler offset buffer first second
    · exact inv

end Invariant

variable (kmalloc : Option NodeId)

theorem start_invariant : Invariant (start kmalloc) := by
  cases kmalloc with
  | none =>
    refine ⟨⟨rfl, List.nodup_nil, ?_, ?_, ?_, ?_⟩, ?_, by decide, ?_, fun _ _ => rfl⟩
    all_goals simp [start, ramfsInit, ramfsCreateNode, State.empty, State.table, Table.nodes]
  | some id =>
    have nodes : (start (some id)).fs.nodes =
        update (fun _ => none) id (some (newNode State.empty rootName .directory 0)) := rfl
    have table : (start (some id)).fs.table = Table.single id rootName := by
      refine congrArg (Table.mk _) (funext fun other => ?_)
      rw [nodes]
      by_cases same : other = id <;> simp [same, newNode]
    refine ⟨table ▸ NamedTree.Sound.single id rootName, ?_, (by decide : 1 ≤ maxRamfsNodes), ?_,
      fun _ _ => rfl⟩
    · rintro root ⟨⟩
      rw [table]
      exact ⟨rootName, by simp [Table.single]⟩
    · intro entry member node isNode
      rw [List.mem_singleton.mp member, nodes, update_self, Option.some.injEq] at isNode
      rw [← isNode]
      exact ⟨Nat.zero_le _, rfl⟩

def Keeps (before after : State) : Prop := ∀ id ∈ before.table.nodes, id ∈ after.table.nodes

variable (s : State)

theorem Keeps.refl : Keeps s s := fun _ member => member

theorem keeps_addEntry (id parent : NodeId) (node : Node) :
    Keeps s (addEntry s id (some parent) node) := by
  intro other member
  rw [table_addEntry, NamedTree.nodes_attach]
  exact List.mem_append_left _ member

theorem keeps_createNode (parent : NodeId) (name : CString) (kind : Kind) (impl : Nat)
    (kmalloc : Option NodeId) :
    Keeps s (ramfsCreateNode s (some parent) name kind impl kmalloc).2 := by
  rcases createNode_cases s parent name kind impl kmalloc with same | ⟨id, -, -, -, result⟩
  · rw [same]
    exact Keeps.refl s
  · rw [result]
    exact keeps_addEntry s id parent _

theorem keeps_createFile (path : CString) (kmalloc : Option NodeId) :
    Keeps s (ramfsCreateFile s path kmalloc).2 := by
  rw [ramfsCreateFile]
  split
  · exact Keeps.refl s
  · exact keeps_createNode s _ _ _ _ _

theorem keeps_createStaticFile (path : CString) (data : Option Region) (size : Nat)
    (kmalloc : Option NodeId) : Keeps s (ramfsCreateStaticFile s path data size kmalloc).2 := by
  have created := keeps_createFile s path kmalloc
  rw [ramfsCreateStaticFile]
  split
  · next result =>
    rw [result] at created
    exact created
  · next id fs result =>
    rw [result] at created
    split <;> exact created

theorem keeps_storeBytes (id : NodeId) (offset : Nat) (buffer : List UInt8) :
    Keeps s (storeBytes s id offset buffer) := by
  rw [storeBytes]
  split <;> exact Keeps.refl s

theorem keeps_grow {id : NodeId} {offset : Nat} {first second : Option Region} {after : State}
    (grown : ramfsGrow s id node offset newLength first second = some after) : Keeps s after := by
  rw [ramfsGrow] at grown
  split at grown
  · exact nomatch grown
  · dsimp only at grown
    split at grown
    · split at grown
      · exact nomatch grown
      · obtain rfl := Option.some.inj grown
        rw [Keeps, table_setCapacity]
        exact Keeps.refl s
    · split at grown
      · obtain rfl := Option.some.inj grown
        exact Keeps.refl s
      · obtain rfl := Option.some.inj grown
        exact Keeps.refl s

theorem keeps_write (id : NodeId) (offset : Nat) (buffer : List UInt8)
    (first second : Option Region) : Keeps s (ramfsWrite s id offset buffer first second).2 := by
  rw [ramfsWrite]
  split
  · exact Keeps.refl s
  · split
    · exact Keeps.refl s
    · split
      · split
        · exact Keeps.refl s
        · next grown =>
          exact fun _ member => keeps_storeBytes _ _ _ _ _ (keeps_grow s grown _ member)
      · exact keeps_storeBytes s id offset buffer

/-- An operation keeps all nodes, or it removes a node. -/
theorem step_keeps_or_removes (inv : Invariant sys) (op : Op) :
    Keeps sys.fs (step sys op).fs ∨ Invariant.Removal sys.fs (step sys op).fs := by
  cases op with
  | createFile path kmalloc => exact Or.inl (keeps_createFile sys.fs path kmalloc)
  | createDirectory path kmalloc =>
    left
    rw [step, ramfsCreateDirectory]
    split
    · exact Keeps.refl _
    · exact keeps_createNode sys.fs _ _ _ _ _
  | createStaticFile path data size kmalloc =>
    exact Or.inl (keeps_createStaticFile sys.fs path data size kmalloc)
  | mount path id foreign =>
    left
    rw [step, ramfsMount]
    split
    · exact Keeps.refl _
    · split
      · exact Keeps.refl _
      · exact keeps_addEntry sys.fs _ _ _
  | unlinkFile path => exact Or.inr (inv.removal_unlinkFile path)
  | removeDirectory path => exact Or.inr (Invariant.removal_removeDirectory sys.fs path)
  | create parent name kmalloc =>
    left
    rw [step, ramfsCreate]
    split
    · split
      · exact Keeps.refl _
      · exact keeps_createNode sys.fs _ _ _ _ _
    · exact Keeps.refl _
  | mkdir parent name kmalloc =>
    left
    rw [step, ramfsMkdir]
    split
    · split
      · exact Keeps.refl _
      · exact keeps_createNode sys.fs _ _ _ _ _
    · exact Keeps.refl _
  | unlink parent name =>
    right
    rw [step]
    split
    · exact inv.removal_unlink parent name
    · exact Or.inl rfl
  | rmdir parent name =>
    right
    rw [step]
    split
    · exact Invariant.removal_rmdir sys.fs parent name
    · exact Or.inl rfl
  | openFile id =>
    left
    rw [step, ramfsOpen]
    repeat' split
    all_goals exact Keeps.refl _
  | closeFile id =>
    left
    rw [step, ramfsClose]
    repeat' split
    all_goals exact Keeps.refl _
  | write id offset buffer first second =>
    left
    rw [step]
    split
    · exact keeps_write sys.fs id offset buffer first second
    · exact Keeps.refl _

/-- What leaves the table was a dynamic node of this file system, closed and without
children. -/
theorem removed_of_not_mem (inv : Invariant sys) (op : Op) {entry : Entry}
    (member : entry ∈ sys.fs.entries)
    (gone : ∀ other ∈ (step sys op).fs.entries, other.node ≠ entry.node) :
    sys.opens entry.node = 0 ∧ (∀ other ∈ sys.fs.entries, other.parent ≠ some entry.node) ∧
      ∀ node, sys.fs.nodes entry.node = some node →
        node.foreign = false ∧ (node.kind = .file → node.writer = true) := by
  have inTable : entry.node ∈ sys.fs.table.nodes := mem_nodes_iff.mpr ⟨entry, member, rfl⟩
  have notThere : entry.node ∉ (step sys op).fs.table.nodes := fun there => by
    obtain ⟨other, otherMember, same⟩ := mem_nodes_iff.mp there
    exact gone other otherMember same
  rcases step_keeps_or_removes inv op with keeps | same | ⟨id, childless, result⟩
  · exact absurd (keeps _ inTable) notThere
  · rw [same] at notThere
    exact absurd inTable notThere
  · rw [result] at notThere
    rcases removeNode_cases sys.fs id with same | ⟨index, node, found, isNode, allowed, dropped⟩
    · rw [same] at notThere
      exact absurd inTable notThere
    · rw [dropped, (detached_dropEntry found).mem_nodes inv.tree, not_and, not_not] at notThere
      obtain rfl := notThere inTable
      obtain ⟨unopened, own, writer⟩ := (inv.contents entry member node isNode).of_removable allowed
      refine ⟨unopened, childless, fun other isOther => ?_⟩
      obtain rfl := Option.some.inj (isNode.symm.trans isOther)
      exact ⟨own, writer⟩

/-- The table is a tree with the root in its first row, no row leads to a node that has
been removed, and a dynamic file has zeros behind its contents. -/
structure TreeKept (sys : System) : Prop where
  bounded : sys.fs.entries.length ≤ maxRamfsNodes
  rootFirst : sys.fs.entries.head?.map Entry.node = sys.fs.fsRoot
  parents : ∀ entry ∈ sys.fs.entries, some entry.node ≠ sys.fs.fsRoot →
    ∃ parent ∈ sys.fs.entries, entry.parent = some parent.node ∧ sys.fs.isDirectory parent.node
  rooted : ∀ entry ∈ sys.fs.entries, ∃ path, Ends sys.fs.table.parentOf (some entry.node) path ∧
    path.Nodup ∧ path.getLast? = sys.fs.fsRoot
  names : ∀ entry ∈ sys.fs.entries, ∀ other ∈ sys.fs.entries, ∀ node otherNode,
    sys.fs.nodes entry.node = some node → sys.fs.nodes other.node = some otherNode →
    entry.parent = other.parent → node.name = otherNode.name → entry = other
  live : ∀ entry ∈ sys.fs.entries, (sys.fs.nodes entry.node).isSome ∧
    ∀ parent, entry.parent = some parent → (sys.fs.nodes parent).isSome
  dynamic : ∀ entry ∈ sys.fs.entries, ∀ node, sys.fs.nodes entry.node = some node →
    node.kind = .file → node.impl % ramfsOpenRef = ramfsDynamic →
    node.length ≤ entry.capacity ∧ ∀ offset, node.length ≤ offset → offset < entry.capacity →
      ∃ data, node.data = some data ∧ data offset = 0

theorem Invariant.treeKept (inv : Invariant sys) : TreeKept sys := by
  refine ⟨inv.bounded, ?_, ?_, ?_, ?_, ?_, ?_⟩
  · rw [← inv.tree.head, State.table, List.head?_map, Option.map_map]
    rfl
  · intro entry member notRoot
    rcases inv.tree.parent _ (mem_links member) with ⟨-, isRoot⟩ | ⟨parent, hasParent, directory⟩
    · exact absurd isRoot notRoot
    · obtain ⟨row, rowMember, rfl⟩ := mem_nodes_iff.mp (directory.mem_nodes inv.tree)
      exact ⟨row, rowMember, hasParent, isDirectory_iff.mpr directory⟩
  · intro entry member
    exact inv.tree.path_to_root (mem_nodes_iff.mpr ⟨entry, member, rfl⟩)
  · intro entry member other otherMember node otherNode isNode isOther sameParent sameName
    refine inv.entry_unique member otherMember ?_
    refine inv.tree.names _ (mem_links member) _ (mem_links otherMember) sameParent ?_
    simp [Table.nameOf, State.table, isNode, isOther, sameName]
  · intro entry member
    refine ⟨Option.isSome_iff_exists.mpr (inv.live_of_mem member), fun parent hasParent => ?_⟩
    rcases inv.tree.parent _ (mem_links member) with ⟨noParent, -⟩ | ⟨above, isAbove, directory⟩
    · cases hasParent.symm.trans noParent
    · obtain rfl := Option.some.inj (hasParent.symm.trans isAbove)
      exact label_isSome_iff.mp ((inv.tree.live parent).mpr (directory.mem_nodes inv.tree))
  · intro entry member node isNode kind dynamic
    have sound := inv.contents entry member node isNode
    have own : node.foreign = false := by
      cases foreign : node.foreign with
      | false => rfl
      | true =>
        rw [NodeSound, foreign] at sound
        cases kind.symm.trans sound.1
    obtain ⟨count, buffer⟩ := (fileSound_iff kind own _ _).mp sound
    have writer : node.writer = true := by
      by_contra static
      rw [if_neg static] at count
      simp only [ramfsOpenRef, ramfsDynamic] at count dynamic
      omega
    obtain ⟨fits, -, present, tail⟩ := buffer writer
    refine ⟨fits, fun offset behind within => ?_⟩
    cases data : node.data with
    | none =>
      rw [present data] at within
      exact absurd within (Nat.not_lt_zero _)
    | some bytes => exact ⟨bytes, rfl, tail bytes data offset behind within⟩

theorem reachable_invariant {kmalloc : Option NodeId} {ops : List Op}
    (admissible : Machine.Admissible step Allowed (start kmalloc) ops) :
    Invariant (Machine.run step (start kmalloc) ops) :=
  Machine.run_invariant_of_admissible Invariant (fun _ _ inv allowed => inv.step allowed)
    (start_invariant kmalloc) admissible

/-- In every run from `ramfs_init` the table stays a tree, and no operation removes a node
that is open, static, mounted or the parent of another. -/
theorem ramfs_tree_kept (ops : List Op)
    (admissible : Machine.Admissible step Allowed (start kmalloc) ops) :
    TreeKept (Machine.run step (start kmalloc) ops) ∧
      ∀ op, ∀ entry ∈ (Machine.run step (start kmalloc) ops).fs.entries,
        (∀ other ∈ (step (Machine.run step (start kmalloc) ops) op).fs.entries,
          other.node ≠ entry.node) →
        (Machine.run step (start kmalloc) ops).opens entry.node = 0 ∧
          (∀ other ∈ (Machine.run step (start kmalloc) ops).fs.entries,
            other.parent ≠ some entry.node) ∧
          ∀ node, (Machine.run step (start kmalloc) ops).fs.nodes entry.node = some node →
            node.foreign = false ∧ (node.kind = .file → node.writer = true) := by
  have inv := reachable_invariant admissible
  exact ⟨inv.treeKept, fun op entry member gone => removed_of_not_mem inv op member gone⟩

/-- A directory, a file in it that is written to while it is open, and its removal. -/
def directoryAndFile : List Op :=
  [.createDirectory (.ofBuffer [0x61]) (some 2),
    .createFile (.ofBuffer [0x61, 0x2F, 0x62]) (some 3), .openFile 3,
    .write 3 2 [1, 2, 3] (some fun _ => 0xFF) none, .closeFile 3,
    .unlinkFile (.ofBuffer [0x61, 0x2F, 0x62])]

theorem ramfs_tree_kept_directoryAndFile :
    TreeKept (Machine.run step (start (some 1)) directoryAndFile) :=
  (ramfs_tree_kept (some 1) directoryAndFile (by decide +kernel)).1

/-- In every state of a run a file that may be written behaves as an array of bytes. -/
theorem ramfsWrite_splices (ops : List Op)
    (admissible : Machine.Admissible step Allowed (start kmalloc) ops) (id : NodeId) (node : Node)
    (isNode : (Machine.run step (start kmalloc) ops).fs.nodes id = some node)
    (handler : writeHandler (Machine.run step (start kmalloc) ops).fs id) :
    let fs := (Machine.run step (start kmalloc) ops).fs
    node.contents.length = node.length ∧
    (∀ offset size, ramfsRead node offset size = some ((node.contents.drop offset).take size)) ∧
    (∀ capacity newLength more, 0 < capacity → newLength < 2 ^ 32 →
      growCapacity (32 + more) capacity newLength = growCapacity 32 capacity newLength) ∧
    ∀ offset buffer first second,
      (ramfsWrite fs id offset buffer first second = (0, fs) ∧
        (buffer.length = 0 ∨ 2 ^ 32 ≤ offset + buffer.length ∨ first = none ∧ second = none)) ∨
      ∃ fs' new, ramfsWrite fs id offset buffer first second = (buffer.length, fs') ∧
        fs'.nodes id = some new ∧ new.length = max node.length (offset + buffer.length) ∧
        new.contents = splice node.contents offset buffer ∧
        ∀ offset size, ramfsRead new offset size = some ((new.contents.drop offset).take size) := by
  have inv := reachable_invariant admissible
  obtain ⟨_, sound⟩ := inv.buffer isNode (writable_of_handler handler isNode)
  refine ⟨sound.contents_length, sound.reads, fun capacity newLength more positive fits =>
    growCapacity_ends fits more 32 capacity (by omega), fun offset buffer first second => ?_⟩
  rcases inv.write_cases handler isNode offset buffer first second with failed |
    ⟨fs', result, kept, new, isNew, writable, length, contents⟩
  · exact Or.inl failed
  · obtain ⟨_, newSound⟩ := kept.buffer isNew writable
    exact Or.inr ⟨fs', new, result, isNew, length, contents, newSound.reads⟩

/-- Two bytes written over the last of the five a file holds. -/
theorem ramfsWrite_splices_directoryAndFile :
    ∃ node fs' new,
      (Machine.run step (start (some 1)) (directoryAndFile.take 4)).fs.nodes 3 = some node ∧
      node.contents = [0, 0, 1, 2, 3] ∧
      ramfsWrite (Machine.run step (start (some 1)) (directoryAndFile.take 4)).fs 3 4 [9, 8]
        (some fun _ => 0xFF) none = (2, fs') ∧
      fs'.nodes 3 = some new ∧ new.contents = [0, 0, 1, 2, 9, 8] ∧
      ramfsRead new 3 9 = some [2, 9, 8] := by
  obtain ⟨node, isNode, contents⟩ := (Option.any_eq_true _ _).mp (show
    ((Machine.run step (start (some 1)) (directoryAndFile.take 4)).fs.nodes 3).any
      (fun node => node.contents = [0, 0, 1, 2, 3]) by decide +kernel)
  rw [decide_eq_true_eq] at contents
  obtain ⟨-, -, -, writes⟩ := ramfsWrite_splices (some 1) (directoryAndFile.take 4)
    (by decide +kernel) 3 node isNode (by decide +kernel)
  obtain ⟨-, refused⟩ | ⟨fs', new, written, isNew, -, spliced, reads⟩ :=
    writes 4 [9, 8] (some fun _ => 0xFF) none
  · simp at refused
  · rw [contents] at spliced
    have stored : new.contents = [0, 0, 1, 2, 9, 8] := spliced.trans (by decide)
    exact ⟨node, fs', new, isNode, contents, written, isNew, stored, by rw [reads, stored]; rfl⟩

end MiniOS.RamFs
