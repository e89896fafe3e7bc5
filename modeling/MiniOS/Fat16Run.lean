import MiniOS.Fat16Pool
import MiniOS.RunInvariant

/-!
# Runs of the FAT16 driver

The operations reach the driver through `fs.c`, which calls those that the kind
of the node offers.  Callers hold nodes of the pool by their address, so an
operation is applied to whatever the node describes when it is made.
-/

namespace MiniOS.Fat16

open Machine TracedAccess Traced

inductive NodeRef
  | root
  | pool (slot : Nat)

def rootNode : Node where
  name := ⟨[0x66, 0x61, 0x74], by decide⟩
  kind := .directory
  inode := 0
  length := 0
  impl := 0
  ptr := none

def nodeOf (d : Driver) : NodeRef → Node
  | .root => rootNode
  | .pool slot => d.pool slot

/-- The calls that can change the state of the driver. -/
inductive FatOp
  | finddir (node : NodeRef) (name : CString)
  | create (node : NodeRef) (name : CString)
  | unlink (node : NodeRef) (name : CString)
  | write (slot offset size : Nat) (buffer : Option (Nat → UInt8))
  | openNode (slot : Nat)
  | closeNode (slot : Nat)

/-- A call through `fs.c`; `none` when the driver has not returned after `rounds`
rounds of its unbounded loop. -/
def fatOp (l : Layout) (rounds : Nat) (d : Driver) : FatOp → Traced (Option Driver)
  | .finddir ref name =>
    if (nodeOf d ref).kind = .directory then
      (fun result => some result.2) <$> fat16VfsFinddir l d (nodeOf d ref) name
    else pure (some d)
  | .create ref name =>
    if (nodeOf d ref).kind = .directory then
      (fun result => some result.2) <$> fat16VfsCreate l d (nodeOf d ref) name
    else pure (some d)
  | .unlink ref name =>
    if (nodeOf d ref).kind = .directory then
      (Option.map Prod.snd) <$> fat16VfsUnlink l rounds d (nodeOf d ref) name
    else pure (some d)
  | .write slot offset size buffer =>
    if (d.pool slot).kind = .file then
      (fun result => some result.2) <$> fat16VfsWrite l d slot offset size buffer
    else pure (some d)
  | .openNode slot => pure (some (if (d.pool slot).kind = .file then fat16VfsOpen d slot else d))
  | .closeNode slot => pure (some (if (d.pool slot).kind = .file then fat16VfsClose d slot else d))

/-- A step of a run.  The loop of `fat16_vfs_unlink` needs at most as many rounds
as the volume has clusters. -/
def fatStep (l : Layout) (d : Driver) (op : FatOp) : Option Driver :=
  (fatOp l l.maxCluster d op).value

/-- The driver when `fat16_install` has mounted an image. -/
def mountedDriver (img : Bytes) : Driver where
  img := img
  pool := fun _ => clearedNode
  refs := fun _ => 0
  nodeNext := 0

variable {l : Layout} {img img' : Bytes} {d d' : Driver}

/-- The file at an entry is still there, under the same name, and its chain has at
most been extended. -/
structure KeepsFile (l : Layout) (img img' : Bytes) (e : Nat) : Prop where
  live : Live img' e
  bytes : ∀ k < 12, img' (e + k) = img (e + k)
  chain : ∀ clusters, FileChain l img (firstCluster img e) clusters →
    ∃ added, FileChain l img' (firstCluster img' e) (clusters ++ added)

variable {e slot : Nat} {old : List Nat} {name : CString} {node : Node}

theorem KeepsFile.refl (live : Live img e) : KeepsFile l img img e :=
  ⟨live, fun _ _ => rfl, fun clusters chain => ⟨[], by rwa [List.append_nil]⟩⟩

theorem KeepsFile.trans {img'' : Bytes} (first : KeepsFile l img img' e)
    (second : KeepsFile l img' img'' e) : KeepsFile l img img'' e := by
  refine ⟨second.live, fun k below => (second.bytes k below).trans (first.bytes k below),
    fun clusters chain => ?_⟩
  obtain ⟨added, chain'⟩ := first.chain clusters chain
  obtain ⟨more, chain''⟩ := second.chain _ chain'
  exact ⟨added ++ more, by rwa [← List.append_assoc]⟩

variable {new clusters : List Nat}

theorem SlotUpdate.keepsFile (update : SlotUpdate l img img' slot old new clusters)
    (wellFormed : WellFormed l img)
    (entry : Entry l img e) (other : e ≠ slot) : KeepsFile l img img' e := by
  refine ⟨(update.live_iff_of_other wellFormed entry.1 other).mpr entry.2, fun k below =>
    update.bytes_of_other wellFormed entry.1 other (by omega) (by omega), fun chain owned => ⟨[], ?_⟩⟩
  rw [List.append_nil, update.firstCluster_of_other wellFormed entry.1 other]
  exact update.chain_of_other wellFormed entry other owned

structure VolumeSound (l : Layout) (d : Driver) : Prop where
  wellFormed : WellFormed l d.img
  pool : PoolSound l (fun _ => False) d

/-- The operation keeps the invariant, and the files that are open. -/
structure Kept (l : Layout) (d d' : Driver) : Prop where
  sound : VolumeSound l d'
  ptr : ∀ i e, (d.pool i).ptr = some e → 0 < d.refs i → (d'.pool i).ptr = some e
  file : ∀ i e, (d.pool i).ptr = some e → 0 < d.refs i → Live d.img e → KeepsFile l d.img d'.img e

theorem Kept.of_same (sound : VolumeSound l d) (sameImage : d'.img = d.img)
    (samePool : d'.pool = d.pool) : Kept l d d' := by
  obtain ⟨image, pool, refs, nodeNext⟩ := d'
  obtain rfl : image = d.img := sameImage
  obtain rfl : pool = d.pool := samePool
  exact ⟨⟨sound.wellFormed, { sound.pool with }⟩, fun _ _ describes _ => describes,
    fun _ _ _ _ live => .refl live⟩

theorem Kept.refl (sound : VolumeSound l d) : Kept l d d :=
  .of_same sound rfl rfl

/-- A node of kind directory stands for a directory of the volume. -/
theorem VolumeSound.directory (sound : VolumeSound l d) {ref : NodeRef}
    (isDirectory : (nodeOf d ref).kind = .directory) : Directory l d.img (nodeOf d ref).impl := by
  cases ref with
  | root => exact .root
  | pool slot =>
    change (d.pool slot).kind = .directory at isDirectory
    change Directory l d.img (d.pool slot).impl
    cases describes : (d.pool slot).ptr with
    | none =>
      rw [sound.pool.cleared slot describes] at isDirectory
      simp at isDirectory
    | some e =>
      obtain ⟨-, live⟩ := sound.pool.directories slot e describes isDirectory
      obtain ⟨agrees, iff⟩ := sound.pool.agrees slot e describes not_false live
      obtain ⟨parent, index, reached, found⟩ := sound.pool.isSlot slot e describes
      rw [agrees.impl]
      exact .sub reached found live (iff.mp isDirectory)

theorem makeNode_same (d : Driver) (e : Nat) (name : CString) :
    (fat16MakeNode l d e name).value.2.img = d.img ∧
      (fat16MakeNode l d e name).value.2.refs = d.refs := by
  rw [fat16MakeNode_value]
  cases chooseSlot d e <;> exact ⟨rfl, rfl⟩

variable {i : Nat}

theorem makeNode_ptr {e' : Nat} (inside : e + 32 ≤ l.imgSize)
    (describes : (d.pool i).ptr = some e') (held : 0 < d.refs i) :
    ((fat16MakeNode l d e name).value.2.pool i).ptr = some e' := by
  rw [fat16MakeNode_value]
  have chosen := chooseSlot_chosen d e
  generalize chooseSlot d e = choice at chosen
  cases chosen with
  | refused _ _ => exact describes
  | @made slot nodeNext inPool choice =>
    by_cases same : i = slot
    · subst same
      rcases choice with already | ⟨unheld, -⟩
      · rw [describes, Option.some.injEq] at already
        subst already
        simp only [withNode, Function.update_self]
        exact (describe_value _ _ inside).1.ptr
      · omega
    · simp only [withNode, Function.update_of_ne same]
      exact describes

theorem VolumeSound.makeNode (sound : VolumeSound l d)
    (entry : Entry l d.img e) : Kept l d (fat16MakeNode l d e name).value.2 := by
  have inside := sound.wellFormed.slot_inside entry.1
  have image := (makeNode_same (l := l) d e name).1
  refine ⟨⟨by rw [image]; exact sound.wellFormed, ?_⟩, fun i e' describes held =>
    makeNode_ptr inside describes held, fun i e' _ _ live => by rw [image]; exact .refl live⟩
  exact sound.pool.makeNode (fun _ => False.elim) entry.1 inside fun _ => entry.2

theorem finddir_value (l : Layout) (d : Driver) (node : Node) (name : CString) :
    (∃ index ≤ maxDirSlots, NotFound l d.img node.impl name index ∧
      (fat16VfsFinddir l d node name).value = (none, d)) ∨
    ∃ e index, index < maxDirSlots ∧ FoundEntry l d.img node.impl name e index ∧
      (fat16VfsFinddir l d node name).value = (fat16MakeNode l d e (nameOf d.img e)).value := by
  have searched := findEntry_from_start l d.img node.impl name
  rw [fat16VfsFinddir]
  simp only [value_bind]
  generalize (findEntry l d.img node.impl name maxDirSlots 0).value = result at searched
  cases result with
  | none =>
    obtain ⟨index, bound, missing⟩ := searched
    exact Or.inl ⟨index, bound, missing, rfl⟩
  | some found =>
    obtain ⟨e, shown⟩ := found
    obtain ⟨rfl, index, bound, entry⟩ := searched
    exact Or.inr ⟨e, index, bound, entry, rfl⟩

theorem VolumeSound.finddir (sound : VolumeSound l d)
    (reached : Directory l d.img node.impl) (name : CString) :
    Kept l d (fat16VfsFinddir l d node name).value.2 := by
  rcases finddir_value l d node name with
    ⟨-, -, -, unchanged⟩ | ⟨e, index, -, found, made⟩
  · rw [unchanged]
    exact .refl sound
  · rw [made]
    exact sound.makeNode ⟨⟨_, index, reached, found.slot⟩, found.named.1⟩

theorem finddir_same (name : CString) : (fat16VfsFinddir l d node name).value.2.img = d.img ∧
    (fat16VfsFinddir l d node name).value.2.refs = d.refs := by
  rcases finddir_value l d node name with
    ⟨-, -, -, unchanged⟩ | ⟨e, index, -, found, made⟩
  · rw [unchanged]
    exact ⟨rfl, rfl⟩
  · rw [made]
    exact makeNode_same ..

/-- Filling a free slot and making a node for it. -/
theorem VolumeSound.fill {index directory : Nat} {field : List UInt8}
    (sound : VolumeSound l d) (reached : Directory l d.img directory)
    (found : slotAt l d.img directory index = some slot) (free : FreeSlot d.img slot)
    (earlier : Passed l d.img directory index fun before => ¬ FreeSlot d.img before)
    (head : field.getD 0 0 ≠ 0) :
    Kept l d (fat16MakeNode l { d with img := filled d.img slot field } slot name).value.2 := by
  have update := sound.wellFormed.filled reached found free earlier head
  have isSlot := (update.slot_iff sound.wellFormed).mpr update.isSlot
  have inside := sound.wellFormed.slot_inside update.isSlot
  have image := (makeNode_same (l := l) { d with img := filled d.img slot field } slot name).1
  refine ⟨⟨?_, ?_⟩, fun i e describes held => ?_, fun i e describes held live => ?_⟩
  · rw [image]
    exact update.keeps_wellFormed sound.wellFormed
  · exact (update.poolSound sound.wellFormed sound.pool).makeNode (fun _ => id) isSlot inside
      fun isDirectory => absurd isDirectory filled_not_directory
  · exact makeNode_ptr inside describes held
  · rw [image]
    refine update.keepsFile sound.wellFormed ⟨sound.pool.isSlot i e describes, live⟩ ?_
    rintro rfl
    exact free.not_live live

/-- A slot that `fat16_vfs_create` fills with a name. -/
structure Fills (l : Layout) (d : Driver) (node : Node) (name : CString) (field : List UInt8)
    (slot index : Nat) : Prop where
  fits : fat16Make83 name = some field
  absent : (fat16VfsFinddir l d node name).value = (none, d)
  bound : index < maxDirSlots
  found : slotAt l d.img node.impl index = some slot
  free : FreeSlot d.img slot
  earlier : Passed l d.img node.impl index fun before => ¬ FreeSlot d.img before

theorem finddir_none {d₁ : Driver} (missing : (fat16VfsFinddir l d node name).value = (none, d₁)) :
    d₁ = d := by
  rcases finddir_value l d node name with
    ⟨-, -, -, unchanged⟩ | ⟨e, index, -, found, made⟩
  · rw [unchanged] at missing
    exact (Prod.mk.inj missing).2.symm
  · rw [made, fat16MakeNode_value] at missing
    cases chosen : chooseSlot d e with
    | none =>
      rw [chosen] at missing
      exact (Prod.mk.inj missing).2.symm
    | some choice =>
      rw [chosen] at missing
      simp at missing

/-- `fat16_vfs_create` returns the null pointer and leaves the image, or fills a
slot and makes a node for it. -/
theorem create_value (wellFormed : WellFormed l d.img)
    (reached : Directory l d.img node.impl) (name : CString) :
    (∃ d', (fat16VfsCreate l d node name).value = (none, d') ∧
      (d' = d ∨ d' = (fat16VfsFinddir l d node name).value.2)) ∨
    ∃ field slot index, Fills l d node name field slot index ∧
      (fat16VfsCreate l d node name).value =
        (fat16MakeNode l { d with img := filled d.img slot field } slot name).value := by
  rw [fat16VfsCreate]
  cases fits : fat16Make83 name with
  | none => exact Or.inl ⟨d, rfl, Or.inl rfl⟩
  | some field =>
    simp only [value_bind, value_ite]
    cases looked : (fat16VfsFinddir l d node name).value with
    | mk existing d₁ =>
      cases existing with
      | some slot => exact Or.inl ⟨d₁, rfl, Or.inr rfl⟩
      | none =>
        obtain rfl := finddir_none looked
        simp only [Option.isSome_none, Bool.false_eq_true, if_false]
        cases returned : (fat16FreeSlot l d₁.img node.impl).value with
        | none => exact Or.inl ⟨d₁, rfl, Or.inl rfl⟩
        | some slot =>
          rw [fat16FreeSlot] at returned
          obtain ⟨index, bound, found, free, earlier⟩ :=
            freeSlotLoop_value (by intro before less; omega) returned
          have inside := wellFormed.slot_inside ⟨_, index, reached, found⟩
          refine Or.inr ⟨field, slot, index, ⟨fits, looked, by omega, found, free, earlier⟩, ?_⟩
          simp only [value_bind, fillSlot_value inside]

variable {node : Node}

theorem VolumeSound.create (sound : VolumeSound l d)
    (reached : Directory l d.img node.impl) (name : CString) :
    Kept l d (fat16VfsCreate l d node name).value.2 := by
  rcases create_value sound.wellFormed reached name with
    ⟨d', unchanged, rfl | rfl⟩ | ⟨field, slot, index, fills, made⟩
  · rw [unchanged]
    exact .refl sound
  · rw [unchanged]
    exact sound.finddir reached name
  · rw [made]
    exact sound.fill reached fills.found fills.free fills.earlier (fat16Make83_head fills.fits)

variable {rounds : Nat}

/-- The first entry of a name is a closed file, and its clusters form a chain. -/
structure Removable (l : Layout) (d : Driver) (directory : Nat) (name : CString) (e : Nat)
    (clusters : List Nat) : Prop where
  found : ∃ index < maxDirSlots, FoundEntry l d.img directory name e index
  isFile : ¬ IsDirectory d.img e
  closed : fat16EntryIsOpen d e = false
  chain : FileChain l d.img (firstCluster d.img e) clusters

/-- What `fat16_vfs_unlink` does to any image, if the entries of the directory lie in it. -/
theorem unlink_cases {name : CString}
    (inside : ∀ e index, FoundEntry l d.img node.impl name e index → e + 32 ≤ l.imgSize)
    (enough : l.maxCluster - 2 < rounds) :
    ((fat16VfsUnlink l rounds d node name).value = some (false, d) ∧
        ∀ e clusters, ¬ Removable l d node.impl name e clusters) ∨
      ∃ e clusters img', Removable l d node.impl name e clusters ∧ Freed l d.img img' clusters ∧
        (fat16VfsUnlink l rounds d node name).value =
          some (true, { d with img := deleted img' e }) := by
  have searched := findEntry_from_start l d.img node.impl name
  rw [fat16VfsUnlink]
  simp only [value_bind]
  generalize (findEntry l d.img node.impl name maxDirSlots 0).value = result at searched
  cases result with
  | none =>
    obtain ⟨index, -, notFound⟩ := searched
    refine Or.inl ⟨rfl, fun e clusters removable => ?_⟩
    obtain ⟨place, bound, found⟩ := removable.found
    exact notFound.not_found bound found
  | some found =>
    obtain ⟨e, shown⟩ := found
    obtain ⟨-, index, bound, found⟩ := searched
    have fits := inside e index found
    have first : (rd16 l.imgSize d.img (e + 26)).value = firstCluster d.img e :=
      rd_value l d.img (by omega)
    have only : ∀ {e' clusters}, Removable l d node.impl name e' clusters → e = e' := by
      intro e' clusters removable
      obtain ⟨place, -, again⟩ := removable.found
      exact found.unique again
    simp only [value_bind, value_ite, peek, value_touch, value_pure, first]
    split
    · next isDirectory =>
      exact Or.inl ⟨rfl, fun e' _ removable => removable.isFile (only removable ▸ isDirectory)⟩
    next isFile =>
    split
    · next isOpen =>
      refine Or.inl ⟨rfl, fun e' _ removable => ?_⟩
      rw [only removable, removable.closed] at isOpen
      cases isOpen
    next notOpen =>
    by_cases valid : (fat16ChainValid l d.img (firstCluster d.img e)).value = true
    · obtain ⟨clusters, chain⟩ := chainValid_iff.mp valid
      obtain ⟨img', freed, effect⟩ := chain.freeChain enough
      rw [valid, if_neg (by decide), freed]
      exact Or.inr ⟨e, clusters, img', ⟨⟨index, bound, found⟩, isFile, by simpa using notOpen, chain⟩,
        effect, rfl⟩
    · rw [if_pos (by simpa using valid)]
      refine Or.inl ⟨rfl, fun e' clusters removable => valid (chainValid_iff.mpr ⟨clusters, ?_⟩)⟩
      rw [only removable]
      exact removable.chain

/-- What `fat16_vfs_unlink` does on a well-formed volume. -/
theorem unlink_value (wellFormed : WellFormed l d.img)
    (reached : Directory l d.img node.impl) (name : CString) (enough : l.maxCluster - 2 < rounds) :
    (fat16VfsUnlink l rounds d node name).value = some (false, d) ∨
      ∃ e index img' old, index < maxDirSlots ∧ FoundEntry l d.img node.impl name e index ∧
        fat16EntryIsOpen d e = false ∧ SlotUpdate l d.img (deleted img' e) e old [] [] ∧
        (fat16VfsUnlink l rounds d node name).value =
          some (true, { d with img := deleted img' e }) := by
  rcases unlink_cases (fun e index found => wellFormed.slot_inside ⟨_, index, reached, found.slot⟩)
    enough with ⟨same, -⟩ | ⟨e, old, img', removable, freed, removed⟩
  · exact Or.inl same
  · obtain ⟨index, bound, found⟩ := removable.found
    exact Or.inr ⟨e, index, img', old, bound, found, removable.closed, freed.slotUpdate wellFormed
      ⟨⟨⟨_, index, reached, found.slot⟩, found.named.1⟩, removable.isFile, removable.chain⟩, removed⟩

/-- On every image `fat16_vfs_unlink` frees the clusters of a closed file of the root directory and
marks its entry, or it fails and changes nothing. -/
theorem fat16VfsUnlink_exact (l : Layout) (d : Driver) (name : CString) (more : Nat) :
    (∀ first, (fat16ChainValid l d.img first).value = true ↔
      ∃ clusters, FileChain l d.img first clusters) ∧
    (((fat16VfsUnlink l (l.maxCluster + 1 + more) d rootNode name).value = some (false, d) ∧
        ∀ e clusters, ¬ Removable l d rootNode.impl name e clusters) ∨
      ∃ e clusters img', Removable l d rootNode.impl name e clusters ∧
        (fat16VfsUnlink l (l.maxCluster + 1 + more) d rootNode name).value =
          some (true, { d with img := img' }) ∧
        img' e = deletedMark ∧ (∀ cluster ∈ clusters, fatEntry l img' cluster = 0) ∧
        ∀ index, index ≠ e → (∀ cluster ∈ clusters, ¬ InTable l cluster index) →
          img' index = d.img index) := by
  have inRoot : ∀ e index, FoundEntry l d.img rootNode.impl name e index →
      l.rootStart ≤ e ∧ e + 32 ≤ l.imgSize := by
    intro e index found
    have slot : slotAt l d.img 0 index = some e := found.slot
    have root := l.rootStart_add_le
    have fits := l.dataStart_le
    rw [slotAt_root, Option.ite_none_right_eq_some] at slot
    obtain ⟨inside, ⟨⟩⟩ := slot
    omega
  refine ⟨fun first => chainValid_iff, (unlink_cases (fun e index found => (inRoot e index found).2)
    (by omega)).imp_right ?_⟩
  rintro ⟨e, clusters, img', removable, freed, removed⟩
  obtain ⟨index, -, found⟩ := removable.found
  have outside : ∀ place, place ≠ e → deleted img' e place = img' place :=
    fun place other => overwrite_of_outside (by omega)
  refine ⟨e, clusters, _, removable, removed, deleted_self img' e, fun cluster member => ?_,
    fun place other avoids => (outside place other).trans (freed.frame place avoids)⟩
  rw [← freed.zero cluster member]
  refine fatEntry_congr fun place inTable => outside place ?_
  have below := inTable_lt (removable.chain.usable cluster member) inTable
  have above := (inRoot e index found).1
  omega

theorem entryIsOpen_eq_false (closed : fat16EntryIsOpen d e = false) (inPool : i < nodePool)
    (describes : (d.pool i).ptr = some e) : d.refs i = 0 := by
  rw [fat16EntryIsOpen, List.any_eq_false] at closed
  have notHeld := closed i (List.mem_range.mpr inPool)
  simpa [describes] using notHeld

theorem VolumeSound.unlink (sound : VolumeSound l d)
    (reached : Directory l d.img node.impl) (name : CString) (enough : l.maxCluster - 2 < rounds) :
    ∃ removed d', (fat16VfsUnlink l rounds d node name).value = some (removed, d') ∧
      Kept l d d' := by
  rcases unlink_value sound.wellFormed reached name enough with
    same | ⟨e, index, img', old, -, found, closed, update, removed⟩
  · exact ⟨false, d, same, .refl sound⟩
  · refine ⟨true, _, removed, ⟨update.keeps_wellFormed sound.wellFormed, ?_⟩,
      fun _ _ describes _ => describes, fun i e' describes held live => ?_⟩
    · refine (update.poolSound sound.wellFormed sound.pool).settle fun i e' _ live => ?_
      rintro rfl
      exact live.first_ne_deleted (deleted_self img' e')
    · refine update.keepsFile sound.wellFormed ⟨sound.pool.isSlot i e' describes, live⟩ ?_
      rintro rfl
      have unheld := entryIsOpen_eq_false closed (sound.pool.lt describes) describes
      omega

theorem Rewritten.keepsFile (rewritten : Rewritten l img img' e old new clusters)
    (wellFormed : WellFormed l img) (file : FileAt l img e old) : KeepsFile l img img' e := by
  have kept : ∀ index, e ≤ index → index < e + 26 → img' index = img index :=
    fun _ => rewritten.bytes wellFormed file
  refine ⟨?_, fun k below => kept _ (by omega) (by omega), fun others owned => ?_⟩
  · exact (live_congr (kept e (by omega) (by omega))
      (kept (e + 11) (by omega) (by omega))).mpr file.entry.2
  · rw [owned.unique file.chain]
    rcases rewritten.grows with rfl | rfl
    · exact ⟨[], by rw [List.append_nil]; exact rewritten.chain⟩
    · exact ⟨new, rewritten.chain⟩

variable (sound : VolumeSound l d) (isFile : (d.pool slot).kind = .file)

include sound isFile

/-- The file that a node describes, and what a write does to it. -/
theorem VolumeSound.file (describes : (d.pool slot).ptr = some e) (live : Live d.img e) :
    ∃ old, FileAt l d.img e old ∧ fileLength d.img e ≤ old.length * l.bytesPerCluster ∧
      ∀ offset size buffer, WriteOutcome l d slot e old offset size (buffer.getD fun _ => 0)
        (fat16VfsWrite l d slot offset size buffer).value := by
  have entry : Entry l d.img e := ⟨sound.pool.isSlot slot e describes, live⟩
  obtain ⟨-, isDirectory⟩ := sound.pool.agrees slot e describes not_false live
  have notDirectory : ¬ IsDirectory d.img e := by
    rw [← isDirectory, isFile]
    simp
  obtain ⟨old, chain, -, length⟩ := sound.wellFormed.chains e entry
  have file : FileAt l d.img e old := ⟨entry, notDirectory, chain⟩
  exact ⟨old, file, length notDirectory, fat16VfsWrite_value
    (sound.wellFormed.apart entry.1 fun _ => file) (length notDirectory) chain describes⟩

/-- A write changes nothing, or the file that the node describes. -/
theorem VolumeSound.write_value (live : ∀ e, (d.pool slot).ptr = some e → Live d.img e)
    (offset size : Nat) (buffer : Option (Nat → UInt8)) :
    (fat16VfsWrite l d slot offset size buffer).value.2 = d ∨
      ∃ e old, (d.pool slot).ptr = some e ∧ FileAt l d.img e old ∧
        WriteEffect l d (fat16VfsWrite l d slot offset size buffer).value.2 slot e old := by
  cases describes : (d.pool slot).ptr with
  | none =>
    unfold fat16VfsWrite
    rw [describes]
    exact Or.inl rfl
  | some e =>
    obtain ⟨old, file, -, outcome⟩ := sound.file isFile describes (live e describes)
    exact Or.inr ⟨e, old, rfl, file, (outcome offset size buffer).1⟩

/-- The nodes after a write to the file of one of them. -/
theorem WriteEffect.kept (effect : WriteEffect l d d' slot e old)
    (describes : (d.pool slot).ptr = some e) (file : FileAt l d.img e old) : Kept l d d' := by
  obtain ⟨new, clusters, rewritten⟩ := effect.file
  have update := rewritten.slotUpdate sound.wellFormed file
  have stale := update.poolSound sound.wellFormed sound.pool
  have agrees := (sound.pool.agrees slot e describes not_false file.entry.2).1
  have same : ∀ i, (d'.pool i).ptr = (d.pool i).ptr ∧ (d'.pool i).kind = (d.pool i).kind := by
    intro i
    by_cases same : i = slot
    · rw [same]
      exact ⟨effect.ptr, effect.kind⟩
    · rw [effect.others i same]
      exact ⟨rfl, rfl⟩
  have samePtr := fun i => (same i).1
  have sameKind := fun i => (same i).2
  have inPool := sound.pool.lt describes
  refine ⟨⟨update.keeps_wellFormed sound.wellFormed, ?_⟩, fun i e' describes' _ => ?_,
    fun i e' describes' held live' => ?_⟩
  · refine ⟨fun i outside => ?_, fun i => ?_, fun i e' => ?_, fun i e' => ?_, fun i e' => ?_,
      fun i j e' => ?_⟩
    · rw [effect.others i (by omega)]
      exact stale.outside i outside
    · rw [samePtr, sameKind]
      exact stale.cleared i
    · rw [samePtr]
      exact stale.isSlot i e'
    · rw [samePtr, sameKind]
      intro describes' _ live'
      by_cases same : i = slot
      · subst same
        rw [describes, Option.some.injEq] at describes'
        subst describes'
        refine ⟨effect.agrees agrees, ?_⟩
        rw [isFile]
        simpa using (update.isFile live').1
      · rw [effect.others i same]
        refine stale.agrees i e' describes' ?_ live'
        rintro rfl
        exact same (sound.pool.unique i slot e' describes' describes)
    · rw [samePtr, sameKind]
      exact fun describes' isDir => ⟨not_false, (stale.directories i e' describes' isDir).2⟩
    · rw [samePtr, samePtr]
      exact stale.unique i j e'
  · rwa [samePtr]
  · by_cases same : e' = e
    · subst same
      exact rewritten.keepsFile sound.wellFormed file
    · exact update.keepsFile sound.wellFormed ⟨sound.pool.isSlot i e' describes', live'⟩ same

theorem VolumeSound.write {offset size : Nat} {buffer : Option (Nat → UInt8)}
    (live : ∀ e, (d.pool slot).ptr = some e → Live d.img e) :
    Kept l d (fat16VfsWrite l d slot offset size buffer).value.2 := by
  rcases sound.write_value isFile live offset size buffer with
    same | ⟨e, old, describes, file, effect⟩
  · rw [same]
    exact .refl sound
  · exact effect.kept sound isFile describes file

omit sound isFile

def FatAllowed (d : Driver) : FatOp → Prop
  | .write slot _ _ _ => ∀ e, (d.pool slot).ptr = some e → Live d.img e
  | _ => True

theorem maxCluster_pos (l : Layout) : l.maxCluster - 2 < l.maxCluster := by
  have positive := l.mountable.sectorsPerFat_pos
  have fat : 0 < l.fatClusters := by
    rw [Parameters.fatClusters, l.bytesPerSector_eq]
    omega
  have data : 0 < l.dataClusters := by
    rw [Parameters.dataClusters]
    exact Nat.add_pos_left (by decide) _
  have both : 0 < l.maxCluster := lt_min fat data
  omega

/-- Every operation returns and keeps the volume and the open files. -/
theorem fatStep_kept (sound : VolumeSound l d) {op : FatOp} (allowed : FatAllowed d op) :
    ∃ d', fatStep l d op = some d' ∧ Kept l d d' := by
  cases op
  all_goals simp only [fatStep, fatOp, value_ite, value_map, value_pure]
  case finddir ref name =>
    split
    case isTrue isDirectory => exact ⟨_, rfl, sound.finddir (sound.directory isDirectory) name⟩
    case isFalse => exact ⟨d, rfl, .refl sound⟩
  case create ref name =>
    split
    case isTrue isDirectory => exact ⟨_, rfl, sound.create (sound.directory isDirectory) name⟩
    case isFalse => exact ⟨d, rfl, .refl sound⟩
  case unlink ref name =>
    split
    case isTrue isDirectory =>
      obtain ⟨removed, d', returned, kept⟩ :=
        sound.unlink (sound.directory isDirectory) name (maxCluster_pos l)
      exact ⟨d', by rw [returned]; rfl, kept⟩
    case isFalse => exact ⟨d, rfl, .refl sound⟩
  case write slot offset size buffer =>
    split
    case isTrue isFile => exact ⟨_, rfl, sound.write isFile allowed⟩
    case isFalse => exact ⟨d, rfl, .refl sound⟩
  case openNode slot =>
    refine ⟨_, rfl, ?_⟩
    split
    · exact .of_same sound rfl rfl
    · exact .refl sound
  case closeNode slot =>
    refine ⟨_, rfl, ?_⟩
    split
    · rw [fat16VfsClose]
      split
      · exact .of_same sound rfl rfl
      · exact .refl sound
    · exact .refl sound

theorem mountedDriver_sound (wellFormed : WellFormed l img) : VolumeSound l (mountedDriver img) := by
  have undescribed : ∀ i e, ((mountedDriver img).pool i).ptr ≠ some e := by
    intro i e describes
    simp [mountedDriver, clearedNode] at describes
  exact ⟨wellFormed, fun _ _ => rfl, fun _ _ => rfl,
    fun i e describes => absurd describes (undescribed i e),
    fun i e describes => absurd describes (undescribed i e),
    fun i e describes => absurd describes (undescribed i e),
    fun i _ e describes => absurd describes (undescribed i e)⟩

variable {ops : List FatOp}

/-- Every run of operations on a well-formed volume returns, and leaves the volume
well-formed. -/
theorem run_wellFormed (wellFormed : WellFormed l img)
    (admissible : AdmissiblePartial (fatStep l) FatAllowed (mountedDriver img) ops) :
    ∃ d, runPartial (fatStep l) (mountedDriver img) ops = some d ∧ WellFormed l d.img := by
  obtain ⟨d, returned, sound⟩ := runPartial_invariant (VolumeSound l)
    (fun d op sound allowed => by
      obtain ⟨d', returned, kept⟩ := fatStep_kept sound allowed
      exact ⟨d', returned, kept.sound⟩) (mountedDriver_sound wellFormed) admissible
  exact ⟨d, returned, sound.wellFormed⟩

/-- A volume without files, such as `mkfs` leaves it. -/
theorem WellFormed.blank (table : ∀ cluster, l.Usable cluster → fatEntry l img cluster = 0)
    (root : ∀ index < l.rootEntries, img (l.rootStart + index * 32) = 0) : WellFormed l img := by
  have rootSlot : ∀ {index e}, slotAt l img 0 index = some e → img e = 0 := by
    intro index e found
    rw [slotAt_root] at found
    split at found
    case isTrue inside =>
      cases found
      exact root index inside
    case isFalse => simp at found
  have onlyRoot : ∀ directory, Directory l img directory → directory = 0 := by
    intro directory reached
    induction reached with
    | root => rfl
    | sub _ found live _ ih =>
      subst ih
      exact absurd (rootSlot found) live.first_ne_zero
  have noEntry : ∀ e, ¬ Entry l img e := by
    rintro e ⟨⟨directory, index, reached, found⟩, live⟩
    rw [onlyRoot directory reached] at found
    exact live.first_ne_zero (rootSlot found)
  refine ⟨fun e entry => absurd entry (noEntry e), fun e _ _ _ entry => absurd entry (noEntry e),
    fun cluster usable nonzero => absurd (table cluster usable) nonzero,
    fun directory i j e e' reached _ _ found' _ => ?_⟩
  rw [onlyRoot directory reached] at found'
  exact rootSlot found'

/-- A volume of five sectors: boot sector, table, root directory and two clusters. -/
def smallLayout : Layout where
  imgSize := 2560
  bytesPerSector := 512
  sectorsPerCluster := 1
  reservedSectors := 1
  numFats := 1
  rootEntries := 16
  sectorsPerFat := 1
  mountable := ⟨by decide, rfl, by decide, by decide, by decide, by decide, by decide, by decide⟩

theorem wellFormed_zero (l : Layout) : WellFormed l fun _ => 0 :=
  .blank (fun _ _ => rfl) fun _ _ => rfl

instance (d : Driver) (op : FatOp) : Decidable (FatAllowed d op) :=
  match op with
  | .write slot _ _ _ =>
    match describes : (d.pool slot).ptr with
    | none => isTrue fun e impossible => by
      rw [describes] at impossible
      cases impossible
    | some e => decidable_of_iff (Live d.img e)
        ⟨fun live e' same => by
          rw [describes] at same
          cases same
          exact live, fun all => all e describes⟩
  | .finddir _ _ | .create _ _ | .unlink _ _ | .openNode _ | .closeNode _ => isTrue trivial

/-- Create a file, store three bytes in it and remove it. -/
theorem run_wellFormed_small : ∃ d, runPartial (fatStep smallLayout) (mountedDriver fun _ => 0)
        [.create .root ⟨[0x61], by decide⟩, .write 0 0 3 (some fun _ => 0x78),
          .unlink .root ⟨[0x61], by decide⟩] = some d ∧ WellFormed smallLayout d.img :=
  run_wellFormed (wellFormed_zero smallLayout) (by decide +kernel)

/-- The node in `slot` describes the live entry `e` after a run as it did before:
the file is the same, the node agrees with it and is the only one, and the
clusters the file had before still belong to it alone. -/
structure SameOpenFile (l : Layout) (d d' : Driver) (slot e : Nat) : Prop where
  ptr : (d'.pool slot).ptr = some e
  live : Live d'.img e
  bytes : ∀ k < 12, d'.img (e + k) = d.img (e + k)
  agrees : Agrees d'.img e (d'.pool slot)
  unique : ∀ other, (d'.pool other).ptr = some e → other = slot
  chain : ∃ clusters added, FileChain l d.img (firstCluster d.img e) clusters ∧
    FileChain l d'.img (firstCluster d'.img e) (clusters ++ added) ∧
    (∀ cluster ∈ clusters ++ added, fatEntry l d'.img cluster ≠ 0) ∧
    ∀ e' others, Entry l d'.img e' → e' ≠ e →
      FileChain l d'.img (firstCluster d'.img e') others → (clusters ++ added).Disjoint others

theorem run_kept (sound : VolumeSound l d)
    (admissible : AdmissiblePartial (fatStep l) FatAllowed d ops) :
    ∃ d', runPartial (fatStep l) d ops = some d' ∧ VolumeSound l d' ∧
      ∀ slot e, (d.pool slot).ptr = some e → Live d.img e →
        Throughout (fatStep l) (fun state => 0 < state.refs slot) d ops →
        (d'.pool slot).ptr = some e ∧ KeepsFile l d.img d'.img e := by
  induction ops generalizing d with
  | nil => exact ⟨d, rfl, sound, fun slot e describes live _ => ⟨describes, .refl live⟩⟩
  | cons op ops ih =>
    obtain ⟨next, returned, kept⟩ := fatStep_kept sound admissible.1
    obtain ⟨d', finished, sound', later⟩ := ih kept.sound (admissible.2 next returned)
    refine ⟨d', ?_, sound', fun slot e describes live held => ?_⟩
    · rw [runPartial, returned]
      exact finished
    · have keepsFile := kept.file slot e describes held.1 live
      obtain ⟨ptr, rest⟩ := later slot e (kept.ptr slot e describes held.1) keepsFile.live
        (held.2 next returned)
      exact ⟨ptr, keepsFile.trans rest⟩

/-- What can be computed about the state that a run of the small volume reaches. -/
theorem exists_smallRun (ops : List FatOp) {Facts : Driver → Prop} [DecidablePred Facts]
    (admissible :
      AdmissiblePartial (fatStep smallLayout) FatAllowed (mountedDriver fun _ => 0) ops)
    (facts : (runPartial (fatStep smallLayout) (mountedDriver fun _ => 0) ops).all
      (fun d => decide (Facts d)) = true) :
    ∃ d, runPartial (fatStep smallLayout) (mountedDriver fun _ => 0) ops = some d ∧
      VolumeSound smallLayout d ∧ Facts d := by
  obtain ⟨d, reached, sound, -⟩ :=
    run_kept (mountedDriver_sound (wellFormed_zero smallLayout)) admissible
  rw [reached] at facts
  exact ⟨d, reached, sound, of_decide_eq_true facts⟩

/-- As long as a node that describes a live entry is open, it keeps describing that
entry, and the file keeps its name and its clusters. -/
theorem run_openFilesKept (wellFormed : WellFormed l img) {more : List FatOp}
    (admissible : AdmissiblePartial (fatStep l) FatAllowed (mountedDriver img) (ops ++ more)) :
    ∃ d d', runPartial (fatStep l) (mountedDriver img) ops = some d ∧
      runPartial (fatStep l) (mountedDriver img) (ops ++ more) = some d' ∧
      ∀ slot e, (d.pool slot).ptr = some e → Live d.img e →
        Throughout (fatStep l) (fun state => 0 < state.refs slot) d more →
        SameOpenFile l d d' slot e := by
  obtain ⟨d, reached, sound, -⟩ := run_kept (mountedDriver_sound wellFormed) admissible.left
  obtain ⟨d', finished, sound', kept⟩ := run_kept sound (admissible.right reached)
  refine ⟨d, d', reached, ?_, fun slot e describes live held => ?_⟩
  · rw [runPartial_append, reached]
    exact finished
  · obtain ⟨ptr, file⟩ := kept slot e describes live held
    have entry : Entry l d.img e := ⟨sound.pool.isSlot slot e describes, live⟩
    have entry' : Entry l d'.img e := ⟨sound'.pool.isSlot slot e ptr, file.live⟩
    obtain ⟨clusters, chain, -⟩ := sound.wellFormed.chains e entry
    obtain ⟨added, chain'⟩ := file.chain clusters chain
    refine ⟨ptr, file.live, file.bytes, (sound'.pool.agrees slot e ptr not_false file.live).1,
      fun other describes' => sound'.pool.unique other slot e describes' ptr, clusters, added,
      chain, chain', fun cluster member => chain'.entry_ne_zero member, ?_⟩
    exact fun e' others otherEntry different otherChain => sound'.wellFormed.disjoint e e' _ _
      entry' otherEntry (Ne.symm different) chain' otherChain

/-- A file stays open while it is written, another one is created, and its removal
is refused. -/
theorem run_openFilesKept_small :
    ∃ d d', runPartial (fatStep smallLayout) (mountedDriver fun _ => 0)
        [.create .root ⟨[0x61], by decide⟩, .openNode 0] = some d ∧
      SameOpenFile smallLayout d d' 0 1024 := by
  have admissible : AdmissiblePartial (fatStep smallLayout) FatAllowed (mountedDriver fun _ => 0)
      ([.create .root ⟨[0x61], by decide⟩, .openNode 0] ++
        [.write 0 0 3 (some fun _ => 0x78), .create .root ⟨[0x62], by decide⟩,
          .unlink .root ⟨[0x61], by decide⟩]) := by
    decide +kernel
  obtain ⟨d, d', reached, -, kept⟩ := run_openFilesKept (wellFormed_zero smallLayout) admissible
  have facts : (runPartial (fatStep smallLayout) (mountedDriver fun _ => 0)
      [.create .root ⟨[0x61], by decide⟩, .openNode 0]).all (fun d =>
        decide ((d.pool 0).ptr = some 1024 ∧ Live d.img 1024 ∧
          Throughout (fatStep smallLayout) (fun state => 0 < state.refs 0) d
            [.write 0 0 3 (some fun _ => 0x78), .create .root ⟨[0x62], by decide⟩,
              .unlink .root ⟨[0x61], by decide⟩])) = true := by
    decide +kernel
  rw [reached] at facts
  obtain ⟨describes, live, held⟩ := of_decide_eq_true facts
  exact ⟨d, d', reached, kept 0 1024 describes live held⟩

end MiniOS.Fat16
