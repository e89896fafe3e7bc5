import MiniOS.DiskFsPersistence
import MiniOS.Fat16Contents
import MiniOS.RamFsWrites

/-!
# Writing past the end of a file

A write that begins behind the end of a file leaves a hole.  RAMFS and DiskFS
fill it with zeros.  On a FAT16 volume only the clusters that the write adds are
cleared, so the hole shows whatever the last cluster of the file held behind its
end.
-/

namespace MiniOS

open ByteMemory (Region)

variable {offset place : Nat} {buffer : List UInt8}

namespace RamFs

theorem ramfsWrite_hole {sys : System} {id : NodeId} {node : Node} {first second : Option Region}
    (inv : Invariant sys)
    (handler : writeHandler sys.fs id) (isNode : sys.fs.nodes id = some node)
    (stored : 0 < (ramfsWrite sys.fs id offset buffer first second).1)
    (behind : node.length ≤ place) (before : place < offset) :
    ∃ new, (ramfsWrite sys.fs id offset buffer first second).2.nodes id = some new ∧
      ramfsRead new place 1 = some [0] := by
  obtain ⟨_, sound⟩ := inv.buffer isNode (writable_of_handler handler isNode)
  rcases inv.write_cases handler isNode offset buffer first second with ⟨failed, -⟩ |
    ⟨fs, result, kept, new, isNew, writable, -, contents⟩
  · rw [failed] at stored
    exact absurd stored (Nat.lt_irrefl 0)
  · obtain ⟨_, newSound⟩ := kept.buffer isNew writable
    rw [result]
    refine ⟨new, isNew, ?_⟩
    rw [newSound.reads, contents,
      ByteMemory.splice_hole (sound.contents_length.trans_le behind) before]

end RamFs

namespace DiskFs

variable {offset place oldLength : Nat} {buffer : List UInt8}

theorem slotSector_hole (old : Region) (behind : oldLength ≤ place) (before : place < offset) :
    slotSector old oldLength offset buffer (place / sectorSize) (place % sectorSize) = 0 := by
  have parts := Nat.div_add_mod' place sectorSize
  have inside := Nat.mod_lt place (show 0 < sectorSize by decide)
  rw [slotSector, ByteMemory.store_outside (by omega), ByteMemory.store,
    List.length_replicate, if_pos (by omega),
    List.getD_eq_getElem?_getD, List.getElem?_replicate]
  split <;> rfl

/-- Once the sector has been written, the hole in it stays zero. -/
theorem writeSlotSectors_hole {lba : Nat} (behind : oldLength ≤ place) (before : place < offset)
    (turns : List Nat) {ata : Ata} (written : place / sectorSize ∈ turns ∨
      ata.sectors (lba + place / sectorSize) (place % sectorSize) = 0) :
    (turns.foldl (writeSlotSector lba oldLength offset buffer) ata).sectors
      (lba + place / sectorSize) (place % sectorSize) = 0 := by
  induction turns generalizing ata with
  | nil => simpa using written
  | cons current turns ih =>
    refine ih ?_
    rw [List.mem_cons] at written
    by_cases same : place / sectorSize = current
    · subst same
      right
      simp only [writeSlotSector, Ata.writeSector, Function.update_self]
      exact slotSector_hole _ behind before
    · simp only [writeSlotSector, Ata.writeSector]
      rw [Function.update_of_ne (by simpa using same)]
      exact written.imp_left fun member => member.resolve_left same

theorem readSectors_one (ata : Ata) (lba place : Nat) : readSectors ata lba 1 place 1 =
      [ata.sectors (lba + place / sectorSize) (place % sectorSize)] := by
  have inside := Nat.mod_lt place (show 0 < sectorSize by decide)
  simp [readSectors, ByteMemory.load,
    Nat.min_eq_right (show 1 ≤ sectorSize - place % sectorSize by omega)]

theorem diskfsWriteSlot_hole {v : Volume} {index : Nat} (nonempty : buffer ≠ [])
    (stored : (diskfsWriteSlot v index offset buffer).2 = true)
    (behind : (entryAt v.entries index).length ≤ place) (before : place < offset) :
    diskfsReadSlot (diskfsWriteSlot v index offset buffer).1 index place 1 = some [0] := by
  have size : buffer.length ≠ 0 := by simpa using nonempty
  rw [diskfsWriteSlot] at stored ⊢
  split at stored
  case isFalse => simp at stored
  case isTrue accepted =>
    rw [if_pos accepted]
    simp only [size, if_false] at stored ⊢
    split at stored
    case isFalse => simp at stored
    case isTrue mounted =>
      simp only [mounted, if_true]
      simp only [writable, Bool.and_eq_true, decide_eq_true_eq] at accepted
      obtain ⟨⟨⟨⟨inTable, used⟩, isFile⟩, small⟩, fits⟩ := accepted
      have limit : maxSize < 2 ^ 32 := by decide
      rw [diskfsReadSlot, diskfsStoreMetadata_entries,
        entryAt_store32 v.entries index (show _ < 2 ^ 32 by omega)]
      simp only
      have one : min 1 (max (offset + buffer.length) (entryAt v.entries index).length - place) = 1 := by
        omega
      have isData := Nat.le_add_right_of_le (k := place / sectorSize) (dataLba_le_slotLba index)
      rw [if_neg (by simp [used, isFile]; omega), if_neg (by omega), one, readSectors_one,
        (wrote_storeMetadata _).sectors, applyWrites_elsewhere]
      · have turn : place / sectorSize ∈ List.range'
            (min (entryAt v.entries index).length offset / sectorSize)
            ((offset + buffer.length - 1) / sectorSize + 1 -
              min (entryAt v.entries index).length offset / sectorSize) := by
          rw [List.mem_range'_1]
          have low : min (entryAt v.entries index).length offset / sectorSize ≤ place / sectorSize :=
            Nat.div_le_div_right (by omega)
          have high : place / sectorSize ≤ (offset + buffer.length - 1) / sectorSize :=
            Nat.div_le_div_right (by omega)
          omega
        rw [writeSlotSectors_hole behind before _ (Or.inl turn)]
      · intro write member
        simp only [metadataWrites, List.mem_cons, List.not_mem_nil, or_false] at member
        have order : directoryLba + 1 < dataLba ∧ superblockLba < dataLba := by decide
        rcases member with rfl | rfl | rfl <;> simp only <;> omega

end DiskFs

namespace Fat16

open Machine TracedAccess Traced

variable {l : Layout} {img : Bytes} {d : Driver} {slot e offset size place : Nat}

/-- The clusters that the file has hold zeros between its end and `offset`. -/
def SlackZero (l : Layout) (img : Bytes) (e offset : Nat) : Prop :=
  ∀ clusters, FileChain l img (firstCluster img e) clusters → ∀ p, fileLength img e ≤ p →
    p < offset → p < clusters.length * l.bytesPerCluster → chainByte l img clusters p = 0

/-- The hole shows what the clusters that the file had hold, and zeros behind them. -/
theorem fat16VfsWrite_hole {buffer : Option (Nat → UInt8)} {rounds : Nat} (sound : VolumeSound l d)
    (isFile : (d.pool slot).kind = .file) (describes : (d.pool slot).ptr = some e)
    (live : Live d.img e) (stored : 0 < (fat16VfsWrite l d slot offset size buffer).value.1)
    (enough : l.maxCluster ≤ rounds) :
    (d.pool slot).length = fileLength d.img e ∧
      ∃ old, FileChain l d.img (firstCluster d.img e) old ∧
        ∀ place, fileLength d.img e ≤ place → place < offset →
          (fat16VfsRead l rounds (fat16VfsWrite l d slot offset size buffer).value.2.img
            ((fat16VfsWrite l d slot offset size buffer).value.2.pool slot) place 1).value =
            some [if place < old.length * l.bytesPerCluster then chainByte l d.img old place
              else 0] := by
  obtain ⟨old, file, backed, outcome⟩ := sound.file isFile describes live
  obtain ⟨effect, clusters, contents⟩ := outcome offset size buffer
  generalize (fat16VfsWrite l d slot offset size buffer).value = result at effect contents stored
  obtain ⟨new, clusters', rewritten⟩ := effect.file
  obtain rfl := rewritten.chain.unique contents.chain
  have agrees := (sound.pool.agrees slot e describes not_false live).1
  have newLength : fileLength result.2.img e = max (fileLength d.img e) (offset + result.1) :=
    contents.length.trans (if_neg (by omega))
  have backed' : fileLength result.2.img e ≤ clusters'.length * l.bytesPerCluster := rewritten.length
  have holds := holds_of_chain (effect.kind.trans isFile) (effect.agrees agrees) contents.chain backed'
  refine ⟨agrees.length isFile, old, file.chain, fun place behind before => ?_⟩
  rw [holds.reads place 1 rounds enough, List.take_one, List.head?_drop, List.getElem?_map,
    List.getElem?_range (by omega), Option.map_some, contents.bytes place (by omega),
    if_neg (by omega)]
  rfl

/-- Making the recorded length smaller keeps a volume well-formed. -/
theorem WellFormed.shrunk {length : Nat} (wellFormed : WellFormed l img) (entry : Entry l img e)
    (notDirectory : ¬ IsDirectory img e) (shorter : length ≤ fileLength img e) :
    WellFormed l (setField img 4 (e + 28) length) := by
  obtain ⟨old, chain, -, backed⟩ := wellFormed.chains e entry
  have apart := wellFormed.apart entry.1 fun _ => ⟨entry, notDirectory, chain⟩
  have rewritten : Rewritten l img (setField img 4 (e + 28) length) e old [] old := by
    refine ⟨by simp, fun index _ outside => setField_of_outside (by omega), ?_, Or.inl rfl, by simp, ?_⟩
    · rw [field_setField_of_disjoint (by omega)]
      exact chain.congr fun cluster member =>
        apart.fatEntry_setField (chain.usable cluster member) (by omega)
    · rw [field_setField]
      exact (Nat.mod_le _ _).trans (shorter.trans (backed notDirectory))
  exact (rewritten.slotUpdate wellFormed ⟨entry, notDirectory, chain⟩).keeps_wellFormed wellFormed

end Fat16

/-- A file on one of the three backends. -/
inductive StoredFile
  | ram (sys : RamFs.System) (id : RamFs.NodeId)
  | disk (v : DiskFs.Volume) (index : Nat)
  | fat (l : Fat16.Layout) (d : Fat16.Driver) (slot : Nat)

namespace StoredFile

open Fat16 Machine

def length : StoredFile → Nat
  | ram sys id => ((sys.fs.nodes id).map RamFs.Node.length).getD 0
  | disk v index => (DiskFs.entryAt v.entries index).length
  | fat _ d slot => (d.pool slot).length

/-- A write through the node of the file: the number of bytes stored, and the file.
RAMFS may ask `kmalloc` for a buffer, twice. -/
def write (file : StoredFile) (offset : Nat) (buffer : List UInt8)
    (kmalloc : Option Region × Option Region) : Nat × StoredFile :=
  match file with
  | ram sys id =>
    let result := RamFs.ramfsWrite sys.fs id offset buffer kmalloc.1 kmalloc.2
    (result.1, ram { sys with fs := result.2 } id)
  | disk v index =>
    let result := DiskFs.diskfsWriteSlot v index offset buffer
    (if result.2 then buffer.length else 0, disk result.1 index)
  | fat l d slot =>
    let result := (Fat16.fat16VfsWrite l d slot offset buffer.length (some (buffer.getD · 0))).value
    (result.1, fat l result.2 slot)

def read (file : StoredFile) (offset size : Nat) : Option (List UInt8) :=
  match file with
  | ram sys id => (sys.fs.nodes id).bind fun node => RamFs.ramfsRead node offset size
  | disk v index => DiskFs.diskfsReadSlot v index offset size
  | fat l d slot => (Fat16.fat16VfsRead l l.maxCluster d.img (d.pool slot) offset size).value

/-- The file lies in a file system that satisfies its invariant, and may be written. -/
def Sound : StoredFile → Prop
  | ram sys id => RamFs.Invariant sys ∧ RamFs.writeHandler sys.fs id
  | disk _ _ => True
  | fat l d slot => VolumeSound l d ∧ (d.pool slot).kind = .file ∧
      ∃ e, (d.pool slot).ptr = some e ∧ Live d.img e

/-- Nothing is left in the clusters of a FAT16 file between its end and `offset`. -/
def Clean (offset : Nat) : StoredFile → Prop
  | ram _ _ | disk _ _ => True
  | fat l d slot => ∀ e, (d.pool slot).ptr = some e → SlackZero l d.img e offset

/-- A write that stores something leaves zeros between the end of the file and the offset exactly
if nothing was left there. -/
theorem hole_zero {file : StoredFile} (sound : file.Sound) {kmalloc : Option Region × Option Region}
    (stored : 0 < (file.write offset buffer kmalloc).1) :
    (∀ place, file.length ≤ place → place < offset →
      (file.write offset buffer kmalloc).2.read place 1 = some [0]) ↔ file.Clean offset := by
  cases file with
  | ram sys id =>
    refine iff_of_true (fun place behind before => ?_) trivial
    obtain ⟨inv, handler⟩ := sound
    obtain ⟨node, isNode, -⟩ := (Option.any_eq_true _ _).mp handler
    simp only [length, isNode, Option.map_some, Option.getD_some] at behind
    obtain ⟨new, isNew, zero⟩ := RamFs.ramfsWrite_hole inv handler isNode stored behind before
    simp only [write, read, isNew, Option.bind_some, zero]
  | disk v index =>
    have accepted : (DiskFs.diskfsWriteSlot v index offset buffer).2 = true := by
      by_contra refused
      simp [write, refused] at stored
    have nonempty : buffer ≠ [] := by
      rintro rfl
      simp [write] at stored
    exact iff_of_true (fun _ => DiskFs.diskfsWriteSlot_hole nonempty accepted) trivial
  | fat l d slot =>
    obtain ⟨volume, isFile, e, describes, live⟩ := sound
    obtain ⟨sameLength, old, isChain, shows⟩ :=
      Fat16.fat16VfsWrite_hole volume isFile describes live stored le_rfl
    simp only [length, sameLength]
    constructor
    · intro zeros e' describes' clusters chain p behind before inside
      obtain rfl : e = e' := Option.some.inj (describes.symm.trans describes')
      obtain rfl := isChain.unique chain
      have read := (shows p behind before).symm.trans (zeros p behind before)
      rw [if_pos inside] at read
      simpa using read
    · intro clean place behind before
      refine (shows place behind before).trans ?_
      split
      · next inside => rw [clean e describes old isChain place behind before inside]
      · rfl

/-- A byte stored at offset 3 of a new file on a FAT16 volume. -/
theorem hole_zero_newFile : ∃ d, runPartial (fatStep smallLayout) (mountedDriver fun _ => 0)
        [.create .root ⟨[0x61], by decide⟩] = some d ∧
      ((fat smallLayout d 0).write 3 [0x78] (none, none)).2.read 1 1 = some [0] := by
  obtain ⟨d, reached, sound, isFile, describes, live, noCluster, stored, behind⟩ : ∃ d, _ ∧ _ ∧
      (d.pool 0).kind = .file ∧ (d.pool 0).ptr = some 1024 ∧ Live d.img 1024 ∧
      firstCluster d.img 1024 = 0 ∧ 0 < ((fat smallLayout d 0).write 3 [0x78] (none, none)).1 ∧
      (fat smallLayout d 0).length ≤ 1 :=
    exists_smallRun [.create .root ⟨[0x61], by decide⟩] (by decide +kernel) (by decide +kernel)
  have fileSound : (fat smallLayout d 0).Sound := ⟨sound, isFile, 1024, describes, live⟩
  refine ⟨d, reached, (hole_zero fileSound stored).mpr (fun e isEntry => ?_) 1 behind (by decide)⟩
  obtain rfl : 1024 = e := by simpa [describes] using isEntry
  intro clusters chain p _ _ inside
  rw [noCluster] at chain
  rw [chain.unique (Or.inl ⟨rfl, rfl⟩)] at inside
  simp at inside

/-- The file has six bytes stored and a length of one: the second to sixth byte show
in the hole. -/
theorem hole_shows_slack : ∃ file : StoredFile, file.Sound ∧ file.length = 1 ∧
      0 < (file.write 10 [1] (none, none)).1 ∧
      (file.write 10 [1] (none, none)).2.read 5 1 = some [0x78] := by
  obtain ⟨d, -, sound, describes, live, notDirectory, long, facts⟩ : ∃ d, _ ∧ _ ∧
      (d.pool 0).ptr = some 1024 ∧ Live d.img 1024 ∧ ¬ IsDirectory d.img 1024 ∧
      1 ≤ fileLength d.img 1024 ∧
      (runPartial (fatStep smallLayout) (mountedDriver (setField d.img 4 1052 1))
        [.finddir .root ⟨[0x61], by decide⟩]).all (fun d =>
          decide ((d.pool 0).kind = .file ∧ (d.pool 0).ptr = some 1024 ∧ Live d.img 1024 ∧
            (fat smallLayout d 0).length = 1 ∧
            0 < ((fat smallLayout d 0).write 10 [1] (none, none)).1 ∧
            ((fat smallLayout d 0).write 10 [1] (none, none)).2.read 5 1 = some [0x78])) = true :=
    exists_smallRun [.create .root ⟨[0x61], by decide⟩, .write 0 0 6 (some fun _ => 0x78)]
      (by decide +kernel) (by decide +kernel)
  have shrunk := sound.wellFormed.shrunk ⟨sound.pool.isSlot 0 1024 describes, live⟩ notDirectory long
  have admissible' : AdmissiblePartial (fatStep smallLayout) FatAllowed
      (mountedDriver (setField d.img 4 1052 1)) [.finddir .root ⟨[0x61], by decide⟩] :=
    ⟨trivial, fun _ _ => trivial⟩
  obtain ⟨d', found, sound', -⟩ := run_kept (mountedDriver_sound shrunk) admissible'
  rw [found] at facts
  obtain ⟨isFile, describes', live', results⟩ := of_decide_eq_true facts
  exact ⟨fat smallLayout d' 0, ⟨sound', isFile, 1024, describes', live'⟩, results⟩

end StoredFile

end MiniOS
