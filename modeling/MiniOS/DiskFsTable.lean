import MiniOS.DiskFs
import MiniOS.RootedChains

/-!
# Tables of entries that a mount accepts

Creating an entry in a free slot, clearing an entry without children and changing the
length of a file lead from a valid table to a valid table.  For a new entry the chain of
parents has to reach the root within sixteen steps; it does, because a chain visits no
slot twice and not the new one.
-/

namespace MiniOS.DiskFs

open ByteMemory LittleEndian RootedChains
open Fat16 (CString)

variable {entries after : Region} {index other slot : Nat} {parent type : UInt8} {name : CString}

theorem entryAt_congr (same : ∀ place < entrySize,
      entries (entrySize * index + place) = after (entrySize * other + place)) :
    entryAt entries index = entryAt after other := by
  rw [entrySize] at same
  have nameSame : load entries (entrySize * index + 4) fileNameSize =
      load after (entrySize * other + 4) fileNameSize := by
    apply load_congr
    intro place below
    rw [fileNameSize] at below
    rw [Nat.add_assoc, Nat.add_assoc]
    exact same (4 + place) (by omega)
  have lengthSame : load32 entries (entrySize * index + 36) =
      load32 after (entrySize * other + 36) := by
    apply load32_congr
    intro place below
    rw [Nat.add_assoc, Nat.add_assoc]
    exact same (36 + place) (by omega)
  simp only [entryAt, nameSame, lengthSame, Entry.mk.injEq, and_true]
  exact ⟨same 0 (by decide), same 1 (by decide), same 2 (by decide)⟩

theorem entryAt_eq_of_table (inTable : index < maxFiles)
    (same : ∀ offset < tableSize, entries offset = after offset) :
    entryAt entries index = entryAt after index := by
  apply entryAt_congr
  intro place below
  apply same
  simp only [maxFiles, entrySize, tableSize] at *
  omega

def DiffersAt (entries after : Region) (slot : Nat) : Prop :=
  ∀ offset, offset < entrySize * slot ∨ entrySize * slot + entrySize ≤ offset →
    after offset = entries offset

theorem DiffersAt.entryAt_eq (differs : DiffersAt entries after slot) (elsewhere : index ≠ slot) :
    entryAt after index = entryAt entries index := by
  apply entryAt_congr
  intro place below
  apply differs
  rw [entrySize] at *
  omega

variable {bytes : List UInt8}

theorem differsAt_store (entries : Region) (slot : Nat) (fits : bytes.length = entrySize) :
    DiffersAt entries (store entries (entrySize * slot) bytes) slot := by
  intro offset outside
  apply store_outside
  rwa [fits]

theorem differsAt_store32 (entries : Region) (slot value : Nat) :
    DiffersAt entries (store32 entries (entrySize * slot + 36) value) slot := by
  intro offset outside
  apply store32_outside
  rw [entrySize] at *
  omega

theorem entryAt_store (fits : bytes.length = entrySize) :
    entryAt (store entries (entrySize * slot) bytes) slot =
      entryAt (fun offset => bytes.getD offset 0) 0 := by
  apply entryAt_congr
  intro place below
  rw [← fits] at below
  simp [store, below]

theorem entryAt_store32 (entries : Region) (slot : Nat) {value : Nat} (small : value < 2 ^ 32) :
    entryAt (store32 entries (entrySize * slot + 36) value) slot =
      { entryAt entries slot with length := value } := by
  have byte : ∀ place < 36, store32 entries (entrySize * slot + 36) value (entrySize * slot + place) =
      entries (entrySize * slot + place) := fun place below => store32_outside (by omega)
  have nameSame : load (store32 entries (entrySize * slot + 36) value) (entrySize * slot + 4)
      fileNameSize = load entries (entrySize * slot + 4) fileNameSize := by
    apply load_congr
    intro place below
    rw [fileNameSize] at below
    rw [Nat.add_assoc]
    exact byte (4 + place) (by omega)
  simp only [entryAt, nameSame, load32_store32, Nat.mod_eq_of_lt small, Entry.mk.injEq, and_true]
  exact ⟨byte 0 (by decide), byte 1 (by decide), byte 2 (by decide)⟩

def NameAllowed (name : CString) : Prop :=
  0 < name.chars.length ∧ name.chars.length < fileNameSize ∧ slash ∉ name.chars

instance (name : CString) : Decidable (NameAllowed name) :=
  inferInstanceAs (Decidable (_ ∧ _))

theorem nameValidFrom_iff (room length : Nat) (bytes : List UInt8) :
    nameValidFrom room length bytes = true ↔
      (bytes.takeWhile (· ≠ 0)).length < room ∧
      (bytes.takeWhile (· ≠ 0)).length < bytes.length ∧
      0 < length + (bytes.takeWhile (· ≠ 0)).length ∧ slash ∉ bytes.takeWhile (· ≠ 0) := by
  induction bytes generalizing room length with
  | nil => cases room <;> simp [nameValidFrom]
  | cons char rest ih =>
    cases room with
    | zero => simp [nameValidFrom]
    | succ room =>
      by_cases isZero : char = 0
      · simp [nameValidFrom, isZero]
      · by_cases isSlash : char = slash
        · simp [nameValidFrom, isSlash, show slash ≠ 0 by decide]
        · rw [List.takeWhile_cons_of_pos (by simpa using isZero), nameValidFrom, if_neg isZero,
            if_neg isSlash, ih, List.length_cons, List.length_cons, List.mem_cons, not_or,
            Nat.add_lt_add_iff_right, Nat.add_lt_add_iff_right, Nat.add_assoc,
            Nat.add_comm 1]
          simp [Ne.symm isSlash]

theorem diskfsNameValid_field {field : List UInt8} (full : field.length = fileNameSize) :
    diskfsNameValid field = true ↔ NameAllowed (CString.ofBuffer field) := by
  rw [diskfsNameValid, nameValidFrom_iff, full, Nat.zero_add]
  constructor
  · rintro ⟨room, _, positive, noSlash⟩
    exact ⟨positive, room, noSlash⟩
  · rintro ⟨positive, room, noSlash⟩
    exact ⟨room, room, positive, noSlash⟩

theorem takeWhile_append_zero (name : CString) (rest : List UInt8) :
    (name.chars ++ 0 :: rest).takeWhile (· ≠ 0) = name.chars := by
  rw [List.takeWhile_append_of_pos]
  · simp
  · intro char member
    exact decide_eq_true (ne_of_mem_of_not_mem member name.noNul)

theorem diskfsNameValid_terminated : diskfsNameValid (terminated name) = true ↔ NameAllowed name := by
  rw [diskfsNameValid, nameValidFrom_iff, NameAllowed, terminated, takeWhile_append_zero,
    List.length_append, List.length_singleton, Nat.zero_add]
  constructor
  · rintro ⟨room, _, positive, noSlash⟩
    exact ⟨positive, room, noSlash⟩
  · rintro ⟨positive, room, noSlash⟩
    exact ⟨room, Nat.lt_succ_self _, positive, noSlash⟩

def nameField (name : CString) : List UInt8 :=
  name.chars ++ List.replicate (fileNameSize - name.chars.length) 0

variable (allowed : NameAllowed name)

include allowed

theorem createdEntry_eq : createdEntry parent name type =
      [1, type, parent, 0] ++ (nameField name ++ List.replicate 4 0) := by
  have short := allowed.2.1
  rw [fileNameSize] at short
  have room : entrySize - 4 - name.chars.length = fileNameSize - name.chars.length + 4 := by
    rw [entrySize, fileNameSize]
    omega
  rw [createdEntry, room, List.replicate_add, nameField]
  simp only [List.append_assoc]

theorem nameField_length : (nameField name).length = fileNameSize := by
  have short := allowed.2.1
  rw [nameField, List.length_append, List.length_replicate]
  omega

theorem createdEntry_length (parent type : UInt8) :
    (createdEntry parent name type).length = entrySize := by
  simp [createdEntry_eq allowed, nameField_length allowed, fileNameSize, entrySize]

theorem ofBuffer_nameField : CString.ofBuffer (nameField name) = name := by
  have short := allowed.2.1
  obtain ⟨room, isRoom⟩ := Nat.exists_eq_add_of_lt short
  have succ : fileNameSize - name.chars.length = room + 1 := by omega
  apply CString.ext
  rw [nameField, succ, List.replicate_succ]
  exact takeWhile_append_zero name _

theorem entryAt_createdEntry (entries : Region) (slot : Nat) (parent type : UInt8) :
    entryAt (store entries (entrySize * slot) (createdEntry parent name type)) slot =
      { used := 1, type := type, parent := parent, name := nameField name, length := 0 } := by
  have size := createdEntry_length allowed parent type
  rw [entryAt_store size]
  have fieldSize := nameField_length allowed
  rw [fileNameSize] at fieldSize
  have nameIs : load (fun offset => (createdEntry parent name type).getD offset 0) 4 fileNameSize =
      nameField name := by
    rw [load_getD (by rw [size]; decide), createdEntry_eq allowed]
    simp [fileNameSize, fieldSize]
  have lengthIs : load32 (fun offset => (createdEntry parent name type).getD offset 0) 36 = 0 := by
    rw [load32, load_getD (by rw [size]; decide), createdEntry_eq allowed]
    simp [fieldSize]
    decide
  simp only [entryAt, Nat.mul_zero, Nat.zero_add, nameIs, lengthIs, Entry.mk.injEq, and_true]
  exact ⟨rfl, rfl, rfl⟩

omit allowed

structure Shown where
  type : UInt8
  parent : UInt8
  name : CString
  length : Nat
deriving DecidableEq

def Entry.shown (entry : Entry) : Option Shown :=
  if entry.used = 0 then none
  else some ⟨entry.type, entry.parent, entry.string, entry.length⟩

/-- Two tables with the same contents: they may differ in slots that are not in use and
behind the ends of names. -/
def SameDirectory (entries other : Region) : Prop :=
  ∀ index < maxFiles, (entryAt entries index).shown = (entryAt other index).shown

instance (entries other : Region) : Decidable (SameDirectory entries other) :=
  inferInstanceAs (Decidable (∀ index < maxFiles, _))

variable {entry : Entry}

theorem Entry.shown_of_used (used : entry.used ≠ 0) :
    entry.shown = some ⟨entry.type, entry.parent, entry.string, entry.length⟩ :=
  if_neg used

theorem Entry.fields_of_shown {other : Entry} (used : entry.used ≠ 0)
    (same : entry.shown = other.shown) :
    other.used ≠ 0 ∧ entry.type = other.type ∧ entry.parent = other.parent ∧
      entry.string = other.string ∧ entry.length = other.length := by
  by_cases unused : other.used = 0
  · rw [shown_of_used used, shown, if_pos unused] at same
    cases same
  · rw [shown_of_used used, shown_of_used unused, Option.some.injEq, Shown.mk.injEq] at same
    exact ⟨unused, same⟩

def parentSlot (parent : UInt8) : Option Nat :=
  if parent = rootParent then none else some parent.toNat

/-- The parents lead from the entry through directories to the root. -/
def Reaches (entries : Region) (parent : UInt8) (path : List Nat) : Prop :=
  Ends (fun index => parentSlot (entryAt entries index).parent) (parentSlot parent) path ∧
    ∀ visited ∈ path, isDirectory entries visited = true

theorem isDirectory_iff : isDirectory entries index = true ↔
      index < maxFiles ∧ (entryAt entries index).used ≠ 0 ∧
        (entryAt entries index).type = entryDirectory := by
  simp [isDirectory, and_assoc]

theorem reaches_root : Reaches entries rootParent [] := ⟨.root, fun _ member => nomatch member⟩

variable {path : List Nat}

theorem reaches_cons (notRoot : parent ≠ rootParent) :
    Reaches entries parent (parent.toNat :: path) ↔
      isDirectory entries parent.toNat = true ∧
        Reaches entries (entryAt entries parent.toNat).parent path := by
  rw [Reaches, parentSlot, if_neg notRoot, List.forall_mem_cons]
  constructor
  · rintro ⟨ends, directory, directories⟩
    cases ends with
    | step rest => exact ⟨directory, rest, directories⟩
  · rintro ⟨directory, rest, directories⟩
    exact ⟨.step rest, directory, directories⟩

theorem parentChainFrom_iff {depth : Nat} : parentChainFrom entries index depth parent = true ↔
      ∃ path, Reaches entries parent path ∧ path.length < depth ∧ index ∉ path := by
  induction depth generalizing parent with
  | zero => simp [parentChainFrom]
  | succ depth ih =>
    rw [parentChainFrom]
    by_cases isRoot : parent = rootParent
    · subst isRoot
      rw [if_pos rfl]
      exact iff_of_true rfl ⟨[], reaches_root, Nat.succ_pos depth, List.not_mem_nil⟩
    · rw [if_neg isRoot]
      constructor
      · intro accepted
        split at accepted
        case isTrue => cases accepted
        case isFalse passes =>
          rw [not_or, Bool.not_eq_false] at passes
          obtain ⟨path, reaches, short, avoids⟩ := ih.mp accepted
          refine ⟨parent.toNat :: path, (reaches_cons isRoot).mpr ⟨passes.2, reaches⟩, ?_, ?_⟩
          · exact Nat.succ_lt_succ short
          · rw [List.mem_cons, not_or]
            exact ⟨Ne.symm passes.1, avoids⟩
      · rintro ⟨path, ⟨ends, directories⟩, short, avoids⟩
        rw [parentSlot, if_neg isRoot] at ends
        cases ends with
        | step rest =>
          rw [List.forall_mem_cons] at directories
          rw [List.mem_cons, not_or] at avoids
          rw [if_neg (by simp [Ne.symm avoids.1, directories.1])]
          exact ih.mpr ⟨_, ⟨rest, directories.2⟩, Nat.lt_of_succ_lt_succ short, avoids.2⟩

/-- Sixteen steps are enough for every chain that reaches the root. -/
theorem diskfsParentChainValid_iff (inTable : index < maxFiles) :
    diskfsParentChainValid entries index = true ↔
      ∃ path, Reaches entries (entryAt entries index).parent path := by
  rw [diskfsParentChainValid, parentChainFrom_iff]
  constructor
  · rintro ⟨path, reaches, _⟩
    exact ⟨path, reaches⟩
  · rintro ⟨path, ends, directories⟩
    -- the chain from the entry itself visits it first, and never again
    have fromEntry := @Ends.step _ _ index _ ends
    have avoids := (List.nodup_cons.mp fromEntry.nodup).1
    have within : ∀ visited ∈ index :: path, visited ∈ List.range maxFiles := by
      rw [List.forall_mem_cons]
      refine ⟨List.mem_range.mpr inTable, fun visited member => ?_⟩
      exact List.mem_range.mpr (isDirectory_iff.mp (directories visited member)).1
    have short := fromEntry.length_le within
    rw [List.length_range] at short
    exact ⟨path, ⟨ends, directories⟩, short, avoids⟩

/-- A chain is still there when none of its entries has changed. -/
theorem Reaches.frame (reaches : Reaches entries parent path)
    (same : ∀ visited ∈ path, (entryAt entries visited).shown = (entryAt after visited).shown) :
    Reaches after parent path := by
  obtain ⟨ends, directories⟩ := reaches
  constructor
  · apply ends.congr
    intro visited member
    have directory := isDirectory_iff.mp (directories visited member)
    rw [(Entry.fields_of_shown directory.2.1 (same visited member)).2.2.1]
  · intro visited member
    have directory := isDirectory_iff.mp (directories visited member)
    have fields := Entry.fields_of_shown directory.2.1 (same visited member)
    exact isDirectory_iff.mpr ⟨directory.1, fields.1, fields.2.1.symm.trans directory.2.2⟩

/-- A chain that avoids a slot is still there when this slot changes. -/
theorem Reaches.frame_of_not_mem (reaches : Reaches entries parent path)
    (differs : DiffersAt entries after slot) (avoids : slot ∉ path) : Reaches after parent path := by
  apply reaches.frame
  intro visited member
  rw [differs.entryAt_eq (ne_of_mem_of_not_mem member avoids)]

/-- What is asked of the fields of an entry in use. -/
structure Entry.Sound (entry : Entry) : Prop where
  used : entry.used = 1
  name : NameAllowed entry.string
  type : entry.type = entryFile ∨ entry.type = entryDirectory
  fileLength : entry.type = entryFile → entry.length ≤ maxSize
  directoryLength : entry.type = entryDirectory → entry.length = 0

/-- The entries in use, each with what it has to satisfy. -/
structure InPlace (entries : Region) (index : Nat) : Prop where
  sound : (entryAt entries index).Sound
  reaches : ∃ path, Reaches entries (entryAt entries index).parent path
  distinct : ∀ other < maxFiles, other ≠ index → (entryAt entries other).used ≠ 0 →
    (entryAt entries index).parent = (entryAt entries other).parent →
      (entryAt entries index).string ≠ (entryAt entries other).string

theorem diskfsNameValid_entryAt :
    diskfsNameValid (entryAt entries index).name = true ↔ NameAllowed (entryAt entries index).string :=
  diskfsNameValid_field load_length

theorem entriesValid_iff : EntriesValid entries ↔
      ∀ index < maxFiles, (entryAt entries index).used ≠ 0 → InPlace entries index := by
  constructor
  · intro valid index inTable used
    have accepted := valid index inTable used
    refine ⟨⟨accepted.used, diskfsNameValid_entryAt.mp accepted.name, accepted.type,
      accepted.fileLength, accepted.directoryLength⟩,
      (diskfsParentChainValid_iff inTable).mp accepted.chain, ?_⟩
    intro other otherInTable different otherUsed siblings
    -- the table is only searched behind the entry
    rcases Nat.lt_or_gt_of_ne different with before | behind
    · exact ((valid other otherInTable otherUsed).distinct index inTable before used
        siblings.symm).symm
    · exact accepted.distinct other otherInTable behind otherUsed siblings
  · intro valid index inTable used
    obtain ⟨sound, reaches, distinct⟩ := valid index inTable used
    refine ⟨sound.used, diskfsNameValid_entryAt.mpr sound.name, sound.type, sound.fileLength,
      sound.directoryLength, (diskfsParentChainValid_iff inTable).mpr reaches, ?_⟩
    intro other otherInTable behind
    exact distinct other otherInTable (Nat.ne_of_gt behind)

/-- The slot holds a directory, whose parent is in another slot. -/
def LeadsTo (entries : Region) (child parent : Nat) : Prop :=
  isDirectory entries child = true ∧ parentSlot (entryAt entries child).parent = some parent

theorem EntriesValid.not_cycle (valid : EntriesValid entries) :
    ¬ Relation.TransGen (LeadsTo entries) slot slot := by
  intro cycle
  obtain ⟨_, ⟨directory, _⟩, _⟩ := Relation.TransGen.head'_iff.mp cycle
  obtain ⟨inTable, used, _⟩ := isDirectory_iff.mp directory
  obtain ⟨path, ends, _⟩ := (entriesValid_iff.mp valid slot inTable used).reaches
  exact (Ends.step ends).not_cycle rfl (cycle.lift id fun _ _ leads => leads.2)

/-- Without a cycle no chain is too long. -/
theorem exists_reaches (acyclic : ∀ slot, ¬ Relation.TransGen (LeadsTo entries) slot slot)
    (parents : ∀ child, isDirectory entries child = true →
      (entryAt entries child).parent = rootParent ∨
        isDirectory entries (entryAt entries child).parent.toNat = true)
    (hasParent : parent = rootParent ∨ isDirectory entries parent.toNat = true) :
    ∃ path, Reaches entries parent path := by
  by_cases isRoot : parent = rootParent
  · exact isRoot ▸ ⟨[], reaches_root⟩
  let directories : Set Nat := {slot | isDirectory entries slot = true}
  have : Finite directories :=
    Finite.of_injective (fun slot => (⟨slot.1, (isDirectory_iff.mp slot.2).1⟩ : Fin maxFiles))
      fun _ _ same => Subtype.ext (Fin.mk.inj same)
  have closed : ∀ child ∈ directories, ∀ above,
      parentSlot (entryAt entries child).parent = some above → above ∈ directories := by
    intro child directory above isParent
    rw [parentSlot] at isParent
    split at isParent
    case isTrue => cases isParent
    case isFalse notRoot =>
      exact Option.some.inj isParent ▸ (parents child directory).resolve_left notRoot
  obtain ⟨path, ends, within⟩ := exists_ends closed acyclic _ (hasParent.resolve_left isRoot)
  refine ⟨path, ?_, within⟩
  rwa [parentSlot, if_neg isRoot]

/-- The tables that `diskfs_entries_valid` accepts.  A cycle among directories is always
noticed, and a table without one is not rejected because of the length of its chains. -/
theorem entriesValid_iff_tree (entries : Region) : (EntriesValid entries ↔
      ∀ index < maxFiles, (entryAt entries index).used ≠ 0 → InPlace entries index) ∧
    (∀ slot, Relation.TransGen (LeadsTo entries) slot slot → ¬ EntriesValid entries) ∧
    ((∀ slot, ¬ Relation.TransGen (LeadsTo entries) slot slot) →
      (∀ index < maxFiles, (entryAt entries index).used ≠ 0 →
        (entryAt entries index).parent = rootParent ∨
          isDirectory entries (entryAt entries index).parent.toNat = true) →
      ∀ index < maxFiles, (entryAt entries index).used ≠ 0 →
        diskfsParentChainValid entries index = true) := by
  refine ⟨entriesValid_iff, fun slot cycle valid => valid.not_cycle cycle, ?_⟩
  intro acyclic parents index inTable used
  refine (diskfsParentChainValid_iff inTable).mpr
    (exists_reaches acyclic (fun child directory => ?_) (parents index inTable used))
  obtain ⟨childInTable, childUsed, _⟩ := isDirectory_iff.mp directory
  exact parents child childInTable childUsed

/-- Whether a table is valid only depends on what it shows, and on the marks of the
entries in use. -/
theorem EntriesValid.congr (valid : EntriesValid entries) (same : SameDirectory entries after)
    (marks : ∀ index < maxFiles, (entryAt after index).used ≠ 0 → (entryAt after index).used = 1) :
    EntriesValid after := by
  rw [entriesValid_iff] at valid ⊢
  intro index inTable used
  obtain ⟨wasUsed, type, parent, string, length⟩ :=
    Entry.fields_of_shown used (same index inTable).symm
  obtain ⟨sound, ⟨path, reaches⟩, distinct⟩ := valid index inTable wasUsed
  refine ⟨⟨marks index inTable used, ?_, ?_, ?_, ?_⟩, ⟨path, ?_⟩, ?_⟩
  · exact string ▸ sound.name
  · exact type ▸ sound.type
  · rw [type, length]
    exact sound.fileLength
  · rw [type, length]
    exact sound.directoryLength
  · rw [parent]
    apply reaches.frame
    intro visited member
    exact same visited (isDirectory_iff.mp (reaches.2 visited member)).1
  · intro other otherInTable different otherUsed
    obtain ⟨otherWasUsed, _, otherParent, otherString, _⟩ :=
      Entry.fields_of_shown otherUsed (same other otherInTable).symm
    rw [parent, string, otherParent, otherString]
    exact distinct other otherInTable different otherWasUsed

theorem EntriesValid.of_table (valid : EntriesValid entries)
    (same : ∀ offset < tableSize, after offset = entries offset) : EntriesValid after := by
  apply valid.congr
  · intro index inTable
    rw [entryAt_eq_of_table inTable same]
  · intro index inTable
    rw [entryAt_eq_of_table inTable same]
    exact fun used => (valid index inTable used).used

theorem freeSlot_eq_some (found : freeSlot entries = some slot) :
    slot < maxFiles ∧ (entryAt entries slot).used = 0 := by
  have unused := List.find?_some found
  have inTable := List.mem_of_find?_eq_some found
  exact ⟨List.mem_range.mp inTable, by simpa using unused⟩

theorem diskfsFindChild_eq_none (allowed : NameAllowed name)
    (missing : diskfsFindChild entries parent name = none) :
    ∀ index < maxFiles, (entryAt entries index).used ≠ 0 →
      (entryAt entries index).parent = parent → (entryAt entries index).string ≠ name := by
  rw [diskfsFindChild, if_pos (diskfsNameValid_terminated.mpr allowed), List.find?_eq_none] at missing
  intro index inTable used isParent isName
  exact missing index (List.mem_range.mpr inTable) (decide_eq_true ⟨used, isParent, isName⟩)

theorem diskfsFindChild_lt (found : diskfsFindChild entries parent name = some slot) :
    slot < maxFiles := by
  rw [diskfsFindChild] at found
  split at found
  case isTrue => exact List.mem_range.mp (List.mem_of_find?_eq_some found)
  case isFalse => cases found

/-- An entry that keeps its place when another slot changes. -/
theorem InPlace.frame (inPlace : InPlace entries index)
    (differs : DiffersAt entries after slot) (elsewhere : index ≠ slot)
    (avoids : ∀ path, Reaches entries (entryAt entries index).parent path → slot ∉ path)
    (sibling : (entryAt after slot).used ≠ 0 →
      (entryAt entries index).parent = (entryAt after slot).parent →
        (entryAt entries index).string ≠ (entryAt after slot).string) :
    InPlace after index := by
  have same := differs.entryAt_eq elsewhere
  obtain ⟨path, reaches⟩ := inPlace.reaches
  refine ⟨same ▸ inPlace.sound,
    ⟨path, same ▸ reaches.frame_of_not_mem differs (avoids path reaches)⟩, ?_⟩
  · intro other inTable different used siblings
    rw [same] at siblings ⊢
    by_cases isSlot : other = slot
    · subst isSlot
      exact sibling used siblings
    · rw [differs.entryAt_eq isSlot] at used siblings ⊢
      exact inPlace.distinct other inTable different used siblings

/-- Creating an entry keeps the table valid. -/
theorem EntriesValid.create (valid : EntriesValid entries) (free : freeSlot entries = some slot)
    (allowed : NameAllowed name) (missing : diskfsFindChild entries parent name = none)
    (hasParent : parent = rootParent ∨ isDirectory entries parent.toNat = true)
    (isType : type = entryFile ∨ type = entryDirectory) :
    EntriesValid (store entries (entrySize * slot) (createdEntry parent name type)) := by
  rw [entriesValid_iff] at valid ⊢
  obtain ⟨slotInTable, unused⟩ := freeSlot_eq_some free
  have absent := diskfsFindChild_eq_none allowed missing
  have created := entryAt_createdEntry allowed entries slot parent type
  have differs := differsAt_store entries slot (createdEntry_length allowed parent type)
  generalize store entries (entrySize * slot) (createdEntry parent name type) = after at *
  have avoids : ∀ start path, Reaches entries start path → slot ∉ path := by
    intro start path reaches member
    exact (isDirectory_iff.mp (reaches.2 slot member)).2.1 unused
  have string : (entryAt after slot).string = name := by
    rw [created]
    exact ofBuffer_nameField allowed
  intro index inTable used
  by_cases isSlot : index = slot
  · subst isSlot
    refine ⟨⟨?_, string ▸ allowed, ?_, ?_, ?_⟩, ?_, ?_⟩
    · rw [created]
    · rw [created]
      exact isType
    · rw [created]
      exact fun _ => Nat.zero_le _
    · rw [created]
      exact fun _ => rfl
    · rw [created]
      -- the chain of the parent, with the parent in front of it
      rcases hasParent with rfl | directory
      · exact ⟨[], reaches_root⟩
      · by_cases isRoot : parent = rootParent
        · exact isRoot ▸ ⟨[], reaches_root⟩
        · have isParent := isDirectory_iff.mp directory
          obtain ⟨path, reaches⟩ := (valid _ isParent.1 isParent.2.1).reaches
          have chain := (reaches_cons isRoot).mpr ⟨directory, reaches⟩
          exact ⟨_, chain.frame_of_not_mem differs (avoids _ _ chain)⟩
    · intro other otherInTable different otherUsed siblings
      rw [differs.entryAt_eq different] at otherUsed siblings ⊢
      rw [string]
      have isParent : (entryAt entries other).parent = parent := by
        rw [← siblings, created]
      exact (absent other otherInTable otherUsed isParent).symm
  · have same := differs.entryAt_eq isSlot
    rw [same] at used
    refine (valid index inTable used).frame differs isSlot (avoids _) ?_
    intro _ siblings
    rw [string]
    have isParent : (entryAt entries index).parent = parent := by
      rw [siblings, created]
    exact absent index inTable used isParent

theorem entryAt_cleared (entries : Region) (slot : Nat) :
    (entryAt (store entries (entrySize * slot) (List.replicate entrySize 0)) slot).used = 0 := by
  rw [entryAt_store List.length_replicate]
  rfl

/-- Clearing an entry keeps the table valid if no entry has it as parent. -/
theorem EntriesValid.clear (valid : EntriesValid entries)
    (childless : (entryAt entries slot).type = entryDirectory →
      diskfsEntryHasChildren entries slot = false) :
    EntriesValid (store entries (entrySize * slot) (List.replicate entrySize 0)) := by
  rw [entriesValid_iff] at valid ⊢
  have cleared := entryAt_cleared entries slot
  have differs : DiffersAt entries (store entries (entrySize * slot) (List.replicate entrySize 0))
    slot := differsAt_store entries slot List.length_replicate
  generalize store entries (entrySize * slot) (List.replicate entrySize 0) = after at *
  intro index inTable used
  have isOther : index ≠ slot := fun isSlot => used (isSlot ▸ cleared)
  rw [differs.entryAt_eq isOther] at used
  refine (valid index inTable used).frame differs isOther ?_ (fun taken => absurd cleared taken)
  intro path reaches member
  have directory := isDirectory_iff.mp (reaches.2 slot member)
  have noChild := childless directory.2.2
  rw [diskfsEntryHasChildren, List.any_eq_false] at noChild
  have notParent : ∀ child < maxFiles, (entryAt entries child).used ≠ 0 →
      parentSlot (entryAt entries child).parent ≠ some slot := by
    intro child childInTable childUsed isChild
    rw [parentSlot] at isChild
    split at isChild
    · cases isChild
    · exact noChild child (List.mem_range.mpr childInTable)
        (decide_eq_true ⟨childUsed, Option.some.inj isChild⟩)
  refine reaches.1.not_mem reaches.2 (notParent index inTable used) ?_ member
  intro visited isVisited
  have inUse := isDirectory_iff.mp isVisited
  exact notParent visited inUse.1 inUse.2.1

/-- A new length of a file keeps the table valid. -/
theorem EntriesValid.setLength {length : Nat} (valid : EntriesValid entries)
    (slotInTable : slot < maxFiles) (isFile : (entryAt entries slot).type = entryFile)
    (fits : length ≤ maxSize) :
    EntriesValid (store32 entries (entrySize * slot + 36) length) := by
  rw [entriesValid_iff] at valid ⊢
  have changed := entryAt_store32 entries slot (Nat.lt_of_le_of_lt fits (by decide))
  have differs := differsAt_store32 entries slot length
  generalize store32 entries (entrySize * slot + 36) length = after at *
  have avoids : ∀ start path, Reaches entries start path → slot ∉ path := by
    intro start path reaches member
    have isDirectory := (isDirectory_iff.mp (reaches.2 slot member)).2.2
    rw [isFile] at isDirectory
    exact absurd isDirectory (by decide)
  intro index inTable used
  by_cases isSlot : index = slot
  · subst isSlot
    rw [changed] at used
    obtain ⟨sound, ⟨path, reaches⟩, distinct⟩ := valid index inTable used
    refine ⟨?_, ⟨path, ?_⟩, ?_⟩
    · rw [changed]
      refine ⟨sound.used, sound.name, sound.type, fun _ => fits, fun isDirectory => ?_⟩
      exact absurd (isFile.symm.trans isDirectory) (by decide)
    · rw [changed]
      exact reaches.frame_of_not_mem differs (avoids _ _ reaches)
    · intro other otherInTable different
      rw [differs.entryAt_eq different, changed]
      exact distinct other otherInTable different
  · rw [differs.entryAt_eq isSlot] at used
    have inPlace := valid index inTable used
    refine inPlace.frame differs isSlot (avoids _) ?_
    rw [changed]
    exact inPlace.distinct slot slotInTable (Ne.symm isSlot)

end MiniOS.DiskFs
