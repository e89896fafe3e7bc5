import MiniOS.ByteMemory
import MiniOS.PhysicalMemoryRun
import MiniOS.UserLayout

/-!
# Physical memory at boot

`initialize_physical_memory` releases the frames that the boot loader reports as usable, except
those below the end of the kernel and those under the window for user programs.
-/

namespace MiniOS.PhysicalMemory

open ByteMemory UserLayout

/-- The part of a range inside a window.  The end of the range is computed with 64 bits. -/
def usableBounds (base length allowedStart allowedEnd : Nat) : Nat × Nat :=
  let stop := (base + length) % 2 ^ 64
  let stop := if stop < base then 2 ^ 64 - 1 else stop
  (if allowedStart < base then base else allowedStart,
    if allowedEnd < stop then allowedEnd else stop)

def freeUsableSubrange (pmm : Pmm) (base length allowedStart allowedEnd : Nat) : Pmm :=
  let (start, stop) := usableBounds base length allowedStart allowedEnd
  if start < stop then pmmInitRegion pmm (start % 2 ^ 32) ((stop - start) % 2 ^ 32) else pmm

def freeUsableMemory (pmm : Pmm) (base length freeStart : Nat) : Pmm :=
  freeUsableSubrange (freeUsableSubrange pmm base length freeStart userLoadBase) base length
    0x400000 pmmMaxMemory

/-- The fields of `multiboot_info_t` that the kernel reads. -/
structure MultibootInfo where
  flags : UInt32
  memUpper : UInt32
  mmapLength : UInt32
  mmapAddr : UInt32

structure MmapEntry where
  size : Nat
  addr : Nat
  len : Nat
  type : Nat
deriving DecidableEq

def readEntry (m : Region) (address : Nat) : MmapEntry where
  size := load32 m address
  addr := load32 m (address + 4) + 2 ^ 32 * load32 m (address + 8)
  len := load32 m (address + 12) + 2 ^ 32 * load32 m (address + 16)
  type := load32 m (address + 20)

/-- The walk over the memory map; `none` when `turns` entries were not enough to end it. -/
def walkMap (m : Region) (info : MultibootInfo) (freeStart : Nat) :
    (turns offset : Nat) → Pmm → Option Pmm
  | 0, _, _ => none
  | turns + 1, offset, pmm =>
    if offset < info.mmapLength.toNat then
      let entry := readEntry m ((info.mmapAddr.toNat + offset) % 2 ^ 32)
      let recordSize := (entry.size + 4) % 2 ^ 32
      if entry.size < 20 ∨ info.mmapLength.toNat - offset < recordSize then some pmm
      else
        let pmm := if entry.type = 1 then freeUsableMemory pmm entry.addr entry.len freeStart else pmm
        walkMap m info freeStart turns ((offset + recordSize) % 2 ^ 32) pmm
    else some pmm

def bootloaderMagic : UInt32 := 0x2BADB002

/-- The information counts if the boot loader says that it has left any. -/
def trustedInfo (magic : UInt32) (info : Option MultibootInfo) : Option MultibootInfo :=
  if magic = bootloaderMagic then info else none

def memoryKb (info : Option MultibootInfo) : Nat :=
  match info with
  | none => pmmMaxMemory / 1024
  | some info =>
    if info.flags &&& 1 ≠ 0 then
      let detectedKb := 1024 + info.memUpper.toNat
      if detectedKb < pmmMaxMemory / 1024 then detectedKb else pmmMaxMemory / 1024
    else pmmMaxMemory / 1024

def mapOf (info : Option MultibootInfo) : Option MultibootInfo :=
  info.filter fun info => info.flags &&& 0x40 ≠ 0

def initializePhysicalMemory (m : Region) (turns : Nat) (magic : UInt32)
    (info : Option MultibootInfo) (freeStart : UInt32) : Option Pmm :=
  let info := trustedInfo magic info
  let pmm := pmmInit (memoryKb info)
  match mapOf info with
  | some info => walkMap m info freeStart.toNat turns 0 pmm
  | none => some (freeUsableMemory pmm 0 (memoryKb info * 1024) freeStart.toNat)

def FrameWithin (frame start stop : Nat) : Prop :=
  ∀ byte, frame * pmmBlockSize ≤ byte → byte < (frame + 1) * pmmBlockSize → start ≤ byte ∧ byte < stop

/-- All the bytes of a frame lie in a reported range and in one of the two windows. -/
def FrameUsable (freeStart frame : Nat) (range : Nat × Nat) : Prop :=
  FrameWithin frame range.1 (range.1 + range.2) ∧
    (FrameWithin frame freeStart userLoadBase ∨ FrameWithin frame 0x400000 pmmMaxMemory)

theorem frameWithin_iff {frame start stop : Nat} : FrameWithin frame start stop ↔
      start ≤ frame * pmmBlockSize ∧ (frame + 1) * pmmBlockSize ≤ stop := by
  have room : frame * pmmBlockSize + 4095 + 1 = (frame + 1) * pmmBlockSize := by
    unfold pmmBlockSize
    omega
  constructor
  · intro within
    have first := within (frame * pmmBlockSize) le_rfl (by omega)
    have last := within (frame * pmmBlockSize + 4095) (by omega) (by omega)
    omega
  · intro bounds byte lower upper
    omega

section Ranges

variable {pmm pmm' : Pmm} {maxBlocks : Nat} {frees laterFrees : Nat → Prop}

def Reserving (maxBlocks : Nat) (pmm : Pmm) : Prop :=
  pmm.memoryMap 0 = true ∧ pmm.maxBlocks = maxBlocks

structure Releases (maxBlocks : Nat) (pmm pmm' : Pmm) (frees : Nat → Prop) : Prop where
  reserving : Reserving maxBlocks pmm'
  free : ∀ frame, pmm'.memoryMap frame = false ↔
    pmm.memoryMap frame = false ∨ frame ≠ 0 ∧ frame < maxBlocks ∧ frees frame

theorem Reserving.unchanged (reserving : Reserving maxBlocks pmm) (never : ∀ frame, ¬ frees frame) :
    Releases maxBlocks pmm pmm frees :=
  ⟨reserving, fun frame => by simp [never frame]⟩

theorem Releases.trans {pmm'' : Pmm} (first : Releases maxBlocks pmm pmm' frees)
    (second : Releases maxBlocks pmm' pmm'' laterFrees) :
    Releases maxBlocks pmm pmm'' fun frame => frees frame ∨ laterFrees frame := by
  refine ⟨second.reserving, fun frame => ?_⟩
  rw [second.free, first.free]
  tauto

theorem Releases.congr (releases : Releases maxBlocks pmm pmm' frees)
    (same : ∀ frame, frees frame ↔ laterFrees frame) : Releases maxBlocks pmm pmm' laterFrees :=
  ⟨releases.reserving, fun frame => by rw [releases.free, same]⟩

variable (reserving : Reserving maxBlocks pmm)

include reserving

theorem Reserving.initRegion (base size : Nat) :
    Releases maxBlocks pmm (pmmInitRegion pmm base size) (FrameWithin · base (base + size)) := by
  obtain ⟨null, rfl⟩ := reserving
  refine ⟨⟨pmmInitRegion_apply pmm base size 0, pmmInitRegion_maxBlocks ..⟩, fun frame => ?_⟩
  have inside : ((initBounds pmm base size).1 ≤ frame ∧ frame < (initBounds pmm base size).2) ↔
      frame < pmm.maxBlocks ∧ base ≤ frame * pmmBlockSize ∧ (frame + 1) * pmmBlockSize ≤ base + size := by
    unfold initBounds pmmBlockSize
    dsimp only
    split <;> omega
  rw [frameWithin_iff, ← inside, pmmInitRegion_apply]
  by_cases zero : frame = 0
  · simp [zero, null]
  · rw [if_neg zero]
    by_cases released : (initBounds pmm base size).1 ≤ frame ∧ frame < (initBounds pmm base size).2
    · simp [released, zero]
    · simp [released]

theorem Reserving.freeUsableSubrange {base length allowedStart allowedEnd : Nat}
    (longBase : base < 2 ^ 64) (longLength : length < 2 ^ 64)
    (startFits : allowedStart < 2 ^ 32) (endFits : allowedEnd ≤ pmmMaxMemory) :
    Releases maxBlocks pmm (freeUsableSubrange pmm base length allowedStart allowedEnd) fun frame =>
      FrameWithin frame base (base + length) ∧ FrameWithin frame allowedStart allowedEnd := by
  unfold pmmMaxMemory at endFits
  have clipped : ∀ start stop, usableBounds base length allowedStart allowedEnd = (start, stop) →
      stop ≤ allowedEnd ∧ ∀ frame, FrameWithin frame start stop ↔
        FrameWithin frame base (base + length) ∧ FrameWithin frame allowedStart allowedEnd := by
    intro start stop bounds
    obtain ⟨rfl, rfl⟩ := Prod.mk.inj bounds
    constructor
    · split <;> split <;> omega
    · intro frame
      simp only [frameWithin_iff]
      split <;> split <;> split <;> omega
  rw [PhysicalMemory.freeUsableSubrange]
  cases bounds : usableBounds base length allowedStart allowedEnd with
  | mk start stop =>
  obtain ⟨below, within⟩ := clipped start stop bounds
  dsimp only
  split
  · rw [Nat.mod_eq_of_lt (by omega), Nat.mod_eq_of_lt (by omega)]
    refine (reserving.initRegion start (stop - start)).congr fun frame => ?_
    rw [← within, Nat.add_sub_cancel' (by omega)]
  · next empty =>
    refine reserving.unchanged fun frame usable => ?_
    rw [← within, frameWithin_iff] at usable
    unfold pmmBlockSize at usable
    omega

theorem Reserving.freeUsableMemory {base length freeStart : Nat} (longBase : base < 2 ^ 64)
    (longLength : length < 2 ^ 64) (startFits : freeStart < 2 ^ 32) :
    Releases maxBlocks pmm (freeUsableMemory pmm base length freeStart)
      (FrameUsable freeStart · (base, length)) := by
  have first := reserving.freeUsableSubrange longBase longLength startFits
    (show userLoadBase ≤ pmmMaxMemory by decide)
  have second := first.reserving.freeUsableSubrange longBase longLength
    (show 0x400000 < 2 ^ 32 by decide) (Nat.le_refl pmmMaxMemory)
  exact (first.trans second).congr fun frame => and_or_left.symm

end Ranges

/-- The bytes at an offset of the map up to its end are a sequence of entries. -/
inductive MapEntries (m : Region) (info : MultibootInfo) : (offset : Nat) → List MmapEntry → Prop
  | done : MapEntries m info info.mmapLength.toNat []
  | entry {offset : Nat} {entries : List MmapEntry} (entry : MmapEntry) :
    entry = readEntry m ((info.mmapAddr.toNat + offset) % 2 ^ 32) → 20 ≤ entry.size →
    entry.size + 4 ≤ info.mmapLength.toNat - offset →
    MapEntries m info (offset + (entry.size + 4)) entries →
    MapEntries m info offset (entry :: entries)

def availableRanges (entries : List MmapEntry) : List (Nat × Nat) :=
  (entries.filter (·.type = 1)).map fun entry => (entry.addr, entry.len)

variable {m : Region} {info : MultibootInfo} {freeStart : Nat}

theorem readEntry_fits (m : Region) (address : Nat) :
    (readEntry m address).addr < 2 ^ 64 ∧ (readEntry m address).len < 2 ^ 64 := by
  have bytes := load32_lt m
  have addrLow := bytes (address + 4)
  have addrHigh := bytes (address + 8)
  have lenLow := bytes (address + 12)
  have lenHigh := bytes (address + 16)
  dsimp only [readEntry]
  omega

/-- Every entry of the map has its turn, and what they release adds up. -/
theorem walkMap_releases {maxBlocks : Nat} (startFits : freeStart < 2 ^ 32) {offset : Nat}
    {entries : List MmapEntry} (isMap : MapEntries m info offset entries) :
    ∀ turns pmm, info.mmapLength.toNat - offset < turns → Reserving maxBlocks pmm →
      ∃ pmm', walkMap m info freeStart turns offset pmm = some pmm' ∧
        Releases maxBlocks pmm pmm' fun frame =>
          ∃ range ∈ availableRanges entries, FrameUsable freeStart frame range := by
  induction isMap with
  | done =>
    intro turns pmm enough reserving
    obtain ⟨turns, rfl⟩ := Nat.exists_eq_add_one_of_ne_zero (Nat.ne_zero_of_lt enough)
    refine ⟨pmm, ?_, reserving.unchanged (by simp [availableRanges])⟩
    rw [walkMap, if_neg (Nat.lt_irrefl _)]
  | @entry offset entries entry isEntry large fits later ih =>
    intro turns pmm enough reserving
    obtain ⟨turns, rfl⟩ := Nat.exists_eq_add_one_of_ne_zero (Nat.ne_zero_of_lt enough)
    have short : info.mmapLength.toNat < 2 ^ 32 := info.mmapLength.toNat_lt
    rw [walkMap, if_pos (by omega), ← isEntry]
    dsimp only
    rw [Nat.mod_eq_of_lt (show entry.size + 4 < 2 ^ 32 by omega), if_neg (by omega),
      Nat.mod_eq_of_lt (show offset + (entry.size + 4) < 2 ^ 32 by omega)]
    obtain ⟨longAddr, longLen⟩ := readEntry_fits m ((info.mmapAddr.toNat + offset) % 2 ^ 32)
    rw [← isEntry] at longAddr longLen
    by_cases available : entry.type = 1
    · have freed := reserving.freeUsableMemory longAddr longLen startFits
      obtain ⟨pmm', walked, releases⟩ := ih turns _ (by omega) freed.reserving
      refine ⟨pmm', by rw [if_pos available]; exact walked, (freed.trans releases).congr fun frame => ?_⟩
      simp [availableRanges, available]
    · obtain ⟨pmm', walked, releases⟩ := ih turns pmm (by omega) reserving
      refine ⟨pmm', by rw [if_neg available]; exact walked, releases.congr fun frame => ?_⟩
      simp [availableRanges, available]

theorem memoryKb_le (info : Option MultibootInfo) : memoryKb info ≤ pmmMaxMemory / 1024 := by
  cases info with
  | none => exact le_rfl
  | some info =>
    rw [memoryKb]
    dsimp only
    split
    · split
      · next small => exact small.le
      · exact le_rfl
    · exact le_rfl

/-- The ranges of usable memory: what the map reports, or all that there is. -/
inductive UsableRanges (m : Region) (info : Option MultibootInfo) : List (Nat × Nat) → Prop
  | map {map : MultibootInfo} {entries : List MmapEntry} :
    mapOf info = some map → MapEntries m map 0 entries → UsableRanges m info (availableRanges entries)
  | fallback : mapOf info = none → UsableRanges m info [(0, memoryKb info * 1024)]

/-- After the initialisation the free frames are the ones that lie in a usable range and in one
of the two windows. -/
theorem initializePhysicalMemory_free (m : Region) (magic : UInt32) (info : Option MultibootInfo)
    (freeStart : UInt32) (ranges : List (Nat × Nat))
    (isRanges : UsableRanges m (trustedInfo magic info) ranges) :
    ∀ turns, 2 ^ 32 ≤ turns → ∃ pmm, initializePhysicalMemory m turns magic info freeStart = some pmm ∧
      pmm.maxBlocks = memoryKb (trustedInfo magic info) / 4 ∧
      ∀ frame, pmm.memoryMap frame = false ↔
        frame ≠ 0 ∧ frame < pmm.maxBlocks ∧ ∃ range ∈ ranges, FrameUsable freeStart.toNat frame range := by
  intro turns enough
  rw [initializePhysicalMemory]
  generalize trustedInfo magic info = info at isRanges ⊢
  have bounded : memoryKb info ≤ pmmMaxMemory / 1024 := memoryKb_le info
  have initial : Reserving (memoryKb info / 4) (pmmInit (memoryKb info)) := by
    refine ⟨rfl, Nat.min_eq_left ?_⟩
    unfold pmmMaxBlocks pmmBlockSize
    unfold pmmMaxMemory at bounded ⊢
    omega
  have finished : ∀ {pmm frees}, Releases (memoryKb info / 4) (pmmInit (memoryKb info)) pmm frees →
      pmm.maxBlocks = memoryKb info / 4 ∧ ∀ frame, pmm.memoryMap frame = false ↔
        frame ≠ 0 ∧ frame < pmm.maxBlocks ∧ frees frame := by
    intro pmm frees releases
    refine ⟨releases.reserving.2, fun frame => ?_⟩
    rw [releases.free, releases.reserving.2]
    simp [pmmInit]
  cases isRanges with
  | @map map entries isMap isEntries =>
    obtain ⟨pmm, walked, releases⟩ := walkMap_releases freeStart.toNat_lt isEntries turns _
      (Nat.lt_of_lt_of_le (Nat.lt_of_le_of_lt (Nat.sub_le ..) map.mmapLength.toNat_lt) enough) initial
    rw [isMap]
    exact ⟨pmm, walked, finished releases⟩
  | fallback noMap =>
    rw [noMap]
    refine ⟨_, rfl, finished ((initial.freeUsableMemory (by omega) ?_ freeStart.toNat_lt).congr ?_)⟩
    · unfold pmmMaxMemory at bounded
      omega
    · simp

/-- A map with one entry, which starts inside a frame and reaches past the end of memory. -/
def wrappingMap : Region := fun offset =>
  [20, 0, 0, 0, 0, 8, 16, 0, 0, 0, 0, 0, 255, 255, 255, 255, 255, 255, 255, 255, 1, 0, 0, 0].getD offset 0

def wrappingInfo : MultibootInfo := ⟨0x41, 0x7C00, 24, 0⟩

theorem initializePhysicalMemory_free_wrapping : ∃ pmm,
    initializePhysicalMemory wrappingMap (2 ^ 32) bootloaderMagic (some wrappingInfo) 0x100000 = some pmm ∧
      pmm.memoryMap 0x100 = true ∧ pmm.memoryMap 0x101 = false := by
  have isMap : MapEntries wrappingMap wrappingInfo 0 [⟨20, 0x100800, 2 ^ 64 - 1, 1⟩] :=
    .entry _ (by decide) (by decide) (by decide) .done
  obtain ⟨pmm, ended, isMax, free⟩ := initializePhysicalMemory_free wrappingMap bootloaderMagic
    (some wrappingInfo) 0x100000 _ (.map rfl isMap) (2 ^ 32) le_rfl
  refine ⟨pmm, ended, ?_, ?_⟩
  · rw [← Bool.not_eq_false, free]
    simp [availableRanges, FrameUsable, frameWithin_iff, pmmBlockSize]
  · rw [free, isMax]
    refine ⟨by decide, by decide, _, List.mem_singleton_self _, ?_⟩
    simp only [FrameUsable, frameWithin_iff]
    decide

def entryAt (m : Region) (info : MultibootInfo) (offset : Nat) : MmapEntry :=
  readEntry m ((info.mmapAddr.toNat + offset) % 2 ^ 32)

/-- The offsets of the entries that the walk acts on. -/
def walkedOffsets (m : Region) (info : MultibootInfo) : (turns offset : Nat) → Option (List Nat)
  | 0, _ => none
  | turns + 1, offset =>
    if offset < info.mmapLength.toNat then
      let recordSize := ((entryAt m info offset).size + 4) % 2 ^ 32
      if (entryAt m info offset).size < 20 ∨ info.mmapLength.toNat - offset < recordSize then some []
      else (walkedOffsets m info turns ((offset + recordSize) % 2 ^ 32)).map (offset :: ·)
    else some []

def releaseEntry (m : Region) (info : MultibootInfo) (freeStart : Nat) (pmm : Pmm) (offset : Nat) :
    Pmm :=
  let entry := entryAt m info offset
  if entry.type = 1 then freeUsableMemory pmm entry.addr entry.len freeStart else pmm

theorem walkMap_eq (turns offset : Nat) (pmm : Pmm) : walkMap m info freeStart turns offset pmm =
      (walkedOffsets m info turns offset).map (·.foldl (releaseEntry m info freeStart) pmm) := by
  induction turns generalizing offset pmm with
  | zero => rfl
  | succ turns ih =>
    rw [walkMap, walkedOffsets, entryAt]
    dsimp only
    split
    · split
      · rfl
      · rw [ih, Option.map_map]
        rfl
    · rfl

def EntryInside (m : Region) (info : MultibootInfo) (offset : Nat) : Prop :=
  20 ≤ (entryAt m info offset).size ∧
    offset + ((entryAt m info offset).size + 4) ≤ info.mmapLength.toNat

/-- Where an entry can start: at the beginning of the map, or behind another entry. -/
inductive EntryStart (m : Region) (info : MultibootInfo) : Nat → Prop
  | first : EntryStart m info 0
  | next {offset : Nat} : EntryStart m info offset → EntryInside m info offset →
    EntryStart m info (offset + ((entryAt m info offset).size + 4))

/-- No entry has one of the four largest numbers as its size, for which `record_size` wraps
around, unless the wrapped size does not fit the rest of the map either. -/
def SizesFit (m : Region) (info : MultibootInfo) : Prop :=
  ∀ offset < info.mmapLength.toNat, EntryStart m info offset →
    (entryAt m info offset).size < 2 ^ 32 - 4 ∨
      info.mmapLength.toNat - offset < (entryAt m info offset).size + 4 - 2 ^ 32

/-- The walk from an offset ends, and the entries it acts on lie in the map. -/
def WalkedInside (m : Region) (info : MultibootInfo) (turns offset : Nat) : Prop :=
  ∃ offsets, walkedOffsets m info turns offset = some offsets ∧
    ∀ walked ∈ offsets, EntryInside m info walked

theorem entryAt_size_lt (m : Region) (info : MultibootInfo) (offset : Nat) :
    (entryAt m info offset).size < 2 ^ 32 :=
  load32_lt m _

theorem walkedOffsets_inside (fit : SizesFit m info) (turns : Nat) :
    ∀ offset, EntryStart m info offset → info.mmapLength.toNat - offset < turns →
      WalkedInside m info turns offset := by
  induction turns with
  | zero => exact fun offset _ enough => absurd enough (Nat.not_lt_zero _)
  | succ turns ih =>
    intro offset starts enough
    rw [WalkedInside, walkedOffsets]
    dsimp only
    split
    case isFalse => exact ⟨[], rfl, by simp⟩
    case isTrue inMap =>
      have word := entryAt_size_lt m info offset
      have short : info.mmapLength.toNat < 2 ^ 32 := info.mmapLength.toNat_lt
      split
      case isTrue => exact ⟨[], rfl, by simp⟩
      case isFalse fits =>
        have small : (entryAt m info offset).size + 4 < 2 ^ 32 := by
          have sizes := fit offset inMap starts
          omega
        rw [Nat.mod_eq_of_lt small] at fits ⊢
        have inside : EntryInside m info offset := by
          unfold EntryInside
          omega
        have room := inside.2
        rw [Nat.mod_eq_of_lt (Nat.lt_of_le_of_lt room short)]
        obtain ⟨offsets, walked, later⟩ := ih _ (starts.next inside) (by omega)
        rw [walked]
        exact ⟨offset :: offsets, rfl, List.forall_mem_cons.mpr ⟨inside, later⟩⟩

/-- A turn that acts on an entry, and the rest of the walk. -/
theorem WalkedInside.acts {turns offset : Nat} (walked : WalkedInside m info turns offset)
    (inMap : offset < info.mmapLength.toNat) (large : 20 ≤ (entryAt m info offset).size)
    (fits : ((entryAt m info offset).size + 4) % 2 ^ 32 ≤ info.mmapLength.toNat - offset) :
    EntryInside m info offset ∧ ∃ turns, WalkedInside m info turns
      ((offset + ((entryAt m info offset).size + 4) % 2 ^ 32) % 2 ^ 32) := by
  obtain ⟨offsets, ended, inside⟩ := walked
  cases turns with
  | zero => cases ended
  | succ turns =>
    rw [walkedOffsets, if_pos inMap] at ended
    dsimp only at ended
    rw [if_neg (by omega)] at ended
    obtain ⟨later, laterEnded, rfl⟩ := Option.map_eq_some_iff.mp ended
    obtain ⟨here, behind⟩ := List.forall_mem_cons.mp inside
    exact ⟨here, turns, later, laterEnded, behind⟩

/-- A walk from the beginning comes to every place where an entry starts. -/
theorem EntryStart.walked {turns offset : Nat} (ends : WalkedInside m info turns 0)
    (starts : EntryStart m info offset) : ∃ turns, WalkedInside m info turns offset := by
  induction starts with
  | first => exact ⟨turns, ends⟩
  | @next offset _ inside ih =>
    obtain ⟨turns, walked⟩ := ih
    have short : info.mmapLength.toNat < 2 ^ 32 := info.mmapLength.toNat_lt
    have room := inside.2
    have small := Nat.mod_eq_of_lt (show (entryAt m info offset).size + 4 < 2 ^ 32 by omega)
    obtain ⟨-, later⟩ := walked.acts (by omega) inside.1 (by omega)
    rwa [small, Nat.mod_eq_of_lt (Nat.lt_of_le_of_lt room short)] at later

theorem WalkedInside.sizesFit {turns : Nat} (ends : WalkedInside m info turns 0) :
    SizesFit m info := by
  intro offset inMap starts
  obtain ⟨turns, walked⟩ := starts.walked ends
  have short : info.mmapLength.toNat < 2 ^ 32 := info.mmapLength.toNat_lt
  have word := entryAt_size_lt m info offset
  by_contra wraps
  obtain ⟨inside, -⟩ := walked.acts inMap (by omega) (by omega)
  have room := inside.2
  omega

/-- The walk ends and acts on entries of the map only, exactly if the sizes fit.  It then ends
within as many turns as the map has bytes. -/
theorem walkMap_ends_inside (m : Region) (info : MultibootInfo) (freeStart : Nat) :
    ((∃ turns, WalkedInside m info turns 0) ↔ SizesFit m info) ∧
      (∀ turns, info.mmapLength.toNat < turns → SizesFit m info → WalkedInside m info turns 0) ∧
      ∀ turns pmm, walkMap m info freeStart turns 0 pmm =
        (walkedOffsets m info turns 0).map (·.foldl (releaseEntry m info freeStart) pmm) := by
  have ends : ∀ turns, info.mmapLength.toNat < turns → SizesFit m info →
      WalkedInside m info turns 0 :=
    fun turns enough fit => walkedOffsets_inside fit turns 0 .first enough
  refine ⟨⟨?_, fun fit => ⟨_, ends _ (Nat.lt_succ_self _) fit⟩⟩, ends,
    fun turns pmm => walkMap_eq turns 0 pmm⟩
  rintro ⟨turns, ended⟩
  exact ended.sizesFit

theorem walkMap_ends_inside_wrapping :
    walkedOffsets wrappingMap wrappingInfo 25 0 = some [0] ∧ SizesFit wrappingMap wrappingInfo := by
  refine ⟨by decide, (walkMap_ends_inside wrappingMap wrappingInfo 0x100000).1.mp
    ⟨25, [0], by decide, ?_⟩⟩
  rintro offset (_ | ⟨_, ⟨⟩⟩)
  exact ⟨by decide, by decide⟩

/-- A map of four bytes, the size of its entry.  The size of the record wraps around to zero. -/
def endlessMap : Region := fun offset => [252, 255, 255, 255].getD offset 0

theorem initializePhysicalMemory_endless :
    ¬ ∃ turns, (initializePhysicalMemory endlessMap turns bootloaderMagic
      (some ⟨0x41, 0x7C00, 4, 0⟩) 0x100000).isSome := by
  have stuck : ∀ turns pmm,
      walkMap endlessMap ⟨0x41, 0x7C00, 4, 0⟩ 0x100000 turns 0 pmm = none := by
    intro turns
    induction turns with
    | zero => exact fun pmm => rfl
    | succ turns ih => exact fun pmm => ih pmm
  rintro ⟨turns, ends⟩
  exact nomatch (congrArg Option.isSome (stuck turns _)).symm.trans ends

end MiniOS.PhysicalMemory
