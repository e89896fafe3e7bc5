import MiniOS.DiskFsFaults
import MiniOS.DiskFsPersistence

/-!
# A volume that is no longer mounted

When the metadata cannot be stored, the volume is unmounted.  From then on the calls that look
at the flag change nothing.  `diskfs_write_slot` does not look at it before it has written its
sectors, so a write through a node that is still open reaches the disk and the table; a format
or a mount that is begun and fails leaves its traces too.
-/

namespace MiniOS.DiskFs

open Machine
open Fat16 (CString)

variable {faults : Nat → Fault} {start s : FaultyVolume} {call : Call}

/-- Nothing has been written to the disk and no entry has changed since `start`. -/
structure Closed (start s : FaultyVolume) : Prop where
  unmounted : s.volume.mounted = false
  sectors : s.volume.ata.sectors = start.volume.ata.sectors
  writes : s.writes = start.writes
  entries : s.volume.entries = start.volume.entries

/-- The call is no write of bytes that the slot accepts, and it does not begin to format the
disk or to mount the volume that is on it. -/
def keepsOut (s : FaultyVolume) : Call → Bool
  | .format => !s.formattable
  | .mount => !(s.mountable &&
      decide (SuperblockValid s.volume.ata.sectorCount (s.volume.ata.sectors superblockLba)))
  | .change (.write index offset buffer) =>
    decide (buffer = []) || !writable s.volume index offset buffer.length
  | _ => true

namespace FaultyVolume

theorem tryWriteMetadata_fails (failed : (s.tryWriteMetadata faults).2 = false) :
    (s.tryWriteMetadata faults).1.volume.mounted = false := by
  rw [tryWriteMetadata] at failed ⊢
  dsimp only at failed ⊢
  by_cases directory : (s.tryWriteDirectory faults).2 = true
  · rw [if_pos directory] at failed ⊢
    by_cases superblock : ((s.tryWriteDirectory faults).1.tryWriteSuperblock faults).2 = true
    · rw [if_pos superblock] at failed
      cases failed
    · rw [if_neg superblock]
      rfl
  · rw [if_neg directory]
    rfl

theorem tryStoreMetadata_fails (failed : (s.tryStoreMetadata faults).2 = false) :
    (s.tryStoreMetadata faults).1.volume.mounted = false := by
  rw [tryStoreMetadata] at failed ⊢
  by_cases mounted : s.volume.mounted = true
  · rw [if_pos mounted] at failed ⊢
    exact tryWriteMetadata_fails failed
  · rw [if_neg mounted]
    simpa using mounted

/-- Reading counts accesses and does nothing else. -/
theorem tryReadSectors_keeps (lba room : Nat) : ∀ (position remaining : Nat) (s : FaultyVolume),
    ∃ accesses, (tryReadSectors faults lba room position remaining s).1 =
      { s with accesses := accesses } := by
  induction room with
  | zero => exact fun _ _ s => ⟨s.accesses, rfl⟩
  | succ room ih =>
    intro position remaining s
    rw [tryReadSectors]
    by_cases done : remaining = 0
    · rw [if_pos done]
      exact ⟨s.accesses, rfl⟩
    · rw [if_neg done, tryRead]
      by_cases fails : faults s.accesses = .none
      · rw [if_pos fails]
        exact ih _ _ _
      · rw [if_neg fails]
        exact ⟨s.accesses + 1, rfl⟩

theorem tryReadSlot_keeps (s : FaultyVolume) (index offset size : Nat) :
    ∃ accesses, (s.tryReadSlot faults index offset size).1 = { s with accesses := accesses } := by
  rw [tryReadSlot]
  dsimp only
  split
  · exact ⟨s.accesses, rfl⟩
  · split
    · exact ⟨s.accesses, rfl⟩
    · exact tryReadSectors_keeps _ _ _ _ s

theorem tryReadFile_keeps (s : FaultyVolume) (name : CString) (size : Nat) :
    ∃ accesses, (s.tryReadFile faults name size).1 = { s with accesses := accesses } := by
  rw [tryReadFile]
  cases diskfsFindFile s.volume.entries name with
  | none => exact ⟨s.accesses, rfl⟩
  | some index =>
    dsimp only
    split
    · exact tryReadSectors_keeps _ _ _ _ s
    · exact ⟨s.accesses, rfl⟩

variable (unmounted : s.volume.mounted = false)

include unmounted

theorem tryWriteFile_unmounted (name : CString)
    (buffer : List UInt8) : s.tryWriteFile faults name buffer = (s, false) := by
  rw [tryWriteFile]
  cases diskfsFindFile s.volume.entries name with
  | none => rfl
  | some index =>
    dsimp only
    rw [if_pos (by simp [unmounted])]

/-- A mount reads the superblock and gives up. -/
theorem tryMount_refused (out : keepsOut s .mount = true) :
    ∃ accesses, s.tryMount faults = ({ s with accesses := accesses }, false) := by
  have same : s.withMounted false = s := by
    rw [withMounted, ← unmounted]
  rw [tryMount, same]
  by_cases begins : s.mountable = true
  · have invalid : ¬ SuperblockValid s.volume.ata.sectorCount
        (s.volume.ata.sectors superblockLba) := by
      simpa [keepsOut, begins] using out
    refine ⟨s.accesses + 1, ?_⟩
    rw [if_pos begins, tryRead]
    by_cases fails : faults s.accesses = .none
    · rw [if_pos fails]
      exact if_neg invalid
    · rw [if_neg fails]
  · rw [if_neg begins]
    exact ⟨s.accesses, rfl⟩

end FaultyVolume

open FaultyVolume

theorem Closed.accessed (closed : Closed start s) (accesses : Nat) :
    Closed start { s with accesses := accesses } :=
  { closed with }

theorem Closed.withOpenRefs (closed : Closed start s) (index count : Nat) :
    Closed start (s.withOpenRefs index count) :=
  { closed with }

/-- A call that keeps out of the disk changes nothing on a volume that is not mounted. -/
theorem Closed.step (closed : Closed start s) (out : keepsOut s call = true) :
    Closed start (faultyStep faults s call).1 ∧ (faultyStep faults s call).2 = false := by
  have refused : ∀ result : FaultyVolume × Bool, result = (s, false) →
      Closed start result.1 ∧ result.2 = false := by
    rintro _ rfl
    exact ⟨closed, rfl⟩
  have unmounted := closed.unmounted
  cases call with
  | format =>
    refine refused _ (if_neg ?_)
    simpa [keepsOut] using out
  | mount =>
    obtain ⟨accesses, gives⟩ := tryMount_refused unmounted out
    rw [faultyStep, gives]
    exact ⟨closed.accessed accesses, rfl⟩
  | readFile name size =>
    obtain ⟨accesses, reads⟩ := tryReadFile_keeps s name size
    rw [faultyStep, reads]
    exact ⟨closed.accessed accesses, rfl⟩
  | read index offset size =>
    obtain ⟨accesses, reads⟩ := tryReadSlot_keeps s index offset size
    rw [faultyStep, reads]
    exact ⟨closed.accessed accesses, rfl⟩
  | change op =>
    cases op with
    | createFile name => exact refused _ (if_neg (by simp [creatable, unmounted]))
    | writeFile name buffer => exact refused _ (tryWriteFile_unmounted unmounted _ _)
    | unlinkFile name =>
      rw [faultyStep]
      cases diskfsFindFile s.volume.entries name with
      | none => exact ⟨closed, rfl⟩
      | some index => exact refused _ (if_neg (by simp [removable, unmounted]))
    | create node name | mkdir node name | unlink node name | rmdir node name =>
      exact refused _ (if_neg (by simp [unmounted]))
    | write index offset buffer =>
      rw [faultyStep, tryWriteSlot]
      by_cases accepted : writable s.volume index offset buffer.length = true
      · have nothing : buffer = [] := by simpa [keepsOut, accepted] using out
        rw [if_pos accepted, if_pos (by rw [nothing]; rfl)]
        exact ⟨closed, by simp [nothing]⟩
      · rw [if_neg accepted]
        exact ⟨closed, rfl⟩
    | openNode index | closeNode index =>
      rw [faultyStep]
      split
      · exact ⟨closed.withOpenRefs _ _, rfl⟩
      · exact ⟨closed, rfl⟩

def callsFrom (faults : Nat → Fault) : FaultyVolume → List Call → FaultyVolume :=
  run fun s call => (faultyStep faults s call).1

/-- A metadata store that fails leaves the volume unmounted.  As long as the calls keep out of
the disk, an unmounted volume stays as it is, on the disk and in memory, and no call reports a
change. -/
theorem unmounted_fails_closed (faults : Nat → Fault) (s : FaultyVolume) :
    ((s.tryStoreMetadata faults).2 = false → (s.tryStoreMetadata faults).1.volume.mounted = false) ∧
      (s.volume.mounted = false → ∀ calls,
        Admissible (fun s call => (faultyStep faults s call).1)
          (fun s call => keepsOut s call = true) s calls →
        Closed s (callsFrom faults s calls) ∧
          ∀ call, keepsOut (callsFrom faults s calls) call = true →
            (faultyStep faults (callsFrom faults s calls) call).2 = false) := by
  refine ⟨tryStoreMetadata_fails, fun unmounted calls admissible => ?_⟩
  have closed : Closed s (callsFrom faults s calls) :=
    run_invariant_of_admissible (Closed s) (fun _ _ closed out => (closed.step out).1)
      ⟨unmounted, rfl, rfl, rfl⟩ admissible
  exact ⟨closed, fun call out => (closed.step out).2⟩

/-- The disk loses the first sector of the directory when the second file is created. -/
def seventhLost (access : Nat) : Fault := if access = 6 then .lost else .none

/-- A file was created and opened, and the store of a second file failed. -/
def afterFailure : FaultyVolume :=
  callsFrom seventhLost ⟨blankVolume, 0, 0⟩
    [.format, .change (.createFile shortName), .change (.openNode 0),
      .change (.createFile (CString.ofBuffer [0x65, 0]))]

/-- A write through the node that is still open reaches the disk and the table. -/
theorem open_node_writes_unmounted :
    afterFailure.volume.mounted = false ∧ afterFailure.volume.ata.sectors (slotLba 0) 0 = 0 ∧
      (entryAt afterFailure.volume.entries 0).length = 0 ∧
      ∃ after, (faultyStep seventhLost afterFailure (.change (.write 0 0 [1]))).1 = after ∧
        after.volume.ata.sectors (slotLba 0) 0 = 1 ∧ after.writes = afterFailure.writes + 1 ∧
        (entryAt after.volume.entries 0).length = 1 := by
  refine ⟨by decide +kernel, by decide +kernel, by decide +kernel, _, rfl, ?_⟩
  decide +kernel

theorem unmounted_fails_closed_unlink :
    Closed afterFailure (callsFrom seventhLost afterFailure
      [.change (.unlinkFile shortName), .change (.closeNode 0), .read 0 0 10]) := by
  refine ((unmounted_fails_closed seventhLost afterFailure).2 ?_ _ ?_).1
  · decide +kernel
  · exact ⟨rfl, rfl, rfl, trivial⟩

end MiniOS.DiskFs
