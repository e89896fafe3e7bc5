import MiniOS.ProcessTable

/-!
# Statements of the process table

`process_allocate` with `process_allocate_pid` and `process_find`, taken apart into
their statements.  Besides the variables of `process.c` the state lists the slots
that are in the hands of a process, each with the number it was given.
-/

namespace MiniOS.Preemption

open Function Kernel

/-- `processes` and `next_pid`, with the slots and numbers that were handed out and
not released since. -/
structure Table where
  processes : ProcessTable
  nextPid : Int
  handed : List (ProcessSlot × Int)

/-- The statements of `process_allocate`, `process_allocate_pid` and `process_find`, of
`process_release`, and the one in which an exiting process becomes a zombie. -/
inductive ProcessPc
  | scan (parent : Int) (i : Nat)
  | candidate (parent : Int) (slot : ProcessSlot) (attempts : Nat)
  | advance (parent : Int) (slot : ProcessSlot) (attempts : Nat) (pid : Int)
  | find (parent : Int) (slot : ProcessSlot) (attempts : Nat) (pid : Int) (i : Nat)
  | clear (parent : Int) (slot : ProcessSlot) (pid : Int)
  | setPid (parent : Int) (slot : ProcessSlot) (pid : Int)
  | setParent (parent : Int) (slot : ProcessSlot) (pid : Int)
  | setState (slot : ProcessSlot) (pid : Int)
  | release (slot : ProcessSlot)
  | zombie (slot : ProcessSlot)
  | done (result : Option (ProcessSlot × Int))
deriving DecidableEq

namespace Table

def setProcess (t : Table) (slot : ProcessSlot) (change : Process → Process) : Table :=
  { t with processes := update t.processes slot (change (t.processes slot)) }

theorem processes_setProcess (t : Table) (slot other : ProcessSlot) (change : Process → Process) :
    (t.setProcess slot change).processes other =
      if other = slot then change (t.processes slot) else t.processes other :=
  update_apply ..

/-- `process_release`: the slot is in nobody's hands any more. -/
def release (t : Table) (slot : ProcessSlot) : Table where
  processes := processRelease t.processes slot
  nextPid := t.nextPid
  handed := t.handed.filter fun entry => entry.1 ≠ slot

def Used (t : Table) (slot : ProcessSlot) : Prop := (t.processes slot).state ≠ .unused

instance (t : Table) (slot : ProcessSlot) : Decidable (t.Used slot) :=
  inferInstanceAs (Decidable (_ ≠ _))

end Table

def processStatement (t : Table) : ProcessPc → ProcessPc × Table
  | .scan parent i =>
    if inTable : i < 16 then
      if t.Used ⟨i, inTable⟩ then (.scan parent (i + 1), t)
      else (.candidate parent ⟨i, inTable⟩ 0, t)
    else (.done none, t)
  | .candidate parent slot attempts =>
    if attempts < 16 then (.advance parent slot attempts t.nextPid, t)
    -- the number -1, which `process_allocate` refuses
    else (.done none, t)
  | .advance parent slot attempts pid =>
    (.find parent slot attempts pid 0,
      { t with nextPid := if t.nextPid = int32Max then 1 else t.nextPid + 1 })
  | .find parent slot attempts pid i =>
    if inTable : i < 16 then
      if t.Used ⟨i, inTable⟩ ∧ (t.processes ⟨i, inTable⟩).pid = pid then
        (.candidate parent slot (attempts + 1), t)
      else (.find parent slot attempts pid (i + 1), t)
    else if pid < 1 then (.done none, t)
    else (.clear parent slot pid, t)
  | .clear parent slot pid => (.setPid parent slot pid, t.setProcess slot fun _ => .zero)
  | .setPid parent slot pid =>
    (.setParent parent slot pid, t.setProcess slot fun proc => { proc with pid := pid })
  | .setParent parent slot pid =>
    (.setState slot pid, t.setProcess slot fun proc => { proc with parentPid := parent })
  | .setState slot pid =>
    (.done (some (slot, pid)), t.setProcess slot fun proc => { proc with state := .running })
  | .release slot => (.done none, t.release slot)
  | .zombie slot => (.done none, t.setProcess slot fun proc => { proc with state := .zombie })
  | .done result => (.done result, t)

variable {t : Table}

namespace Table

/-- Every slot that was handed out is in use under its number, and no two slots in
use have the same number. -/
structure Ok (t : Table) : Prop where
  kept : ∀ entry ∈ t.handed, t.Used entry.1 ∧ (t.processes entry.1).pid = entry.2
  once : (t.handed.map Prod.fst).Nodup
  distinct : ∀ slot other, t.Used slot → t.Used other →
    (t.processes slot).pid = (t.processes other).pid → slot = other

def Fresh (t : Table) (pid : Int) : Prop := ∀ slot, t.Used slot → (t.processes slot).pid ≠ pid

/-- A slot that is not in use was not handed out. -/
theorem Ok.not_handed (ok : t.Ok) {slot : ProcessSlot} (unused : ¬ t.Used slot) :
    slot ∉ t.handed.map Prod.fst := by
  intro member
  obtain ⟨entry, isHanded, rfl⟩ := List.mem_map.mp member
  exact unused (ok.kept entry isHanded).1

variable {t : Table} {slot : ProcessSlot} {change : Process → Process}

theorem used_setProcess_of_ne {other : ProcessSlot} (different : other ≠ slot) :
    (t.setProcess slot change).Used other ↔ t.Used other := by
  rw [Used, processes_setProcess, if_neg different, Used]

theorem used_setProcess_self :
    (t.setProcess slot change).Used slot ↔ (change (t.processes slot)).state ≠ .unused := by
  rw [Used, processes_setProcess, if_pos rfl]

/-- One slot is written and nothing is handed out.  If the slot is in use afterwards, then under a
number that no other slot has. -/
theorem Ok.write {after : Table} (ok : t.Ok) (handed : after.handed.Sublist t.handed)
    (others : ∀ other, other ≠ slot → after.processes other = t.processes other)
    (kept : ∀ entry ∈ after.handed, entry.1 = slot →
      after.Used slot ∧ (after.processes slot).pid = entry.2)
    (alone : after.Used slot → ∀ other, other ≠ slot → t.Used other →
      (t.processes other).pid ≠ (after.processes slot).pid) : after.Ok := by
  refine ⟨fun entry isHanded => ?_, ok.once.sublist (handed.map _), ?_⟩
  · by_cases isSlot : entry.1 = slot
    · rw [isSlot]
      exact kept entry isHanded isSlot
    · rw [Used, others entry.1 isSlot]
      exact ok.kept entry (handed.subset isHanded)
  · intro first second firstUsed secondUsed same
    by_cases firstSlot : first = slot <;> by_cases secondSlot : second = slot
    · rw [firstSlot, secondSlot]
    · subst firstSlot
      rw [Used, others second secondSlot] at secondUsed
      exact absurd (by rw [same, others second secondSlot])
        (alone firstUsed second secondSlot secondUsed)
    · subst secondSlot
      rw [Used, others first firstSlot] at firstUsed
      exact absurd (by rw [← same, others first firstSlot])
        (alone secondUsed first firstSlot firstUsed)
    · rw [Used, others first firstSlot] at firstUsed
      rw [Used, others second secondSlot] at secondUsed
      rw [others first firstSlot, others second secondSlot] at same
      exact ok.distinct first second firstUsed secondUsed same

theorem Ok.setProcess (ok : t.Ok)
    (kept : ∀ entry ∈ t.handed, entry.1 = slot → (change (t.processes slot)).state ≠ .unused ∧
      (change (t.processes slot)).pid = entry.2)
    (alone : (change (t.processes slot)).state ≠ .unused → ∀ other, other ≠ slot → t.Used other →
      (t.processes other).pid ≠ (change (t.processes slot)).pid) : (t.setProcess slot change).Ok := by
  have self : (t.setProcess slot change).processes slot = change (t.processes slot) := update_self ..
  refine ok.write (List.Sublist.refl _) (fun other different => update_of_ne different _ _) ?_ ?_
  · rwa [Used, self]
  · rwa [Used, self]

/-- A slot that stays unused can be written. -/
theorem Ok.write_unused (ok : t.Ok) (unused : ¬ t.Used slot)
    (stays : (change (t.processes slot)).state = .unused) : (t.setProcess slot change).Ok :=
  ok.setProcess (fun entry isHanded same => absurd (same ▸ (ok.kept entry isHanded).1) unused)
    fun used => absurd stays used

variable {pid : Int}

theorem Fresh.write_unused (fresh : t.Fresh pid)
    (stays : (change (t.processes slot)).state = .unused) :
    (t.setProcess slot change).Fresh pid := by
  intro other used
  have different : other ≠ slot := by
    rintro rfl
    exact used_setProcess_self.mp used stays
  rw [processes_setProcess, if_neg different]
  exact fresh other ((used_setProcess_of_ne different).mp used)

/-- A change of a slot in use that keeps its number. -/
theorem Ok.write_used (ok : t.Ok) (used : t.Used slot)
    (samePid : (change (t.processes slot)).pid = (t.processes slot).pid)
    (stays : (change (t.processes slot)).state ≠ .unused) : (t.setProcess slot change).Ok := by
  refine ok.setProcess (fun entry isHanded same => ⟨stays, ?_⟩) fun _ other different otherUsed => ?_
  · rw [samePid, ← same]
    exact (ok.kept entry isHanded).2
  · rw [samePid]
    exact fun same => different (ok.distinct other slot otherUsed used same)

/-- A prepared slot goes into use under a number that no other slot has. -/
theorem Ok.run (ok : t.Ok) (unused : ¬ t.Used slot) (fresh : t.Fresh pid)
    (number : (t.processes slot).pid = pid) :
    (t.setProcess slot fun proc => { proc with state := .running }).Ok := by
  refine ok.setProcess (fun entry isHanded same => ?_) fun _ other _ otherUsed => ?_
  · exact absurd (same ▸ (ok.kept entry isHanded).1) unused
  · rw [number]
    exact fresh other otherUsed

theorem Ok.release (ok : t.Ok) (slot : ProcessSlot) : (t.release slot).Ok := by
  refine ok.write List.filter_sublist (fun other different => update_of_ne different _ _)
    (fun entry isHanded same => ?_) fun used => ?_
  · rw [Table.release, List.mem_filter, decide_eq_true_eq] at isHanded
    exact absurd same isHanded.2
  · rw [Used, show (t.release slot).processes slot = .zero from update_self ..] at used
    exact absurd rfl used

/-- The numbers of the slots that were handed out differ as well. -/
theorem Ok.pids_nodup (ok : t.Ok) : (t.handed.map Prod.snd).Nodup := by
  refine List.Nodup.map_on ?_ ok.once.of_map
  intro first firstHanded second secondHanded same
  obtain ⟨firstUsed, firstNumber⟩ := ok.kept first firstHanded
  obtain ⟨secondUsed, secondNumber⟩ := ok.kept second secondHanded
  refine Prod.ext (ok.distinct _ _ firstUsed secondUsed ?_) same
  rw [firstNumber, secondNumber, same]

end Table

/-- What holds at each statement while nobody else uses the table. -/
def ProcessPc.Holds (t : Table) : ProcessPc → Prop
  | .scan _ _ | .release _ | .done none => True
  | .candidate _ slot _ | .advance _ slot _ _ => ¬ t.Used slot
  | .find _ slot _ pid i => ¬ t.Used slot ∧
      ∀ other : ProcessSlot, other.val < i → t.Used other → (t.processes other).pid ≠ pid
  | .clear _ slot pid | .setPid _ slot pid => ¬ t.Used slot ∧ t.Fresh pid
  | .setParent _ slot pid | .setState slot pid =>
    ¬ t.Used slot ∧ t.Fresh pid ∧ (t.processes slot).pid = pid
  | .zombie slot => t.Used slot
  | .done (some entry) => t.Used entry.1 ∧ (t.processes entry.1).pid = entry.2 ∧
      entry.1 ∉ t.handed.map Prod.fst

theorem processStatement_holds (ok : t.Ok) {pc : ProcessPc} (holds : pc.Holds t) :
    (processStatement t pc).2.Ok ∧ (processStatement t pc).1.Holds (processStatement t pc).2 := by
  cases pc with
  | scan parent i =>
    rw [processStatement]
    split
    · split
      · exact ⟨ok, trivial⟩
      · case isFalse unused => exact ⟨ok, unused⟩
    · exact ⟨ok, trivial⟩
  | candidate parent slot attempts =>
    rw [processStatement]
    split
    · exact ⟨ok, holds⟩
    · exact ⟨ok, trivial⟩
  | advance parent slot attempts pid =>
    exact ⟨{ ok with }, holds, fun _ impossible => absurd impossible (by omega)⟩
  | find parent slot attempts pid i =>
    obtain ⟨unused, others⟩ := holds
    rw [processStatement]
    split
    · split
      · exact ⟨ok, unused⟩
      · case isFalse inTable different =>
        refine ⟨ok, unused, fun other below used => ?_⟩
        by_cases last : other.val = i
        · subst last
          exact fun same => different ⟨used, same⟩
        · exact others other (by omega) used
    · case isFalse whole =>
      split
      · exact ⟨ok, trivial⟩
      · exact ⟨ok, unused, fun other => others other (by omega)⟩
  | clear parent slot pid =>
    obtain ⟨unused, fresh⟩ := holds
    rw [processStatement]
    dsimp only
    refine ⟨ok.write_unused unused rfl, ?_, fresh.write_unused rfl⟩
    rw [Table.used_setProcess_self]
    exact not_not.mpr rfl
  | setPid parent slot pid =>
    obtain ⟨unused, fresh⟩ := holds
    have stays := not_not.mp unused
    rw [processStatement]
    dsimp only
    refine ⟨ok.write_unused unused stays, ?_, fresh.write_unused stays, ?_⟩
    · rw [Table.used_setProcess_self]
      exact not_not.mpr stays
    · rw [Table.processes_setProcess, if_pos rfl]
  | setParent parent slot pid =>
    obtain ⟨unused, fresh, number⟩ := holds
    have stays := not_not.mp unused
    rw [processStatement]
    dsimp only
    refine ⟨ok.write_unused unused stays, ?_, fresh.write_unused stays, ?_⟩
    · rw [Table.used_setProcess_self]
      exact not_not.mpr stays
    · rw [Table.processes_setProcess, if_pos rfl]
      exact number
  | setState slot pid =>
    obtain ⟨unused, fresh, number⟩ := holds
    rw [processStatement]
    dsimp only
    refine ⟨ok.run unused fresh number, ?_, ?_, ok.not_handed unused⟩
    · rw [Table.used_setProcess_self]
      exact ProcessState.noConfusion
    · rw [Table.processes_setProcess, if_pos rfl]
      exact number
  | release slot => exact ⟨ok.release slot, trivial⟩
  | zombie slot =>
    rw [processStatement]
    dsimp only
    exact ⟨ok.write_used holds rfl ProcessState.noConfusion, trivial⟩
  | done result => exact ⟨ok, holds⟩

/-- A slot that was allocated is handed out. -/
theorem Table.Ok.handOut (ok : t.Ok) {entry : ProcessSlot × Int}
    (holds : (ProcessPc.done (some entry)).Holds t) :
    ({ t with handed := entry :: t.handed } : Table).Ok := by
  obtain ⟨used, number, unhanded⟩ := holds
  constructor
  · intro other member
    rcases List.mem_cons.mp member with rfl | old
    · exact ⟨used, number⟩
    · exact ok.kept other old
  · exact List.nodup_cons.mpr ⟨unhanded, ok.once⟩
  · exact ok.distinct

end MiniOS.Preemption
