import MiniOS.ProcessTable

/-!
# Numbers of processes

What `process_find` and `process_allocate` return on a table in which no two slots in
use have the same number.  The counter starts again at one behind the largest number, and
a slot that is not in use leaves a number for it among the next sixteen.
-/

namespace MiniOS.Kernel

variable {table : ProcessTable} {slot other : ProcessSlot} {pid nextPid parent : Int}

def InUse (table : ProcessTable) (slot : ProcessSlot) : Prop := (table slot).state ≠ .unused

instance (table : ProcessTable) (slot : ProcessSlot) : Decidable (InUse table slot) :=
  inferInstanceAs (Decidable (_ ≠ _))

theorem inUse_of_running (running : (table slot).state = .running) : InUse table slot := by
  rw [InUse, running]
  decide

theorem inUse_of_zombie (zombie : (table slot).state = .zombie) : InUse table slot := by
  rw [InUse, zombie]
  decide

theorem processFind_eq_some (found : processFind table pid = some slot) :
    InUse table slot ∧ (table slot).pid = pid := by
  have matched := List.find?_some found
  rw [Bool.and_eq_true, decide_eq_true_eq, decide_eq_true_eq] at matched
  exact matched

theorem processFind_eq_none (missing : processFind table pid = none) :
    ∀ slot, InUse table slot → (table slot).pid ≠ pid := by
  intro slot used isPid
  refine List.find?_eq_none.mp missing slot (List.mem_finRange slot) ?_
  rw [Bool.and_eq_true, decide_eq_true_eq, decide_eq_true_eq]
  exact ⟨used, isPid⟩

def NumbersDistinct (table : ProcessTable) : Prop :=
  ∀ slot other, InUse table slot → InUse table other →
    (table slot).pid = (table other).pid → slot = other

/-- Values that are distinct stay so when one more slot is used, with a new value. -/
theorem distinct_insert {α : Type} {used used' : ProcessSlot → Prop} {value value' : ProcessSlot → α}
    (was : ∀ other, used' other → other ≠ slot → used other ∧ value' other = value other)
    (fresh : ∀ other, used other → value other ≠ value' slot)
    (distinct : ∀ first second, used first → used second → value first = value second →
      first = second)
    (first second : ProcessSlot) (firstUsed : used' first) (secondUsed : used' second)
    (same : value' first = value' second) : first = second := by
  by_cases isFirst : first = slot
  · by_contra isSecond
    obtain ⟨wasUsed, isValue⟩ := was second secondUsed (isFirst ▸ Ne.symm isSecond)
    rw [isFirst, isValue] at same
    exact fresh second wasUsed same.symm
  · obtain ⟨wasUsed, isValue⟩ := was first firstUsed isFirst
    by_cases isSecond : second = slot
    · rw [isSecond, isValue] at same
      exact absurd same (fresh first wasUsed)
    · obtain ⟨otherUsed, otherValue⟩ := was second secondUsed isSecond
      rw [isValue, otherValue] at same
      exact distinct first second wasUsed otherUsed same

theorem NumbersDistinct.processFind (distinct : NumbersDistinct table) (used : InUse table slot) :
    processFind table (table slot).pid = some slot := by
  cases found : Kernel.processFind table (table slot).pid with
  | none => exact absurd rfl (processFind_eq_none found slot used)
  | some other =>
    obtain ⟨otherUsed, samePid⟩ := processFind_eq_some found
    rw [distinct other slot otherUsed used samePid]

theorem allocatePid_fresh {attempts : Nat} {candidate : Int}
    (allocated : allocatePid table attempts candidate = (some pid, nextPid)) :
    Kernel.processFind table pid = none := by
  induction attempts generalizing candidate with
  | zero => cases allocated
  | succ attempts ih =>
    rw [allocatePid] at allocated
    split at allocated
    case isTrue free =>
      cases allocated
      exact Option.isNone_iff_eq_none.mp free
    case isFalse => exact ih allocated

def InRange (pid : Int) : Prop := 1 ≤ pid ∧ pid ≤ int32Max

theorem allocatePid_range {attempts : Nat} {candidate : Int} (range : InRange candidate) :
    InRange (allocatePid table attempts candidate).2 ∧
      ∀ pid ∈ (allocatePid table attempts candidate).1, InRange pid := by
  induction attempts generalizing candidate with
  | zero => exact ⟨range, fun _ isSome => nomatch isSome⟩
  | succ attempts ih =>
    have next : InRange (if candidate = int32Max then 1 else candidate + 1) := by
      unfold InRange int32Max at *
      split <;> omega
    rw [allocatePid]
    split
    · refine ⟨next, ?_⟩
      rintro pid ⟨⟩
      exact range
    · exact ih next

/-- Without success all candidates are taken: the counter counts modulo the largest
number. -/
theorem allocatePid_none {attempts : Nat} {candidate : Int} (range : InRange candidate)
    (failed : (allocatePid table attempts candidate).1 = none) (k : Nat) (less : k < attempts) :
    ∃ slot, InUse table slot ∧ (table slot).pid = (candidate - 1 + k) % int32Max + 1 := by
  unfold InRange int32Max at *
  induction attempts generalizing candidate k with
  | zero => omega
  | succ attempts ih =>
    rw [allocatePid] at failed
    split at failed
    · exact nomatch failed
    · next taken =>
      cases k with
      | zero =>
        rw [Option.isNone_iff_eq_none] at taken
        obtain ⟨slot, found⟩ := Option.ne_none_iff_exists'.mp taken
        obtain ⟨used, isPid⟩ := processFind_eq_some found
        exact ⟨slot, used, by omega⟩
      | succ k =>
        unfold int32Max at failed
        obtain ⟨slot, used, isPid⟩ := ih (by split <;> omega) failed k (by omega)
        refine ⟨slot, used, isPid.trans ?_⟩
        split <;> omega

/-- A slot that is not in use leaves one of sixteen candidates. -/
theorem allocatePid_isSome {candidate : Int} (range : InRange candidate)
    (unused : ¬ InUse table slot) : (allocatePid table 16 candidate).1 ≠ none := by
  intro failed
  choose owner used isPid using fun k : Fin 16 => allocatePid_none range failed k k.isLt
  have injective : Function.Injective owner := by
    intro k other same
    have pids := (isPid k).symm.trans (same ▸ isPid other)
    unfold int32Max at pids
    omega
  obtain ⟨k, isSlot⟩ := Finite.injective_iff_surjective.mp injective slot
  exact unused (isSlot ▸ used k)

structure Allocated (table after : ProcessTable) (parent : Int) (slot : ProcessSlot) (pid : Int) :
    Prop where
  unused : (table slot).state = .unused
  positive : 1 ≤ pid
  fresh : ∀ other, InUse table other → (table other).pid ≠ pid
  after_eq : after = Function.update table slot
    { Process.zero with pid := pid, parentPid := parent, state := .running }

theorem processAllocate_cases (table : ProcessTable) (nextPid parent : Int) :
    (∃ next, processAllocate table nextPid parent = (none, table, next) ∧
        (InRange nextPid → InRange next ∧ ∀ slot, InUse table slot)) ∨
      ∃ slot after next pid, processAllocate table nextPid parent = (some slot, after, next) ∧
        Allocated table after parent slot pid ∧ (InRange nextPid → InRange pid ∧ InRange next) := by
  have ranges := @allocatePid_range table 16 nextPid
  rw [processAllocate]
  split
  case h_1 full =>
    refine .inl ⟨nextPid, rfl, fun range => ⟨range, fun slot => ?_⟩⟩
    simpa [InUse] using List.find?_eq_none.mp full slot (List.mem_finRange slot)
  case h_2 slot free =>
    split
    case h_1 next failed =>
      rw [failed] at ranges
      refine .inl ⟨next, rfl, fun range => ⟨(ranges range).1, fun slot => ?_⟩⟩
      by_contra unused
      exact allocatePid_isSome range unused (by rw [failed])
    case h_2 pid next allocated =>
      rw [allocated] at ranges
      split
      case isTrue negative =>
        exact .inl ⟨next, rfl, fun range => absurd negative (Int.not_lt.mpr ((ranges range).2 pid rfl).1)⟩
      case isFalse positive =>
        have isFree := List.find?_some free
        exact .inr ⟨slot, _, next, pid, rfl, ⟨of_decide_eq_true isFree,
          Int.not_lt.mp positive, processFind_eq_none (allocatePid_fresh allocated), rfl⟩,
          fun range => ⟨(ranges range).2 pid rfl, (ranges range).1⟩⟩

/-- The table and `next_pid` change: a process is created, or something happens that puts no
slot in use and changes no number. -/
def TableStep (s s' : ProcessTable × Int) : Prop :=
  (∃ parent, s' = (processAllocate s.1 s.2 parent).2) ∨
    s'.2 = s.2 ∧ ∀ slot, InUse s'.1 slot → InUse s.1 slot ∧ (s'.1 slot).pid = (s.1 slot).pid

structure Numbered (s : ProcessTable × Int) : Prop where
  counter : InRange s.2
  inRange : ∀ slot, InUse s.1 slot → InRange (s.1 slot).pid
  distinct : NumbersDistinct s.1

variable {s s' : ProcessTable × Int}

theorem Numbered.create (numbered : Numbered s) (parent : Int) :
    Numbered (processAllocate s.1 s.2 parent).2 := by
  rcases processAllocate_cases s.1 s.2 parent with
    ⟨next, failed, ranges⟩ | ⟨slot, after, next, pid, allocated, claimed, ranges⟩
  · rw [failed]
    exact ⟨(ranges numbered.counter).1, numbered.inRange, numbered.distinct⟩
  · rw [allocated]
    obtain ⟨inRange, counter⟩ := ranges numbered.counter
    have isPid : (after slot).pid = pid := by rw [claimed.after_eq, Function.update_self]
    have was : ∀ other, InUse after other → other ≠ slot →
        InUse s.1 other ∧ (after other).pid = (s.1 other).pid := by
      intro other isUsed different
      rw [InUse, claimed.after_eq, Function.update_of_ne different] at isUsed
      rw [claimed.after_eq, Function.update_of_ne different]
      exact ⟨isUsed, rfl⟩
    refine ⟨counter, fun other isUsed => ?_,
      distinct_insert was (isPid ▸ claimed.fresh) numbered.distinct⟩
    by_cases same : other = slot
    · rw [same, isPid]
      exact inRange
    · obtain ⟨wasUsed, samePid⟩ := was other isUsed same
      rw [samePid]
      exact numbered.inRange other wasUsed

theorem Numbered.step (numbered : Numbered s) (step : TableStep s s') : Numbered s' := by
  rcases step with ⟨parent, rfl⟩ | ⟨sameCounter, same⟩
  · exact numbered.create parent
  · refine ⟨sameCounter ▸ numbered.counter, fun slot used => ?_,
      fun slot other used otherUsed pids => ?_⟩
    · rw [(same slot used).2]
      exact numbered.inRange slot (same slot used).1
    · rw [(same slot used).2, (same other otherUsed).2] at pids
      exact numbered.distinct slot other (same slot used).1 (same other otherUsed).1 pids

/-- A slot that is not in use is enough for a creation to succeed with a new number, wherever
the counter is, and the numbers stay in range and apart over every run. -/
theorem processAllocate_numbers (numbered : Numbered s) (parent : Int) :
    ((∃ slot, ¬ InUse s.1 slot) → ∃ slot after next pid,
        processAllocate s.1 s.2 parent = (some slot, after, next) ∧
        Allocated s.1 after parent slot pid ∧ InRange pid ∧ InRange next) ∧
      ∀ s', Relation.ReflTransGen TableStep s s' → Numbered s' := by
  refine ⟨fun ⟨free, unused⟩ => ?_, fun s' run => ?_⟩
  · rcases processAllocate_cases s.1 s.2 parent with
      ⟨next, failed, full⟩ | ⟨slot, after, next, pid, allocated, claimed, ranges⟩
    · exact absurd ((full numbered.counter).2 free) unused
    · exact ⟨slot, after, next, pid, allocated, claimed, ranges numbered.counter⟩
  · induction run with
    | refl => exact numbered
    | tail _ step ih => exact ih.step step

/-- Behind the largest number, which is taken, the counter goes on with the smallest one. -/
theorem processAllocate_numbers_wrapping :
    let table : ProcessTable := fun slot =>
      if slot = 0 then { Process.zero with pid := int32Max, state := .running } else .zero
    (processAllocate table int32Max 0).2.2 = 2 ∧ ∃ slot after next pid,
      processAllocate table int32Max 0 = (some slot, after, next) ∧
        Allocated table after 0 slot pid ∧ InRange pid ∧ InRange next := by
  intro table
  have used : ∀ slot, InUse table slot → slot = 0 := by decide
  have numbered : Numbered (table, int32Max) :=
    { counter := ⟨by decide, le_refl _⟩
      inRange := fun slot isUsed => used slot isUsed ▸ ⟨by decide, le_refl _⟩
      distinct := fun slot other isUsed otherUsed _ =>
        (used slot isUsed).trans (used other otherUsed).symm }
  exact ⟨by decide, (processAllocate_numbers numbered 0).1 ⟨1, by decide⟩⟩

end MiniOS.Kernel
