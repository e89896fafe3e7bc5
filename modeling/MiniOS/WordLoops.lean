import MiniOS.ByteMemory

/-!
# The word loops of `memset` and `memcpy`

Both functions store bytes until the destination is aligned, then 32-bit words as long as there
are four bytes left, and then the last bytes.  `store` is what this amounts to.  The value they
return is the destination.
-/

namespace MiniOS.WordLoops

open ByteMemory LittleEndian

/-- What is stored at an index with one access of `width` bytes. -/
structure Source where
  unit : (width : Nat) → Region → Nat → List UInt8
  reads : (width : Nat) → Nat → List (Nat × Nat)
  aligned : Nat → Bool

def filled (val : Int) : Source where
  unit width _ _ :=
    if width = 4 then leBytes 4 ((UInt8.ofInt val).toNat * 0x01010101) else [UInt8.ofInt val]
  reads _ _ := []
  aligned _ := true

def copied (src : Nat) : Source where
  unit width mem index := load mem (src + index) width
  reads width index := [(src + index, width)]
  aligned index := (src + index) % 4 == 0

/-- The pointers have moved by `done`.  The accesses are recorded with their widths. -/
structure Progress where
  mem : Region
  done : Nat
  accesses : List (Nat × Nat)

variable (dest : Nat) (source : Source)

def put (width : Nat) (p : Progress) : Progress where
  mem := store p.mem (dest + p.done) (source.unit width p.mem p.done)
  done := p.done + width
  accesses := p.accesses ++ source.reads width p.done ++ [(dest + p.done, width)]

/-- The first loop: what is left of the length, and the progress. -/
def headLoop : (len : Nat) → Progress → Nat × Progress
  | 0, p => (0, p)
  | len + 1, p => if (dest + p.done) % 4 ≠ 0 then headLoop len (put dest source 1 p) else (len + 1, p)

def storeAll (mem : Region) (len : Nat) : Progress :=
  let (len, p) := headLoop dest source len ⟨mem, 0, []⟩
  let words := if 4 ≤ len ∧ source.aligned p.done then len / 4 else 0
  (put dest source 1)^[len - words * 4] ((put dest source 4)^[words] p)

def memset (mem : Region) (dest : Nat) (val : Int) (len : Nat) : Progress :=
  storeAll dest (filled val) mem len

def memcpy (mem : Region) (dest src len : Nat) : Progress := storeAll dest (copied src) mem len

/-- The source delivers `bytes` while they are being stored. -/
structure Yields (m : Region) (dest : Nat) (bytes : List UInt8) (source : Source) : Prop where
  unit : ∀ width done, width = 1 ∨ width = 4 → done + width ≤ bytes.length →
    source.unit width (store m dest (bytes.take done)) done = (bytes.drop done).take width
  reads : ∀ width done, width = 1 ∨ width = 4 ∧ source.aligned done →
    ∀ access ∈ source.reads width done, access.1 % access.2 = 0
  next : ∀ done, source.aligned done → source.aligned (done + 4)

structure Stored (m : Region) (dest : Nat) (bytes : List UInt8) (p : Progress) : Prop where
  within : p.done ≤ bytes.length
  mem : p.mem = store m dest (bytes.take p.done)
  accesses : ∀ access ∈ p.accesses, access.1 % access.2 = 0

variable {dest source} {m : Region} {bytes : List UInt8} {p : Progress}
  {width : Nat} (yields : Yields m dest bytes source) (stored : Stored m dest bytes p)

include stored

theorem Stored.complete (done : bytes.length ≤ p.done) :
    p.mem = store m dest bytes ∧ ∀ access ∈ p.accesses, access.1 % access.2 = 0 := by
  refine ⟨?_, stored.accesses⟩
  rw [stored.mem, List.take_of_length_le done]

include yields

theorem Yields.put (fits : p.done + width ≤ bytes.length)
    (aligned : width = 1 ∨ width = 4 ∧ source.aligned p.done ∧ (dest + p.done) % 4 = 0) :
    Stored m dest bytes (put dest source width p) := by
  refine ⟨fits, ?_, ?_⟩
  · have length : (bytes.take p.done).length = p.done := List.length_take_of_le stored.within
    have unit := yields.unit width p.done (aligned.imp_right And.left) fits
    rw [← stored.mem] at unit
    rw [WordLoops.put, unit, stored.mem, List.take_add, ← store_append, length]
  · simp only [WordLoops.put, List.forall_mem_append, List.forall_mem_singleton]
    refine ⟨⟨stored.accesses, yields.reads width p.done ?_⟩, ?_⟩
    · exact aligned.imp_right fun word => ⟨word.1, word.2.1⟩
    · rcases aligned with rfl | ⟨rfl, -, destAligned⟩
      · exact Nat.mod_one _
      · exact destAligned

theorem Yields.puts (count : Nat) (fits : p.done + count * width ≤ bytes.length)
    (aligned : width = 1 ∨ width = 4 ∧ source.aligned p.done ∧ (dest + p.done) % 4 = 0) :
    Stored m dest bytes ((WordLoops.put dest source width)^[count] p) ∧
      ((WordLoops.put dest source width)^[count] p).done = p.done + count * width := by
  induction count generalizing p with
  | zero => exact ⟨stored, by simp⟩
  | succ count ih =>
    rw [Nat.succ_mul] at fits
    have next := yields.put stored (by omega) aligned
    rw [Function.iterate_succ_apply, Nat.succ_mul, Nat.add_comm _ width, ← Nat.add_assoc]
    refine ih next (by simp only [WordLoops.put]; omega) (aligned.imp_right fun word => ?_)
    obtain ⟨rfl, sourceAligned, destAligned⟩ := word
    refine ⟨rfl, yields.next _ sourceAligned, ?_⟩
    simp only [WordLoops.put]
    omega

theorem Yields.headLoop (len : Nat) (rest : p.done + len = bytes.length) :
    let reached := headLoop dest source len p
    Stored m dest bytes reached.2 ∧ reached.2.done + reached.1 = bytes.length ∧
      (4 ≤ reached.1 → (dest + reached.2.done) % 4 = 0) := by
  induction len generalizing p with
  | zero => exact ⟨stored, rest, nofun⟩
  | succ len ih =>
    rw [WordLoops.headLoop]
    split
    · exact ih (yields.put stored (by omega) (.inl rfl)) (by simp only [WordLoops.put]; omega)
    · next aligned => exact ⟨stored, rest, fun _ => not_not.mp aligned⟩

omit stored

theorem Yields.storeAll :
    (storeAll dest source m bytes.length).mem = store m dest bytes ∧
      ∀ access ∈ (storeAll dest source m bytes.length).accesses, access.1 % access.2 = 0 := by
  have start : Stored m dest bytes ⟨m, 0, []⟩ :=
    ⟨Nat.zero_le _, funext fun address => (store_outside (by simp; omega)).symm, nofun⟩
  have head := yields.headLoop start bytes.length (Nat.zero_add _)
  rw [WordLoops.storeAll]
  dsimp only at head ⊢
  generalize WordLoops.headLoop dest source bytes.length ⟨m, 0, []⟩ = reached at head ⊢
  obtain ⟨len, p⟩ := reached
  obtain ⟨stored, total, destAligned⟩ := head
  dsimp only at stored total destAligned ⊢
  split
  · next words =>
    obtain ⟨stored, done⟩ := yields.puts stored (len / 4) (by omega)
      (.inr ⟨rfl, words.2, destAligned words.1⟩)
    obtain ⟨stored, done⟩ := yields.puts stored (len - len / 4 * 4) (by omega) (.inl rfl)
    exact stored.complete (by omega)
  · obtain ⟨stored, done⟩ := yields.puts stored (len - 0 * 4) (by omega) (.inl rfl)
    exact stored.complete (by omega)

omit yields

theorem leBytes_repeated (byte : UInt8) :
    leBytes 4 (byte.toNat * 0x01010101) = List.replicate 4 byte := by
  have every : ∀ value < 256,
      leBytes 4 (value * 0x01010101) = List.replicate 4 (UInt8.ofNat value) := by
    decide +kernel
  simpa using every byte.toNat byte.toNat_lt

theorem filled_yields (val : Int) (len : Nat) :
    Yields m dest (List.replicate len (UInt8.ofInt val)) (filled val) := by
  refine ⟨fun width done isUnit inside => ?_, nofun, fun _ => id⟩
  rw [List.length_replicate] at inside
  have delivered : ((List.replicate len (UInt8.ofInt val)).drop done).take width =
      List.replicate width (UInt8.ofInt val) := by
    rw [List.drop_replicate, List.take_replicate, Nat.min_eq_left (by omega)]
  rw [delivered]
  rcases isUnit with rfl | rfl
  · rfl
  · exact leBytes_repeated _

theorem copied_yields {src len : Nat} (disjoint : src + len ≤ dest ∨ dest + len ≤ src) :
    Yields m dest (load m src len) (copied src) := by
  refine ⟨fun width done _ inside => ?_, fun width done isUnit access reading => ?_, fun done => ?_⟩
  · rw [load_length] at inside
    rw [load_drop_take, Nat.min_eq_left (by omega)]
    refine load_congr fun place before => store_outside ?_
    simp
    omega
  · obtain rfl := List.mem_singleton.mp reading
    rcases isUnit with rfl | ⟨rfl, aligned⟩
    · exact Nat.mod_one _
    · exact beq_iff_eq.mp aligned
  · simp only [copied, beq_iff_eq]
    omega

/-- Both functions equal their byte-wise definitions, and every access is aligned. -/
theorem memset_memcpy_bytewise (m : Region) (dest len : Nat) :
    (∀ val, (memset m dest val len).mem = store m dest (List.replicate len (UInt8.ofInt val)) ∧
      ∀ access ∈ (memset m dest val len).accesses, access.1 % access.2 = 0) ∧
    ∀ src, src + len ≤ dest ∨ dest + len ≤ src →
      (memcpy m dest src len).mem = store m dest (load m src len) ∧
        ∀ access ∈ (memcpy m dest src len).accesses, access.1 % access.2 = 0 := by
  constructor
  · intro val
    have result := (filled_yields val len : Yields m dest _ _).storeAll
    rwa [List.length_replicate] at result
  · intro src disjoint
    have result := (copied_yields disjoint : Yields m dest _ _).storeAll
    rwa [load_length] at result

/-- The destination is not aligned, and the source is aligned with it. -/
theorem memset_memcpy_bytewise_apart :
    (memcpy (fun address => UInt8.ofNat address) 0x103 0x207 11).mem =
      store (fun address => UInt8.ofNat address) 0x103
        (load (fun address => UInt8.ofNat address) 0x207 11) :=
  ((memset_memcpy_bytewise _ 0x103 11).2 0x207 (.inr (by decide))).1

end MiniOS.WordLoops
