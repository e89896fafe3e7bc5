import Mathlib

/-!
# The ring buffer of a pipe

`pipe_t` with the two loops of `pipe.c` that move bytes, and the queue that the
ring stands for: taking removes bytes at its front, putting adds them at its end.
-/

namespace MiniOS.Kernel

open Function

abbrev PipeId := Nat

def pipeBufSize : Nat := 4096

/-- `pipe_t`.  `object` is the heap address of the structure. -/
structure Pipe where
  object : Nat
  buf : Nat → UInt8
  readPos : Nat
  writePos : Nat
  count : Nat
  readers : Nat
  writers : Nat

def newPipe (object : Nat) : Pipe where
  object := object
  buf := fun _ => 0
  readPos := 0
  writePos := 0
  count := 0
  readers := 1
  writers := 1

def pipeTake : Nat → Pipe → List UInt8 × Pipe
  | 0, state => ([], state)
  | count + 1, state =>
    let byte := state.buf state.readPos
    let (bytes, state) := pipeTake count
      { state with
        readPos := (state.readPos + 1) % pipeBufSize
        count := state.count - 1 }
    (byte :: bytes, state)

def pipePut : List UInt8 → Pipe → Pipe
  | [], state => state
  | byte :: bytes, state =>
    pipePut bytes
      { state with
        buf := update state.buf state.writePos byte
        writePos := (state.writePos + 1) % pipeBufSize
        count := state.count + 1 }

namespace Pipe

/-- The positions fit the number of buffered bytes. -/
structure Valid (pipe : Pipe) : Prop where
  readPos : pipe.readPos < pipeBufSize
  count : pipe.count ≤ pipeBufSize
  writePos : pipe.writePos = (pipe.readPos + pipe.count) % pipeBufSize

def contents (pipe : Pipe) : List UInt8 :=
  (List.range pipe.count).map fun index => pipe.buf ((pipe.readPos + index) % pipeBufSize)

theorem newPipe_valid (object : Nat) : (newPipe object).Valid :=
  ⟨by simp [newPipe, pipeBufSize], Nat.zero_le _, rfl⟩

/-- One turn of the loop of `pipe_read`. -/
def takeOne (pipe : Pipe) : Pipe :=
  { pipe with readPos := (pipe.readPos + 1) % pipeBufSize, count := pipe.count - 1 }

/-- One turn of the inner loop of `pipe_write`. -/
def putOne (pipe : Pipe) (byte : UInt8) : Pipe :=
  { pipe with
    buf := update pipe.buf pipe.writePos byte
    writePos := (pipe.writePos + 1) % pipeBufSize
    count := pipe.count + 1 }

variable {pipe : Pipe}

theorem Valid.takeOne (valid : pipe.Valid) (some : 0 < pipe.count) : pipe.takeOne.Valid := by
  obtain ⟨readPos, count, writePos⟩ := valid
  unfold pipeBufSize at *
  refine ⟨Nat.mod_lt _ (by decide), ?_, ?_⟩
  · simp only [Pipe.takeOne, pipeBufSize]
    omega
  · simp only [Pipe.takeOne, pipeBufSize]
    omega

theorem Valid.contents_takeOne (some : 0 < pipe.count) :
    pipe.contents = pipe.buf (pipe.readPos % pipeBufSize) :: pipe.takeOne.contents := by
  obtain ⟨fewer, countEq⟩ : ∃ fewer, pipe.count = fewer + 1 := ⟨pipe.count - 1, by omega⟩
  simp only [contents, Pipe.takeOne, countEq, List.range_succ_eq_map, List.map_cons,
    List.map_map, Nat.add_zero, Nat.add_sub_cancel]
  refine congrArg _ (List.map_congr_left fun index _ => ?_)
  simp only [Function.comp_apply, pipeBufSize]
  congr 1
  omega

theorem Valid.putOne (valid : pipe.Valid) (room : pipe.count < pipeBufSize)
    (byte : UInt8) : (pipe.putOne byte).Valid := by
  obtain ⟨readPos, count, writePos⟩ := valid
  refine ⟨readPos, room, ?_⟩
  unfold pipeBufSize at *
  simp only [Pipe.putOne, pipeBufSize]
  omega

theorem Valid.contents_putOne (valid : pipe.Valid)
    (room : pipe.count < pipeBufSize) (byte : UInt8) :
    (pipe.putOne byte).contents = pipe.contents ++ [byte] := by
  obtain ⟨readPos, count, writePos⟩ := valid
  simp only [contents, Pipe.putOne, List.range_succ, List.map_append, List.map_cons, List.map_nil]
  refine congrArg₂ (· ++ ·) (List.map_congr_left fun index member => ?_) ?_
  · -- an older byte lies at another position
    have older := List.mem_range.mp member
    refine update_of_ne ?_ _ _
    unfold pipeBufSize at *
    omega
  · rw [← writePos, update_self]

/-- What the loop of `pipe_read` returns and leaves. -/
theorem Valid.pipeTake (valid : pipe.Valid) {amount : Nat} (enough : amount ≤ pipe.count) :
    (pipeTake amount pipe).2.Valid ∧
      pipe.contents = (pipeTake amount pipe).1 ++ (pipeTake amount pipe).2.contents ∧
      (pipeTake amount pipe).1.length = amount ∧
      (pipeTake amount pipe).2.writers = pipe.writers := by
  induction amount generalizing pipe with
  | zero => exact ⟨valid, rfl, rfl, rfl⟩
  | succ amount ih =>
    have some : 0 < pipe.count := by omega
    have fewer : amount ≤ pipe.takeOne.count := by
      simp only [Pipe.takeOne]
      omega
    obtain ⟨validAfter, conserved, length, writers⟩ := ih (valid.takeOne some) fewer
    refine ⟨validAfter, ?_, ?_, writers⟩
    · rw [Valid.contents_takeOne some, conserved, Nat.mod_eq_of_lt valid.readPos]
      rfl
    · simp only [Kernel.pipeTake, List.length_cons]
      exact congrArg (· + 1) length

/-- What the inner loop of `pipe_write` leaves. -/
theorem Valid.pipePut (valid : pipe.Valid) {bytes : List UInt8}
    (room : pipe.count + bytes.length ≤ pipeBufSize) :
    (pipePut bytes pipe).Valid ∧ (pipePut bytes pipe).contents = pipe.contents ++ bytes := by
  induction bytes generalizing pipe with
  | nil => exact ⟨valid, by simp [Kernel.pipePut]⟩
  | cons byte bytes ih =>
    rw [List.length_cons] at room
    have roomHere : pipe.count < pipeBufSize := by omega
    have roomLeft : (pipe.putOne byte).count + bytes.length ≤ pipeBufSize := by
      simp only [Pipe.putOne]
      omega
    obtain ⟨validAfter, contents⟩ := ih (valid.putOne roomHere byte) roomLeft
    rw [valid.contents_putOne roomHere, List.append_assoc] at contents
    exact ⟨validAfter, contents⟩

end Pipe

end MiniOS.Kernel
