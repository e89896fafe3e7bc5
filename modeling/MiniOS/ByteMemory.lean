import MiniOS.LittleEndian

/-!
# Regions of memory

A region of memory as a function from offsets to bytes.  The operations are a copy
of some bytes into the region, and a list of the bytes at an offset; 32-bit integers
are stored with the least significant byte first.
-/

namespace MiniOS.ByteMemory

open LittleEndian

abbrev Region := Nat → UInt8

/-- `memcpy` to an offset of the region. -/
def store (m : Region) (start : Nat) (bytes : List UInt8) : Region := fun offset =>
  if start ≤ offset ∧ offset < start + bytes.length then bytes.getD (offset - start) 0
  else m offset

/-- The `count` bytes from an offset on. -/
def load (m : Region) (start count : Nat) : List UInt8 :=
  (List.range count).map fun offset => m (start + offset)

def load32 (m : Region) (start : Nat) : Nat := leValue (load m start 4)

def store32 (m : Region) (start value : Nat) : Region := store m start (leBytes 4 value)

/-- An array of bytes once a buffer has been stored at an offset, with zeros between its old end
and the offset. -/
def splice (data : List UInt8) (offset : Nat) (buffer : List UInt8) : List UInt8 :=
  load (store (fun place => data.getD place 0) offset buffer) 0
    (max data.length (offset + buffer.length))

variable {m other : Region} {start offset count value : Nat} {bytes : List UInt8}

@[simp]
theorem load_length : (load m start count).length = count := by
  simp [load]

theorem store_outside (outside : offset < start ∨ start + bytes.length ≤ offset) :
    store m start bytes offset = m offset := by
  rw [store, if_neg (by omega)]

theorem store_append (m : Region) (start : Nat) (front back : List UInt8) :
    store (store m start front) (start + front.length) back = store m start (front ++ back) := by
  funext offset
  simp only [store, List.length_append, List.getD_eq_getElem?_getD, List.getElem?_append,
    Nat.sub_sub]
  split_ifs <;> first | rfl | omega

theorem load_congr (same : ∀ place < count, m (start + place) = other (offset + place)) :
    load m start count = load other offset count := by
  rw [load, load]
  exact List.map_congr_left fun place inside => same place (List.mem_range.mp inside)

theorem load_store (m : Region) (start : Nat) (bytes : List UInt8) :
    load (store m start bytes) start bytes.length = bytes := by
  apply List.ext_getElem
  · simp
  · intro place _ inside
    simp [load, store, inside]

theorem load_zero_getD (m : Region) (count place : Nat) :
    (load m 0 count).getD place 0 = if place < count then m place else 0 := by
  by_cases inside : place < count <;> simp [load, inside]

theorem load_drop_take (m : Region) (start length offset size : Nat) :
    ((load m start length).drop offset).take size =
      load m (start + offset) (min size (length - offset)) := by
  apply List.ext_getElem
  · simp
  · intro place _ _
    simp [load, Nat.add_assoc]

theorem load_store_eq_splice {data : List UInt8}
    (length : count = max data.length (offset + bytes.length))
    (same : ∀ place < count, m place = data.getD place 0) :
    load (store m offset bytes) 0 count = splice data offset bytes := by
  rw [splice, ← length]
  refine load_congr fun place inside => ?_
  rw [Nat.zero_add, store, store, same place inside]

theorem splice_hole {data : List UInt8} {place : Nat} (behind : data.length ≤ place)
    (before : place < offset) : ((splice data offset bytes).drop place).take 1 = [0] := by
  rw [splice, load_drop_take, Nat.min_eq_left (by omega), Nat.zero_add]
  simp [load, store_outside (Or.inl before), List.getElem?_eq_none behind]

/-- The bytes of a region that is given by a list. -/
theorem load_getD (within : start + count ≤ bytes.length) :
    load (fun offset => bytes.getD offset 0) start count = (bytes.drop start).take count := by
  apply List.ext_getElem
  · simp
    omega
  · intro place inside _
    rw [load_length] at inside
    simp [load, List.getElem?_eq_getElem (show start + place < bytes.length by omega)]

theorem load32_congr (same : ∀ place < 4, m (start + place) = other (offset + place)) :
    load32 m start = load32 other offset := by
  rw [load32, load32, load_congr same]

theorem load32_lt (m : Region) (start : Nat) : load32 m start < 2 ^ 32 := by
  have bounded := leValue_lt (load m start 4)
  rwa [load_length] at bounded

theorem store32_outside (outside : offset < start ∨ start + 4 ≤ offset) :
    store32 m start value offset = m offset := by
  apply store_outside
  simpa using outside

theorem load32_store32 (m : Region) (start value : Nat) :
    load32 (store32 m start value) start = value % 2 ^ 32 := by
  have stored := load_store m start (leBytes 4 value)
  rw [leBytes_length] at stored
  rw [load32, store32, stored, leValue_leBytes, show 256 ^ 4 = 2 ^ 32 from rfl]

theorem load32_store32_outside (outside : offset + 4 ≤ start ∨ start + 4 ≤ offset) :
    load32 (store32 m start value) offset = load32 m offset :=
  load32_congr fun place _ => store32_outside (by omega)

end MiniOS.ByteMemory
