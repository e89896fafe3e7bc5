import Mathlib

/-!
# Computations that record their memory accesses

A traced computation returns its value together with the ranges of a memory
that it read or wrote, in order.  The memory itself is passed explicitly by the
computation, so the value can be reasoned about as if nothing were recorded,
and `Within` says that no access left the first `size` bytes.
-/

namespace MiniOS.TracedAccess

/-- The bytes `start`, `start + 1`, …, of which there are `length`. -/
structure Access where
  start : Nat
  length : Nat
deriving DecidableEq, Repr

/-- No byte of the access lies at or above `size`. -/
def Access.Below (size : Nat) (access : Access) : Prop :=
  access.length = 0 ∨ access.start + access.length ≤ size

instance (size : Nat) (access : Access) : Decidable (access.Below size) :=
  inferInstanceAs (Decidable (_ ∨ _))

structure Traced (α : Type*) where
  value : α
  accesses : List Access

namespace Traced

universe u

variable {α β : Type u}

instance : Monad Traced where
  pure value := ⟨value, []⟩
  bind first rest :=
    ⟨(rest first.value).value, first.accesses ++ (rest first.value).accesses⟩

/-- Return a value that was read from, or a memory that was written at, a range. -/
def touch (start length : Nat) (value : α) : Traced α := ⟨value, [⟨start, length⟩]⟩

@[simp]
theorem value_pure (value : α) : (pure value : Traced α).value = value :=
  (rfl)

@[simp]
theorem value_bind (first : Traced α) (rest : α → Traced β) :
    (first >>= rest).value = (rest first.value).value :=
  (rfl)

@[simp]
theorem value_map (f : α → β) (first : Traced α) : (f <$> first).value = f first.value :=
  (rfl)

@[simp]
theorem value_touch (start length : Nat) (value : α) : (touch start length value).value = value :=
  (rfl)

@[simp]
theorem value_ite (condition : Prop) [Decidable condition] (first second : Traced α) :
    (if condition then first else second).value =
      if condition then first.value else second.value :=
  apply_ite value condition first second

/-- Every access lies in the first `size` bytes. -/
def Within (size : Nat) (computation : Traced α) : Prop :=
  ∀ access ∈ computation.accesses, access.Below size

instance (size : Nat) (computation : Traced α) : Decidable (computation.Within size) :=
  inferInstanceAs (Decidable (∀ access ∈ computation.accesses, access.Below size))

variable {size : Nat} {first second : Traced α} {rest : α → Traced β}

@[simp]
theorem within_pure (size : Nat) (value : α) : (pure value : Traced α).Within size := by
  rintro access ⟨⟩

@[simp]
theorem within_bind :
    (first >>= rest).Within size ↔ first.Within size ∧ (rest first.value).Within size :=
  List.forall_mem_append

@[simp]
theorem within_map {f : α → β} : (f <$> first).Within size ↔ first.Within size :=
  within_bind.trans (and_iff_left (within_pure size _))

@[simp]
theorem within_touch {start length : Nat} {value : α} :
    (touch start length value).Within size ↔ length = 0 ∨ start + length ≤ size := by
  simp [Within, touch, Access.Below]

theorem within_ite {condition : Prop} [Decidable condition]
    (holds : condition → first.Within size)
    (fails : ¬ condition → second.Within size) :
    (if condition then first else second).Within size := by
  split
  · exact holds ‹_›
  · exact fails ‹_›

/-- Every access lies in the first `size` bytes, and the value is as stated. -/
def Ensures (size : Nat) (Result : α → Prop) (computation : Traced α) : Prop :=
  computation.Within size ∧ Result computation.value

theorem ensures_pure {Result : α → Prop} {value : α} (result : Result value) :
    (pure value : Traced α).Ensures size Result :=
  ⟨within_pure size value, result⟩

theorem ensures_bind {Result : β → Prop}
    (within : first.Within size) (ensures : (rest first.value).Ensures size Result) :
    (first >>= rest).Ensures size Result :=
  ⟨within_bind.mpr ⟨within, ensures.1⟩, ensures.2⟩

theorem ensures_ite {Result : α → Prop} {condition : Prop} [Decidable condition]
    (holds : condition → first.Ensures size Result)
    (fails : ¬ condition → second.Ensures size Result) :
    (if condition then first else second).Ensures size Result := by
  split
  · exact holds ‹_›
  · exact fails ‹_›

end Traced

end MiniOS.TracedAccess
