import Mathlib

/-!
# Spans of addresses

A span is an interval of addresses.  Lists of spans are compared by how often they cover
each address.  Two spans that touch can be joined and a span can be cut without changing
this number; spans that cover no address twice lie apart from each other.
-/

namespace MiniOS

structure Span where
  start : Nat
  length : Nat
deriving DecidableEq

namespace Span

def stop (block : Span) : Nat := block.start + block.length

def Covers (block : Span) (address : Nat) : Prop := block.start ≤ address ∧ address < block.stop

instance (block : Span) (address : Nat) : Decidable (block.Covers address) :=
  inferInstanceAs (Decidable (_ ∧ _))

def Separate (block other : Span) : Prop := block.stop ≤ other.start ∨ other.stop ≤ block.start

theorem Separate.symm {block other : Span} (separate : Separate block other) :
    Separate other block :=
  Or.symm separate

def cover (blocks : List Span) (address : Nat) : Nat :=
  blocks.countP fun block => block.Covers address

variable {block other : Span} {blocks others : List Span} {address : Nat}

@[simp]
theorem cover_cons :
    cover (block :: blocks) address =
      (if block.Covers address then 1 else 0) + cover blocks address := by
  rw [cover, List.countP_cons, Nat.add_comm]
  simp [cover]

theorem cover_pos : 0 < cover blocks address ↔ ∃ block ∈ blocks, block.Covers address := by
  simp [cover, List.countP_pos_iff]

theorem cover_eq_zero : cover blocks address = 0 ↔ ∀ block ∈ blocks, ¬ block.Covers address := by
  simp [cover, List.countP_eq_zero]

/-- Two spans that touch cover what the joined span covers. -/
theorem cover_join {start front back : Nat} :
    (if Covers ⟨start, front⟩ address then 1 else 0) +
        (if Covers ⟨start + front, back⟩ address then 1 else 0) =
      if Covers ⟨start, front + back⟩ address then 1 else 0 := by
  split <;> split <;> split <;> simp only [Covers, stop] at * <;> omega

/-- Spans that cover no address twice lie apart from each other. -/
theorem pairwise_separate (once : ∀ address, cover blocks address ≤ 1)
    (nonempty : ∀ block ∈ blocks, 0 < block.length) : blocks.Pairwise Separate := by
  induction blocks with
  | nil => exact .nil
  | cons block blocks ih =>
    simp only [cover_cons] at once
    refine List.pairwise_cons.mpr ⟨fun other member => ?_,
      ih (fun address => Nat.le_trans (Nat.le_add_left ..) (once address))
        fun other member => nonempty other (.tail _ member)⟩
    by_contra overlap
    have blockPos := nonempty block (.head _)
    have otherPos := nonempty other (.tail _ member)
    -- the larger one of the two starts lies in both spans
    have inBlock : block.Covers (max block.start other.start) := by
      simp only [Separate, Covers, stop] at overlap ⊢
      omega
    have inOther : other.Covers (max block.start other.start) := by
      simp only [Separate, Covers, stop] at overlap ⊢
      omega
    have twice := once (max block.start other.start)
    rw [if_pos inBlock] at twice
    have positive := cover_pos.mpr ⟨other, member, inOther⟩
    omega

end Span

end MiniOS
