import Mathlib

/-!
# Counting the holders of a resource

A finite family of holders each points at one resource or at none.  This file
counts how many holders point at a given resource and says how the count moves
when one holder is redirected.  Nothing here mentions what the holders and the
resources are: page-table entries and frames, descriptors and pipes.
-/

namespace MiniOS.HolderCount

open Function

variable {Holder Resource : Type*}

/-- The holders that point at `resource`. -/
def holders (held : Holder → Option Resource) (resource : Resource) : Set Holder :=
  {holder | held holder = some resource}

/-- How many holders point at `resource`. -/
noncomputable def holderCount (held : Holder → Option Resource)
    (resource : Resource) : Nat :=
  (holders held resource).ncard

def FiniteSupport (held : Holder → Option Resource) : Prop :=
  {holder | held holder ≠ none}.Finite

variable {held : Holder → Option Resource} {resource : Resource} {holder : Holder}

@[simp]
theorem mem_holders : holder ∈ holders held resource ↔ held holder = some resource :=
  Iff.rfl

theorem FiniteSupport.holders_finite (finite : FiniteSupport held) (resource : Resource) :
    (holders held resource).Finite := by
  refine Set.Finite.subset finite ?_
  intro holder points
  have pointed : held holder = some resource := points
  simp [pointed]

theorem holderCount_eq_zero (unheld : ∀ holder, held holder ≠ some resource) :
    holderCount held resource = 0 := by
  have empty : holders held resource = ∅ := by
    ext holder
    simpa using unheld holder
  rw [holderCount, empty, Set.ncard_empty]

theorem holderCount_pos (finite : FiniteSupport held) (points : held holder = some resource) :
    0 < holderCount held resource :=
  (Set.ncard_pos (finite.holders_finite resource)).mpr ⟨holder, points⟩

/-- A count of one leaves room for a single holder. -/
theorem eq_of_holderCount_le_one (finite : FiniteSupport held) {first second : Holder}
    (single : holderCount held resource ≤ 1) (firstPoints : held first = some resource)
    (secondPoints : held second = some resource) : first = second :=
  (Set.ncard_le_one (finite.holders_finite resource)).mp single
    first firstPoints second secondPoints

theorem holderCount_eq_one (points : held holder = some resource)
    (unique : ∀ other, held other = some resource → other = holder) :
    holderCount held resource = 1 := by
  have singleton : holders held resource = {holder} := by
    ext other
    constructor
    · exact unique other
    · rintro rfl
      exact points
  rw [holderCount, singleton, Set.ncard_singleton]

section Update

variable [DecidableEq Holder] {held : Holder → Option Resource}
  {holder : Holder} {resource : Resource} {target : Option Resource}

/-- Redirecting a holder that neither left nor reached `resource` keeps its
count. -/
theorem holderCount_update_of_ne (before : held holder ≠ some resource)
    (after : target ≠ some resource) :
    holderCount (update held holder target) resource = holderCount held resource := by
  have unchanged : holders (update held holder target) resource = holders held resource := by
    ext other
    by_cases same : other = holder
    · subst other
      simp [before, after]
    · simp [update_of_ne same]
  rw [holderCount, unchanged, holderCount]

/-- A holder that starts pointing at `resource` adds one to its count. -/
theorem holderCount_update_gain (finite : FiniteSupport held)
    (before : held holder ≠ some resource) :
    holderCount (update held holder (some resource)) resource = holderCount held resource + 1 := by
  have inserted : holders (update held holder (some resource)) resource =
      insert holder (holders held resource) := by
    ext other
    by_cases same : other = holder
    · subst other
      simp
    · simp [same]
  have outside : holder ∉ holders held resource := before
  rw [holderCount, inserted, Set.ncard_insert_of_notMem outside
    (finite.holders_finite resource), holderCount]

/-- A holder that stops pointing at `resource` takes one from its count. -/
theorem holderCount_update_loss (finite : FiniteSupport held)
    (before : held holder = some resource) (after : target ≠ some resource) :
    holderCount (update held holder target) resource + 1 = holderCount held resource := by
  have removed : holders (update held holder target) resource =
      holders held resource \ {holder} := by
    ext other
    by_cases same : other = holder
    · subst other
      simp [after]
    · simp [same]
  rw [holderCount, removed]
  exact Set.ncard_sdiff_singleton_add_one before (finite.holders_finite resource)

end Update

/-- When every holder of `resource` carries a different tag from a bounded
range, the range bounds the count. -/
theorem holderCount_le_of_injOn (tag : Holder → Nat) (bound : Nat)
    (bounded : ∀ holder, held holder = some resource → tag holder < bound)
    (distinct : Set.InjOn tag (holders held resource)) :
    holderCount held resource ≤ bound := by
  have inRange : ∀ holder ∈ holders held resource, tag holder ∈ (Finset.range bound : Set Nat) := by
    intro holder points
    simpa using bounded holder points
  have cardinal := Set.ncard_le_ncard_of_injOn tag inRange distinct
    (Finset.finite_toSet _)
  rwa [Set.ncard_coe_finset, Finset.card_range] at cardinal

end MiniOS.HolderCount
