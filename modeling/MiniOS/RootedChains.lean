import Mathlib

/-!
# Chains that end at a root

Every element points to at most one other, and a chain follows these pointers until
there is none.  A chain that ends visits no element twice, so it is not longer than
the number of elements there are.
-/

namespace MiniOS.RootedChains

variable {α : Type*} {next : α → Option α}

/-- The pointers lead through the elements of the list, in this order, to the root. -/
inductive Ends (next : α → Option α) : Option α → List α → Prop
  | root : Ends next none []
  | step {element : α} {path : List α} (rest : Ends next (next element) path) :
      Ends next (some element) (element :: path)

variable {start : Option α} {path : List α} (ends : Ends next start path)

include ends

theorem Ends.unique {other : List α} (again : Ends next start other) : path = other := by
  induction ends generalizing other with
  | root =>
    cases again
    rfl
  | step _ ih =>
    cases again with
    | step rest => rw [ih rest]

variable {element : α}

/-- From every element of a chain a part of the chain leads to the root. -/
theorem Ends.suffix_of_mem (visited : element ∈ path) :
    ∃ rest, Ends next (some element) rest ∧ rest.length ≤ path.length := by
  induction ends with
  | root => cases visited
  | step tail ih =>
    rcases List.mem_cons.mp visited with rfl | later
    · exact ⟨_, .step tail, Nat.le_refl _⟩
    · obtain ⟨rest, leads, shorter⟩ := ih later
      exact ⟨rest, leads, Nat.le_succ_of_le shorter⟩

theorem Ends.nodup : path.Nodup := by
  induction ends with
  | root => exact List.nodup_nil
  | step tail ih =>
    refine List.nodup_cons.mpr ⟨fun again => ?_, ih⟩
    -- the chain from the repeated element would be both all of this one and shorter
    obtain ⟨rest, leads, shorter⟩ := tail.suffix_of_mem again
    rw [leads.unique (.step tail), List.length_cons] at shorter
    omega

theorem Ends.length_le {bound : List α} (within : ∀ element ∈ path, element ∈ bound) :
    path.length ≤ bound.length :=
  (List.subperm_of_subset ends.nodup within).length_le

/-- A chain that ends does not come back to where it started. -/
theorem Ends.not_cycle (isStart : start = some element) :
    ¬ Relation.TransGen (fun child parent => next child = some parent) element element := by
  intro cycle
  have shorter : ∀ {last}, Relation.TransGen (fun child parent => next child = some parent)
      element last → ∃ rest, Ends next (some last) rest ∧ rest.length < path.length := by
    intro last leads
    induction leads with
    | single pointer =>
      subst isStart
      cases ends with
      | step rest => exact ⟨_, pointer ▸ rest, Nat.lt_succ_self _⟩
    | tail _ pointer ih =>
      obtain ⟨_, ends, short⟩ := ih
      cases ends with
      | step rest => exact ⟨_, pointer ▸ rest, Nat.lt_of_succ_lt short⟩
  obtain ⟨rest, again, short⟩ := shorter cycle
  rw [ends.unique (isStart ▸ again)] at short
  exact Nat.lt_irrefl _ short

/-- A chain only depends on the pointers of the elements it visits. -/
theorem Ends.congr {other : α → Option α} (same : ∀ element ∈ path, other element = next element) :
    Ends other start path := by
  induction ends with
  | root => exact .root
  | step _ ih =>
    rw [List.forall_mem_cons] at same
    apply Ends.step
    rw [same.1]
    exact ih same.2

/-- Nothing points to the element, so no chain leads through it. -/
theorem Ends.not_mem {holds : α → Prop} (all : ∀ visited ∈ path, holds visited)
    (notFirst : start ≠ some element)
    (notNext : ∀ visited, holds visited → next visited ≠ some element) :
    element ∉ path := by
  induction ends with
  | root => exact List.not_mem_nil
  | @step first rest _ ih =>
    rw [List.forall_mem_cons] at all
    rw [List.mem_cons, not_or]
    exact ⟨fun same => notFirst (same ▸ rfl), ih all.2 (notNext first all.1)⟩

omit ends in
/-- Among finitely many elements the chains end if there is no cycle. -/
theorem exists_ends {elements : Set α} [Finite elements]
    (closed : ∀ element ∈ elements, ∀ parent, next element = some parent → parent ∈ elements)
    (acyclic : ∀ element, ¬ Relation.TransGen
      (fun child parent => child ∈ elements ∧ next child = some parent) element element) :
    ∀ element ∈ elements, ∃ path, Ends next (some element) path ∧
      ∀ visited ∈ path, visited ∈ elements := by
  let Above (parent child : elements) : Prop := Relation.TransGen
    (fun child parent => child ∈ elements ∧ next child = some parent) child.1 parent.1
  have : IsTrans elements Above := ⟨fun _ _ _ first second => second.trans first⟩
  have : Std.Irrefl Above := ⟨fun element => acyclic element⟩
  intro element member
  induction h : (⟨element, member⟩ : elements) using
    (Finite.wellFounded_of_trans_of_irrefl Above).induction generalizing element with
  | h _ ih =>
    subst h
    cases pointer : next element with
    | none => exact ⟨[element], .step (pointer ▸ .root), by simpa using member⟩
    | some parent =>
      have inside := closed element member parent pointer
      obtain ⟨path, ends, within⟩ :=
        ih ⟨parent, inside⟩ (.single ⟨member, pointer⟩) parent inside rfl
      exact ⟨element :: path, .step (pointer ▸ ends), List.forall_mem_cons.mpr ⟨member, within⟩⟩

end MiniOS.RootedChains
