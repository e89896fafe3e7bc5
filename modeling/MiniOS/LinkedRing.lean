import Mathlib

/-!
# Rings of links

A function leads from every node to the next one.  A ring is a list of nodes of which each
leads to the one behind it and the last one to the first.  A ring can be read from any of
its nodes, so a search that follows the links from there visits all of them.
-/

namespace MiniOS.LinkedRing

variable {α : Type*} {next next' : α → α} {first start : α} {rest front back list : List α}

/-- Every node of the list but the last leads to the one behind it. -/
def Linked (next : α → α) (list : List α) : Prop := list.IsChain fun node other => next node = other

/-- The nodes `first :: rest` lead from one to the other, and the last one to `first`. -/
def Ring (next : α → α) (first : α) (rest : List α) : Prop := Linked next (first :: (rest ++ [first]))

variable {node other found : α} {stop : α → Bool}

theorem linked_split :
    Linked next (front ++ node :: back) ↔
      Linked next (front ++ [node]) ∧ Linked next (node :: back) :=
  List.isChain_split

theorem Linked.tail (linked : Linked next (node :: list)) : Linked next list :=
  List.IsChain.tail linked

theorem linked_cons_cons :
    Linked next (node :: other :: list) ↔ next node = other ∧ Linked next (other :: list) :=
  List.isChain_cons_cons

/-- The links of all nodes but the last decide. -/
theorem Linked.congr (linked : Linked next list)
    (same : ∀ node ∈ list.dropLast, next' node = next node) : Linked next' list := by
  induction list with
  | nil => exact List.isChain_nil
  | cons node list ih =>
    cases list with
    | nil => exact List.isChain_singleton _
    | cons other list =>
      rw [linked_cons_cons] at linked ⊢
      rw [List.dropLast_cons_cons, List.forall_mem_cons] at same
      exact ⟨same.1.trans linked.1, ih linked.2 same.2⟩

/-- Another node in the place of the first one, with the same successor. -/
theorem Linked.replace_head (linked : Linked next (node :: list))
    (sameNext : next' other = next node) (same : ∀ node ∈ list.dropLast, next' node = next node) :
    Linked next' (other :: list) := by
  cases list with
  | nil => exact List.isChain_singleton _
  | cons successor list =>
    rw [linked_cons_cons] at linked ⊢
    exact ⟨sameNext.trans linked.1, linked.2.congr same⟩

/-- In a list in order every node leads to a later one, the last one to what follows. -/
theorem Linked.leads {order : α → α → Prop} {final : α} (linked : Linked next (list ++ [final]))
    (ordered : list.Pairwise order) (member : node ∈ list) :
    (next node ∈ list ∧ order node (next node)) ∨ next node = final := by
  induction list with
  | nil => exact nomatch member
  | cons head list ih =>
    rw [List.pairwise_cons] at ordered
    rcases List.mem_cons.mp member with rfl | later
    · cases list with
      | nil => exact .inr (linked_cons_cons.mp linked).1
      | cons other list =>
        have leads : next node = other := (linked_cons_cons.mp linked).1
        rw [leads]
        exact .inl ⟨.tail _ (.head _), ordered.1 other (.head _)⟩
    · rcases ih linked.tail ordered.2 later with ⟨inside, inOrder⟩ | final
      · exact .inl ⟨.tail _ inside, inOrder⟩
      · exact .inr final

theorem Linked.map_next (linked : Linked next (start :: list)) :
    (start :: list).dropLast.map next = list := by
  induction list generalizing start with
  | nil => rfl
  | cons other list ih =>
    rw [linked_cons_cons] at linked
    rw [List.dropLast_cons_cons, List.map_cons, linked.1, ih linked.2]

variable (ring : Ring next first rest)

include ring

theorem Ring.congr (same : ∀ node ∈ first :: rest, next' node = next node) :
    Ring next' first rest := by
  refine Linked.congr ring ?_
  rwa [← List.cons_append, List.dropLast_concat]

theorem Ring.map_next : (first :: rest).map next = rest ++ [first] := by
  have successors := Linked.map_next ring
  rwa [← List.cons_append, List.dropLast_concat] at successors

theorem Ring.next_mem (member : node ∈ first :: rest) :
    next node ∈ first :: rest := by
  have successor := List.mem_map_of_mem (f := next) member
  rw [ring.map_next, List.mem_append, List.mem_singleton] at successor
  exact List.mem_cons.mpr successor.symm

/-- Two nodes of a ring do not lead to the same one. -/
theorem Ring.eq_of_next (distinct : (first :: rest).Nodup) (member : node ∈ first :: rest)
    (otherMember : other ∈ first :: rest)
    (same : next node = next other) : node = other := by
  have rotated : (rest ++ [first]).Nodup :=
    (List.perm_append_singleton first rest).nodup_iff.mpr distinct
  rw [← ring.map_next] at rotated
  exact List.inj_on_of_nodup_map rotated member otherMember same

omit ring in
/-- The ring read from another of its nodes. -/
theorem Ring.rotate (ring : Ring next first (front ++ start :: back)) :
    Ring next start (back ++ first :: front) := by
  have split : Linked next ((first :: front) ++ start :: (back ++ [first])) := by
    simpa [Ring] using ring
  obtain ⟨before, behind⟩ := linked_split.mp split
  have joined : Linked next ((start :: back) ++ first :: (front ++ [start])) :=
    linked_split.mpr ⟨behind, before⟩
  simpa [Ring] using joined

theorem Ring.start_at (member : start ∈ first :: rest) :
    ∃ others, Ring next start others ∧ (start :: others).Perm (first :: rest) := by
  rcases List.mem_cons.mp member with rfl | later
  · exact ⟨rest, ring, .refl _⟩
  · obtain ⟨front, back, rfl⟩ := List.append_of_mem later
    refine ⟨back ++ first :: front, ring.rotate, ?_⟩
    calc start :: (back ++ first :: front)
        _ = (start :: back) ++ (first :: front) := rfl
        _ |>.Perm ((first :: front) ++ (start :: back)) := List.perm_append_comm
        _ = first :: (front ++ start :: back) := rfl

/-- A ring whose nodes ascend from the first one on descends once, where it closes. -/
theorem Ring.countP_descents [LinearOrder α] (ascending : (first :: rest).Pairwise (· < ·)) :
    (first :: rest).countP (fun node => next node ≤ node) = 1 := by
  obtain ⟨before, final, order⟩ : ∃ before final, first :: rest = before ++ [final] :=
    ⟨_, _, (List.dropLast_append_getLast (List.cons_ne_nil first rest)).symm⟩
  have linked : Linked next (before ++ final :: [first]) := by
    have closed := ring
    rw [Ring, ← List.cons_append, order, List.append_assoc] at closed
    exact closed
  obtain ⟨lower, closing⟩ := linked_split.mp linked
  have leads : next final = first := (linked_cons_cons.mp closing).1
  have least : first ≤ final := by
    have member : final ∈ first :: rest := by simp [order]
    rcases List.mem_cons.mp member with same | later
    · exact same.ge
    · exact ((List.pairwise_cons.mp ascending).1 final later).le
  rw [order] at ascending ⊢
  obtain ⟨ascendingBefore, -, crossing⟩ := List.pairwise_append.mp ascending
  have none : before.countP (fun node => next node ≤ node) = 0 := by
    refine List.countP_eq_zero.mpr fun node member => ?_
    rcases lower.leads ascendingBefore member with ⟨-, grows⟩ | toFinal
    · simpa using grows
    · simpa [toFinal] using crossing node member final (.head _)
  rw [List.countP_append, none, List.countP_singleton, leads, if_pos (by simpa using least)]

omit ring

def search (next : α → α) (stop : α → Bool) : (turns : Nat) → α → Option α
  | 0, _ => none
  | turns + 1, node => if stop node then some node else search next stop turns (next node)

theorem search_mono {turns more : Nat} (isFound : search next stop turns start = some found)
    (le : turns ≤ more) :
    search next stop more start = some found := by
  induction turns generalizing start more with
  | zero => exact nomatch isFound
  | succ turns ih =>
    obtain ⟨more, rfl⟩ := Nat.exists_eq_add_of_le' (Nat.le_trans (Nat.le_add_left 1 turns) le)
    rw [search] at isFound ⊢
    split
    · next stops => rwa [if_pos stops] at isFound
    · next goes =>
      rw [if_neg goes] at isFound
      exact ih isFound (Nat.le_of_succ_le_succ le)

/-- A search along linked nodes finds the first of them that passes the test. -/
theorem search_of_linked (rest : List α) :
    ∀ start turns, Linked next (start :: rest) → (start :: rest).find? stop = some found →
      rest.length < turns → search next stop turns start = some found := by
  induction rest with
  | nil =>
    intro start turns _ isFound enough
    obtain ⟨turns, rfl⟩ := Nat.exists_eq_succ_of_ne_zero (Nat.ne_of_gt enough)
    rw [search]
    by_cases stops : stop start = true
    · rw [if_pos stops, ← isFound, List.find?_cons_of_pos stops]
    · rw [List.find?_cons_of_neg stops] at isFound
      exact nomatch isFound
  | cons other rest ih =>
    intro start turns linked isFound enough
    obtain ⟨turns, rfl⟩ := Nat.exists_eq_succ_of_ne_zero (Nat.ne_of_gt (Nat.zero_lt_of_lt enough))
    obtain ⟨leads, linkedRest⟩ := linked_cons_cons.mp linked
    rw [search]
    by_cases stops : stop start = true
    · rw [if_pos stops, ← isFound, List.find?_cons_of_pos stops]
    · rw [List.find?_cons_of_neg stops] at isFound
      rw [if_neg stops, leads]
      exact ih other turns linkedRest isFound (Nat.lt_of_succ_lt_succ enough)

theorem Ring.linked (ring : Ring next first rest) : Linked next (first :: rest) :=
  List.IsChain.left_of_append (by simpa [Ring, Linked] using ring)

/-- A search in a ring for the only node that passes the test. -/
theorem Ring.search_unique (ring : Ring next first rest)
    (startMember : start ∈ first :: rest) (member : found ∈ first :: rest) (stops : stop found = true)
    (unique : ∀ node ∈ first :: rest, stop node = true → node = found) {turns : Nat}
    (enough : rest.length < turns) : search next stop turns start = some found := by
  obtain ⟨others, rotated, perm⟩ := ring.start_at startMember
  have sameLength : others.length = rest.length := by
    simpa using perm.length_eq
  refine search_of_linked others start turns rotated.linked ?_ (sameLength ▸ enough)
  have isSome : ((start :: others).find? stop).isSome :=
    List.find?_isSome.mpr ⟨found, perm.mem_iff.mpr member, stops⟩
  obtain ⟨node, isNode⟩ := Option.isSome_iff_exists.mp isSome
  rw [isNode, unique node (perm.mem_iff.mp (List.mem_of_find?_eq_some isNode)) (List.find?_some isNode)]

end MiniOS.LinkedRing
