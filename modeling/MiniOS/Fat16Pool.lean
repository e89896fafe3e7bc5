import MiniOS.Fat16Operations

/-!
# The pool of nodes

Every lookup hands out one of sixteen nodes, reusing the node that describes
the entry already or else one that nobody holds open.  The invariant of the
pool says that a node whose entry is live agrees with it, and that no entry is
described by two nodes.
-/

namespace MiniOS.Fat16

open Function TracedAccess Traced

variable {l : Layout} {d : Driver}

/-- The two ways in which `fat16_make_node` can choose a node. -/
inductive Chosen (d : Driver) (e : Nat) : Option (Nat × Nat) → Prop
  | refused (undescribed : ∀ i < nodePool, (d.pool i).ptr ≠ some e)
      (held : ∀ i < nodePool, d.refs i ≠ 0) : Chosen d e none
  | made {slot nodeNext : Nat} (inPool : slot < nodePool)
      (choice : (d.pool slot).ptr = some e ∨
        d.refs slot = 0 ∧ ∀ i < nodePool, (d.pool i).ptr ≠ some e) :
      Chosen d e (some (slot, nodeNext))

theorem chooseSlot_chosen (d : Driver) (e : Nat) : Chosen d e (chooseSlot d e) := by
  rw [chooseSlot]
  cases described : (List.range nodePool).find? fun i => decide ((d.pool i).ptr = some e) with
  | some slot =>
    have inPool := List.mem_range.mp (List.mem_of_find?_eq_some described)
    have found := List.find?_some described
    exact .made inPool (Or.inl (of_decide_eq_true found))
  | none =>
    have undescribed : ∀ i < nodePool, (d.pool i).ptr ≠ some e := by
      intro i below
      simpa using (List.find?_eq_none.mp described) i (List.mem_range.mpr below)
    simp only
    cases unheld : ((List.range nodePool).map fun n => (d.nodeNext + n) % nodePool).find? fun i =>
        decide (d.refs i = 0) with
    | some slot =>
      obtain ⟨n, -, rfl⟩ := List.mem_map.mp (List.mem_of_find?_eq_some unheld)
      have found := List.find?_some unheld
      exact .made (Nat.mod_lt _ (by decide)) (Or.inr ⟨of_decide_eq_true found, undescribed⟩)
    | none =>
      refine .refused undescribed fun i below zero => ?_
      have member : i ∈ (List.range nodePool).map fun n => (d.nodeNext + n) % nodePool := by
        rw [nodePool] at below ⊢
        refine List.mem_map.mpr ⟨(16 - d.nodeNext % 16 + i) % 16, ?_, by omega⟩
        exact List.mem_range.mpr (Nat.mod_lt _ (by decide))
      simpa [zero] using (List.find?_eq_none.mp unheld) i member

variable {e : Nat}

/-- The node that `fat16_make_node` fills in agrees with the entry. -/
theorem describe_value (img : Bytes) (name : CString) (inside : e + 32 ≤ l.imgSize) :
    Agrees img e (describe l img e name).value ∧
      ((describe l img e name).value.kind = .directory ↔ IsDirectory img e) := by
  have first : (rd16 l.imgSize img (e + 26)).value = field img 2 (e + 26) :=
    rd_value l img (by omega)
  have length : (rd32 l.imgSize img (e + 28)).value = field img 4 (e + 28) :=
    rd_value l img (by omega)
  simp only [describe, value_bind, value_ite, peek, value_touch, value_pure, first, length]
  split
  case isTrue isDirectory =>
    exact ⟨⟨rfl, rfl, fun isFile => by simp at isFile⟩, by simpa [IsDirectory] using isDirectory⟩
  case isFalse notDirectory =>
    exact ⟨⟨rfl, rfl, fun _ => rfl⟩, by simpa [IsDirectory] using notDirectory⟩

/-- The nodes agree with the live entries that they describe, except for entries
that `stale` names. -/
structure PoolSound (l : Layout) (stale : Nat → Prop) (d : Driver) : Prop where
  outside : ∀ i, nodePool ≤ i → d.pool i = clearedNode
  cleared : ∀ i, (d.pool i).ptr = none → (d.pool i).kind = .unused
  isSlot : ∀ i e, (d.pool i).ptr = some e → Slot l d.img e
  agrees : ∀ i e, (d.pool i).ptr = some e → ¬ stale e → Live d.img e →
    Agrees d.img e (d.pool i) ∧ ((d.pool i).kind = .directory ↔ IsDirectory d.img e)
  directories : ∀ i e, (d.pool i).ptr = some e → (d.pool i).kind = .directory →
    ¬ stale e ∧ Live d.img e
  unique : ∀ i j e, (d.pool i).ptr = some e → (d.pool j).ptr = some e → i = j

variable {stale : Nat → Prop}

theorem PoolSound.lt (sound : PoolSound l stale d) {i : Nat}
    (describes : (d.pool i).ptr = some e) : i < nodePool := by
  by_contra outside
  rw [sound.outside i (by omega)] at describes
  simp [clearedNode] at describes

def withNode (l : Layout) (d : Driver) (slot nodeNext e : Nat) (name : CString) : Driver :=
  { d with pool := update d.pool slot (describe l d.img e name).value, nodeNext }

theorem fat16MakeNode_value (d : Driver) (e : Nat) (name : CString) :
    (fat16MakeNode l d e name).value =
      match chooseSlot d e with
      | none => (none, d)
      | some (slot, nodeNext) => (some slot, withNode l d slot nodeNext e name) := by
  rw [fat16MakeNode]
  cases chooseSlot d e <;> simp [withNode]

variable {slot : Nat} {name : CString}

/-- A lookup of an entry repairs the node that describes it. -/
theorem PoolSound.withNode {nodeNext : Nat} (sound : PoolSound l stale d)
    (only : ∀ e', stale e' → e' = e) (isSlot : Slot l d.img e) (inside : e + 32 ≤ l.imgSize)
    (live : IsDirectory d.img e → Live d.img e) (inPool : slot < nodePool)
    (choice : (d.pool slot).ptr = some e ∨ ∀ i < nodePool, (d.pool i).ptr ≠ some e) :
    PoolSound l (fun _ => False) (withNode l d slot nodeNext e name) := by
  obtain ⟨agrees, isDirectory⟩ := describe_value d.img name inside
  have elsewhere : ∀ i, i ≠ slot → (Fat16.withNode l d slot nodeNext e name).pool i = d.pool i :=
    fun i other => update_of_ne other _ _
  have here : (Fat16.withNode l d slot nodeNext e name).pool slot = (describe l d.img e name).value :=
    update_self _ _ _
  have otherEntry : ∀ i, i ≠ slot → (d.pool i).ptr ≠ some e := by
    intro i other describes
    rcases choice with already | undescribed
    · exact other (sound.unique i slot e describes already)
    · exact undescribed i (sound.lt describes) describes
  refine ⟨fun i outside => ?_, fun i => ?_, fun i e' => ?_, fun i e' => ?_, fun i e' => ?_,
    fun i j e' => ?_⟩
  · rw [elsewhere i (by omega)]
    exact sound.outside i outside
  · by_cases same : i = slot
    · subst same
      rw [here, agrees.ptr]
      simp
    · rw [elsewhere i same]
      exact sound.cleared i
  · by_cases same : i = slot
    · subst same
      rw [here, agrees.ptr, Option.some.injEq]
      rintro rfl
      exact isSlot
    · rw [elsewhere i same]
      exact sound.isSlot i e'
  · by_cases same : i = slot
    · subst same
      rw [here, agrees.ptr, Option.some.injEq]
      rintro rfl - -
      exact ⟨agrees, isDirectory⟩
    · rw [elsewhere i same]
      intro describes _ live
      refine sound.agrees i e' describes (fun isStale => ?_) live
      exact otherEntry i same (only e' isStale ▸ describes)
  · by_cases same : i = slot
    · subst same
      rw [here, agrees.ptr, Option.some.injEq, isDirectory]
      rintro rfl isDir
      exact ⟨not_false, live isDir⟩
    · rw [elsewhere i same]
      exact fun describes isDir => ⟨not_false, (sound.directories i e' describes isDir).2⟩
  · by_cases same : i = slot
    · subst same
      rw [here, agrees.ptr, Option.some.injEq]
      rintro rfl describes
      by_contra different
      rw [elsewhere j fun equal => different equal.symm] at describes
      exact otherEntry j (fun equal => different equal.symm) describes
    · rw [elsewhere i same]
      intro describes
      by_cases same' : j = slot
      · subst same'
        rw [here, agrees.ptr, Option.some.injEq]
        rintro rfl
        exact absurd describes (otherEntry i same)
      · rw [elsewhere j same']
        exact sound.unique i j e' describes

/-- No node of a live entry is out of date any more. -/
theorem PoolSound.settle (sound : PoolSound l stale d)
    (settled : ∀ i e, (d.pool i).ptr = some e → Live d.img e → ¬ stale e) :
    PoolSound l (fun _ => False) d :=
  { sound with
    agrees := fun i e describes _ live =>
      sound.agrees i e describes (settled i e describes live) live
    directories := fun i e describes isDir =>
      ⟨not_false, (sound.directories i e describes isDir).2⟩ }

/-- `fat16_make_node` for an entry whose node may be out of date. -/
theorem PoolSound.makeNode (sound : PoolSound l stale d) (only : ∀ e', stale e' → e' = e)
    (isSlot : Slot l d.img e) (inside : e + 32 ≤ l.imgSize)
    (live : IsDirectory d.img e → Live d.img e) :
    PoolSound l (fun _ => False) (fat16MakeNode l d e name).value.2 := by
  rw [fat16MakeNode_value]
  have chosen := chooseSlot_chosen d e
  generalize chooseSlot d e = choice at chosen
  cases chosen with
  | refused undescribed _ =>
    refine sound.settle fun i e' describes _ isStale => ?_
    exact undescribed i (sound.lt describes) (only e' isStale ▸ describes)
  | made inPool choice =>
    exact sound.withNode only isSlot inside live inPool (choice.imp_right And.right)

/-- The image has changed in one slot, and the nodes have not. -/
theorem SlotUpdate.poolSound {img' : Bytes} {old new clusters : List Nat}
    (update : SlotUpdate l d.img img' slot old new clusters) (wellFormed : WellFormed l d.img)
    (sound : PoolSound l (fun _ => False) d) :
    PoolSound l (· = slot) { d with img := img' } := by
  have notSlot : ∀ i e, (d.pool i).ptr = some e → (d.pool i).kind = .directory → e ≠ slot := by
    rintro i e describes isDir rfl
    obtain ⟨-, live⟩ := sound.directories i e describes isDir
    exact (update.wasFile live).notDirectory ((sound.agrees i e describes not_false live).2.mp isDir)
  refine ⟨sound.outside, sound.cleared,
    fun i e describes => (update.slot_iff wellFormed).mpr (sound.isSlot i e describes),
    fun i e describes other live => ?_, fun i e describes isDir => ?_, sound.unique⟩
  · have isSlot := sound.isSlot i e describes
    rw [update.live_iff_of_other wellFormed isSlot other] at live
    obtain ⟨agrees, isDirectory⟩ := sound.agrees i e describes not_false live
    rw [update.isDirectory_iff_of_other wellFormed isSlot other]
    refine ⟨⟨agrees.ptr, ?_, fun isFile => ?_⟩, isDirectory⟩
    · exact agrees.impl.trans (update.firstCluster_of_other wellFormed isSlot other).symm
    · exact (agrees.length isFile).trans (update.fileLength_of_other wellFormed isSlot other).symm
  · have other := notSlot i e describes isDir
    refine ⟨other, (update.live_iff_of_other wellFormed (sound.isSlot i e describes) other).mpr ?_⟩
    exact (sound.directories i e describes isDir).2

end MiniOS.Fat16
