import MiniOS.Fat16Identity

/-!
# What is found under a name

A listing shows the live entries of a directory in the order of their slots.  The entry that
`fat16_vfs_create` writes is among them, and lookup and unlink find it by its name, exactly if the
name is plain, some node of the pool is not open, and no open node describes the slot.
-/

namespace MiniOS.Fat16

open TracedAccess Traced

variable {l : Layout} {img img' : Bytes} {d : Driver} {node : Node} {name : CString}
  {field : List UInt8} {directory index e slot : Nat}

/-- The live entries in a range of slots. -/
def liveSlots (l : Layout) (img : Bytes) (directory logical remaining : Nat) : List Nat :=
  (List.range' logical remaining).filterMap fun i =>
    (slotAt l img directory i).filter fun e => Live img e

theorem liveSlots_succ {logical remaining : Nat} (found : slotAt l img directory logical = some e) :
    liveSlots l img directory logical (remaining + 1) =
      if Live img e then e :: liveSlots l img directory (logical + 1) remaining
      else liveSlots l img directory (logical + 1) remaining := by
  rw [liveSlots, List.range'_succ, List.filterMap_cons, found]
  by_cases live : Live img e <;> simp [Option.filter, live, liveSlots]

theorem mem_liveSlots {logical remaining : Nat} : e ∈ liveSlots l img directory logical remaining ↔
    ∃ i, (logical ≤ i ∧ i < logical + remaining) ∧ slotAt l img directory i = some e ∧
      Live img e := by
  simp only [liveSlots, List.mem_filterMap, List.mem_range'_1, Option.filter_eq_some_iff,
    decide_eq_true_eq]

section Listing

variable (wellFormed : WellFormed l img) (reached : Directory l img directory)

include wellFormed reached

theorem liveSlots_of_end {logical remaining : Nat}
    (ends : slotAt l img directory logical = none ∨
      ∃ e, slotAt l img directory logical = some e ∧ img e = 0) :
    liveSlots l img directory logical remaining = [] := by
  refine List.eq_nil_iff_forall_not_mem.mpr fun e member => ?_
  obtain ⟨i, ⟨behind, -⟩, found, live⟩ := mem_liveSlots.mp member
  rcases ends with missing | ⟨last, atEnd, zero⟩
  · rw [wellFormed.slotAt_none reached missing behind] at found
    cases found
  · rcases Nat.eq_or_lt_of_le behind with rfl | less
    · obtain rfl := Option.some.inj (found.symm.trans atEnd)
      exact live.first_ne_zero zero
    · exact live.first_ne_zero (wellFormed.stops _ _ _ _ _ reached less atEnd found zero)

theorem readdirLoop_value (remaining : Nat) : ∀ logical found, found ≤ index →
    (readdirLoop l img directory index remaining logical found).value =
      (liveSlots l img directory logical remaining)[index - found]?.map fun e =>
        (nameOf img e, firstCluster img e + 1) := by
  induction remaining with
  | zero => exact fun _ _ _ => rfl
  | succ remaining ih =>
    intro logical found le
    rw [readdirLoop]
    simp only [value_bind]
    cases atSlot : slotAt l img directory logical with
    | none =>
      have pointer : (fat16EntryPtr l img directory logical).value = none := atSlot
      rw [pointer, liveSlots_of_end wellFormed reached (.inl atSlot)]
      rfl
    | some e =>
      have pointer : (fat16EntryPtr l img directory logical).value = some e := atSlot
      rw [pointer]
      simp only [value_bind]
      cases kind : (fat16EntryKind img e).value with
      | stop =>
        rw [liveSlots_of_end wellFormed reached (.inr ⟨e, atSlot, entryKind_stop_iff.mp kind⟩)]
        rfl
      | skip =>
        have notLive : ¬ Live img e := by
          rw [Live, kind]
          simp
        rw [ih (logical + 1) found le, liveSlots_succ atSlot, if_neg notLive]
      | live =>
        have live : Live img e := kind
        have inside := wellFormed.slot_inside ⟨directory, logical, reached, atSlot⟩
        have first : (rd16 l.imgSize img (e + 26)).value = firstCluster img e :=
          rd_value l img (by omega)
        rw [liveSlots_succ atSlot, if_pos live]
        simp only [value_ite, value_bind, value_pure, first]
        split
        · next same =>
          rw [same, Nat.sub_self]
          rfl
        · next later =>
          rw [ih (logical + 1) (found + 1) (by omega),
            show index - found = index - (found + 1) + 1 by omega, List.getElem?_cons_succ]

end Listing

/-- A listing shows the live entries of the directory. -/
theorem readdir_value (wellFormed : WellFormed l img) (reached : Directory l img node.impl)
    (index : Nat) : (fat16VfsReaddir l img node index).value =
      (liveSlots l img node.impl 0 maxDirSlots)[index]?.map fun e =>
        (nameOf img e, firstCluster img e + 1) :=
  readdirLoop_value wellFormed reached maxDirSlots 0 0 (Nat.zero_le _)

/-- A node of the pool is not open. -/
def PoolHasRoom (d : Driver) : Prop := ∃ i < nodePool, d.refs i = 0

theorem makeNode_describes (room : PoolHasRoom d) (inside : e + 32 ≤ l.imgSize) (name : CString) :
    ∃ i d', (fat16MakeNode l d e name).value = (some i, d') ∧ (d'.pool i).ptr = some e := by
  rw [fat16MakeNode_value]
  have chosen := chooseSlot_chosen d e
  generalize chooseSlot d e = choice at chosen
  cases chosen with
  | refused _ held =>
    obtain ⟨i, inPool, unheld⟩ := room
    exact absurd unheld (held i inPool)
  | @made slot nodeNext inPool choice =>
    refine ⟨slot, _, rfl, ?_⟩
    simp only [withNode, Function.update_self]
    exact (describe_value _ _ inside).1.ptr

/-- A node that a lookup returns describes the entry that was found, and was free for it. -/
theorem foundEntry_of_finddir {i : Nat} {d' : Driver} (wellFormed : WellFormed l d.img)
    (reached : Directory l d.img node.impl)
    (returned : (fat16VfsFinddir l d node name).value = (some i, d'))
    (describes : (d'.pool i).ptr = some e) :
    (∃ index, FoundEntry l d.img node.impl name e index) ∧ i < nodePool ∧
      ((d.pool i).ptr = some e ∨ d.refs i = 0) := by
  have looked := finddir_value l d node name
  rw [returned] at looked
  rcases looked with ⟨-, -, -, missing⟩ | ⟨found, index, -, isFound, made⟩
  · cases missing
  · have inside := wellFormed.slot_inside ⟨_, index, reached, isFound.slot⟩
    rw [fat16MakeNode_value] at made
    have chosen := chooseSlot_chosen d found
    generalize chooseSlot d found = choice at chosen made
    cases chosen with
    | refused => cases made
    | @made slot nodeNext inPool choice =>
      obtain ⟨⟨⟩, rfl⟩ := Prod.mk.inj made
      simp only [withNode, Function.update_self] at describes
      rw [(describe_value _ _ inside).1.ptr] at describes
      obtain rfl := Option.some.inj describes
      exact ⟨⟨index, isFound⟩, inPool, choice.imp_right And.left⟩

/-- Making a node opens no entry and closes none. -/
theorem makeNode_entryIsOpen (inside : e + 32 ≤ l.imgSize) (name : CString) :
    fat16EntryIsOpen (fat16MakeNode l d e name).value.2 e = fat16EntryIsOpen d e := by
  have refs := (makeNode_same (l := l) d e name).2
  rw [Bool.eq_iff_iff]
  simp only [fat16EntryIsOpen, List.any_eq_true, List.mem_range, decide_eq_true_eq, refs]
  refine exists_congr fun i => and_congr_right fun inPool => and_congr_left fun held => ?_
  refine ⟨fun describes => ?_, fun describes => makeNode_ptr inside describes held⟩
  rw [fat16MakeNode_value] at describes
  have chosen := chooseSlot_chosen d e
  generalize chooseSlot d e = choice at chosen describes
  cases chosen with
  | refused => exact describes
  | @made slot nodeNext inPool choice =>
    by_cases same : i = slot
    · subst same
      exact choice.resolve_right fun unheld => held.ne' unheld.1
    · simpa only [withNode, Function.update_of_ne same] using describes

section Created

variable (fills : Fills l d node name field slot index) (wellFormed : WellFormed l d.img)
  (reached : Directory l d.img node.impl)

include fills wellFormed reached

/-- With a node to describe it, an entry that has the name would have been found. -/
theorem Fills.absent_of_room (room : PoolHasRoom d) {i : Nat} (below : i < maxDirSlots) :
    ¬ HasFile l d.img node.impl i e name := by
  rcases finddir_value l d node name with ⟨limit, -, missing, -⟩ | ⟨e', index', -, found, made⟩
  · exact missing.absent wellFormed below
  · have inside := wellFormed.slot_inside ⟨_, index', reached, found.slot⟩
    obtain ⟨i, d', returned, -⟩ := makeNode_describes room inside (nameOf d.img e')
    rw [fills.absent, returned] at made
    cases made

/-- The search by a plain name comes to the new entry. -/
theorem Fills.foundEntry (room : PoolHasRoom d) (plain : PlainName name) :
    FoundEntry l (filled d.img slot field) node.impl name slot index := by
  have update := fills.slotUpdate wellFormed reached
  obtain ⟨head, shown⟩ := (plainName_iff fills.fits).mp plain
  refine ⟨(update.slotAt_eq wellFormed reached index).trans fills.found,
    ⟨(filled_live_iff (fat16Make83_head fills.fits)).mpr head, ?_⟩, fun i before => ?_⟩
  · rw [nameOf, slice_filled (fat16Make83_length fills.fits)]
    exact fat16NameEq_of_shown shown
  · obtain ⟨e, found, taken⟩ := fills.earlier i before
    have other : e ≠ slot := by
      rintro rfl
      exact taken fills.free
    have isSlot : Slot l d.img e := ⟨_, i, reached, found⟩
    have first := update.bytes_of_other wellFormed isSlot other (Nat.le_refl e) (by omega)
    refine ⟨e, (update.slotAt_eq wellFormed reached i).trans found, ?_, fun named => ?_⟩
    · rw [first]
      exact fun zero => taken (.inl zero)
    · obtain ⟨live, same⟩ := update.shown_of_other wellFormed isSlot other named.1
      exact fills.absent_of_room wellFormed reached room (before.trans fills.bound)
        ⟨reached, found, live, same ▸ named.2⟩

end Created

/-- A file is found by its name: its entry is live and shows the name in lower case, a lookup
returns a node for it, a listing shows it, and unlink removes it. -/
structure FoundByName (l : Layout) (d : Driver) (node : Node) (e : Nat) (name : CString) :
    Prop where
  live : (fat16EntryKind d.img e).value = .live
  shown : (entryName d.img e).value.chars = name.chars.map fat16Lower
  lookup : ∃ i d', (fat16VfsFinddir l d node name).value = (some i, d') ∧ (d'.pool i).ptr = some e
  listing : ∃ index, (fat16VfsReaddir l d.img node index).value =
    some ((entryName d.img e).value, (rd16 l.imgSize d.img (e + 26)).value + 1)
  unlink : ∃ d', (fat16VfsUnlink l l.maxCluster d node name).value = some (true, d') ∧
    d'.img e = deletedMark

section Created

variable (fills : Fills l d node name field slot index) (wellFormed : WellFormed l d.img)
  (reached : Directory l d.img node.impl) {d₁ : Driver} (image : d₁.img = filled d.img slot field)

include fills wellFormed reached image

theorem Fills.slotUpdate_image : SlotUpdate l d.img d₁.img slot [] [] [] :=
  image ▸ fills.slotUpdate wellFormed reached

/-- Unlink removes an entry that the search finds, if it is not open. -/
theorem Fills.unlink (found : FoundEntry l d₁.img node.impl name slot index)
    (closed : fat16EntryIsOpen d₁ slot = false) :
    ∃ img', (fat16VfsUnlink l l.maxCluster d₁ node name).value =
        some (true, { d₁ with img := deleted img' slot }) := by
  have update := fills.slotUpdate_image wellFormed reached image
  have wellFormed' := update.keeps_wellFormed wellFormed
  have reached' := (update.directory_iff wellFormed).mpr reached
  have chain : FileChain l d₁.img (firstCluster d₁.img slot) [] := by
    rw [image, firstCluster_filled]
    exact .inl ⟨rfl, rfl⟩
  rcases unlink_cases
      (fun e index found => wellFormed'.slot_inside ⟨_, index, reached', found.slot⟩)
    (maxCluster_pos l) with ⟨-, kept⟩ | ⟨e, clusters, img', removable, -, removed⟩
  · exact absurd ⟨⟨index, fills.bound, found⟩, image ▸ filled_not_directory, closed, chain⟩
      (kept slot [])
  · obtain ⟨place, -, again⟩ := removable.found
    obtain rfl := found.unique again
    exact ⟨img', removed⟩

theorem Fills.foundByName (refs : d₁.refs = d.refs)
    (sameOpen : fat16EntryIsOpen d₁ slot = fat16EntryIsOpen d slot) :
    FoundByName l d₁ node slot name ↔
      PlainName name ∧ PoolHasRoom d ∧ fat16EntryIsOpen d slot = false := by
  have update := fills.slotUpdate_image wellFormed reached image
  have wellFormed' := update.keeps_wellFormed wellFormed
  have reached' := (update.directory_iff wellFormed).mpr reached
  have atSlot := (update.slotAt_eq wellFormed reached index).trans fills.found
  have inside := wellFormed.slot_inside update.isSlot
  have shows : (entryName d₁.img slot).value = fat16FormatName field := by
    change nameOf d₁.img slot = _
    rw [image, nameOf, slice_filled (fat16Make83_length fills.fits)]
  have isLive : Live d₁.img slot ↔ field.getD 0 0 ≠ deletedMark ∧ field.getD 0 0 ≠ dot := by
    rw [image, filled_live_iff (fat16Make83_head fills.fits)]
  constructor
  · rintro ⟨live, shown, ⟨i, d₂, returned, describes⟩, -, d₃, unlinked, -⟩
    obtain ⟨⟨place, found⟩, inPool, choice⟩ :=
      foundEntry_of_finddir wellFormed' reached' returned describes
    have closed : fat16EntryIsOpen d₁ slot = false := by
      rcases unlink_cases (fun e index found => wellFormed'.slot_inside
        ⟨_, index, reached', found.slot⟩) (maxCluster_pos l) with
        ⟨kept, -⟩ | ⟨e', clusters, img', removable, -, -⟩
      · rw [unlinked] at kept
        cases kept
      · obtain ⟨place', -, again⟩ := removable.found
        exact found.unique again ▸ removable.closed
    refine ⟨(plainName_iff fills.fits).mpr ⟨isLive.mp live, shows ▸ shown⟩, ⟨i, inPool, ?_⟩,
      sameOpen ▸ closed⟩
    rw [← refs]
    exact choice.elim (entryIsOpen_eq_false closed inPool) id
  · rintro ⟨plain, room, closed⟩
    have found : FoundEntry l d₁.img node.impl name slot index :=
      image ▸ fills.foundEntry wellFormed reached room plain
    have first : (rd16 l.imgSize d₁.img (slot + 26)).value = firstCluster d₁.img slot :=
      rd_value l d₁.img (by omega)
    refine ⟨found.named.1, shows ▸ ((plainName_iff fills.fits).mp plain).2, ?_, ?_, ?_⟩
    · rcases finddir_value l d₁ node name with ⟨limit, -, missing, -⟩ | ⟨e, place, -, again, made⟩
      · exact absurd found (missing.not_found fills.bound)
      · obtain rfl := found.unique again
        rw [made]
        exact makeNode_describes (by rwa [PoolHasRoom, refs]) inside _
    · have member : slot ∈ liveSlots l d₁.img node.impl 0 maxDirSlots :=
        mem_liveSlots.mpr
          ⟨index, ⟨Nat.zero_le _, by have bound := fills.bound; omega⟩, atSlot, found.named.1⟩
      obtain ⟨place, atPlace⟩ := List.mem_iff_getElem?.mp member
      refine ⟨place, ?_⟩
      rw [readdir_value wellFormed' reached', atPlace, first]
      rfl
    · obtain ⟨img', removed⟩ :=
        fills.unlink wellFormed reached image found (sameOpen.trans closed)
      exact ⟨_, removed, deleted_self img' slot⟩

end Created

/-- The entry that `fat16_vfs_create` writes is found by its name exactly if the name is plain,
some node is not open, and no open node describes the slot. -/
theorem fat16VfsCreate_shows (l : Layout) (d : Driver) (ref : NodeRef) (name : CString)
    (sound : VolumeSound l d) (isDirectory : (nodeOf d ref).kind = .directory) :
    (∃ d₁, (fat16VfsCreate l d (nodeOf d ref) name).value = (none, d₁) ∧ d₁.img = d.img) ∨
      ∃ e index field result d₁, Fills l d (nodeOf d ref) name field e index ∧
        (fat16VfsCreate l d (nodeOf d ref) name).value = (result, d₁) ∧
        d₁.img = filled d.img e field ∧
        (FoundByName l d₁ (nodeOf d ref) e name ↔
          PlainName name ∧ PoolHasRoom d ∧ fat16EntryIsOpen d e = false) := by
  have reached := sound.directory isDirectory
  rcases create_value sound.wellFormed reached name with
    ⟨d₁, refused, rfl | rfl⟩ | ⟨field, e, index, fills, made⟩
  · exact .inl ⟨d₁, refused, rfl⟩
  · exact .inl ⟨_, refused, (finddir_same name).1⟩
  · have inside := sound.wellFormed.slot_inside ⟨_, index, reached, fills.found⟩
    obtain ⟨image, refs⟩ := makeNode_same (l := l) { d with img := filled d.img e field } e name
    exact .inr ⟨e, index, field, _, _, fills, made, image,
      fills.foundByName sound.wellFormed reached image refs (makeNode_entryIsOpen inside name)⟩

theorem fat16VfsCreate_shows_small : ∃ e d₁,
    (fat16VfsCreate smallLayout (mountedDriver fun _ => 0) rootNode ⟨[0x61], by decide⟩).value =
      (some 0, d₁) ∧ FoundByName smallLayout d₁ rootNode e ⟨[0x61], by decide⟩ := by
  have returnsNode : (fat16VfsCreate smallLayout (mountedDriver fun _ => 0) rootNode
      ⟨[0x61], by decide⟩).value.1 = some 0 := by decide +kernel
  rcases fat16VfsCreate_shows smallLayout (mountedDriver fun _ => 0) .root ⟨[0x61], by decide⟩
    (mountedDriver_sound (wellFormed_zero smallLayout)) rfl with
    ⟨d₁, refused, -⟩ | ⟨e, index, field, result, d₁, fills, created, -, iff⟩
  · have returned := returnsNode.symm.trans (congrArg Prod.fst refused)
    cases returned
  · have closed : fat16EntryIsOpen (mountedDriver fun _ => 0) e = false := by
      simp [fat16EntryIsOpen, mountedDriver]
    obtain rfl : some 0 = result := returnsNode.symm.trans (congrArg Prod.fst created)
    exact ⟨e, d₁, created, iff.mpr ⟨⟨by decide, by decide, by decide, by decide⟩,
      ⟨0, by decide, rfl⟩, closed⟩⟩

/-- The name `a.` is accepted and written, listed as `a`, and found no more. -/
theorem fat16VfsCreate_hidden : let name : CString := ⟨[0x61, dot], by decide⟩
    let d₁ := (fat16VfsCreate smallLayout (mountedDriver fun _ => 0) rootNode name).value.2
    (fat16FreeSlot smallLayout (fun _ => 0) rootNode.impl).value = some 1024 ∧
      (entryName d₁.img 1024).value.chars = [0x61] ∧
      (fat16VfsReaddir smallLayout d₁.img rootNode 0).value = some (⟨[0x61], by decide⟩, 1) ∧
      (fat16VfsFinddir smallLayout d₁ rootNode name).value.1 = none ∧
      ((fat16VfsUnlink smallLayout smallLayout.maxCluster d₁ rootNode name).value.map Prod.fst) =
        some false := by
  decide +kernel

end MiniOS.Fat16
