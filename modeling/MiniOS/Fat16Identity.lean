import MiniOS.Fat16Run

/-!
# Names identify files

`fat16_vfs_create` looks a name up before it fills a slot, so a directory should
never show one name twice.  The lookup fails, however, also when every node of
the pool is open, it stops after 8192 slots, and a name with a space or a dot at
its end is shown differently from how it was given.  Where none of this happens
the names of a directory stay distinct, and a new file is found under its name.
-/

namespace MiniOS.Fat16

open Machine TracedAccess Traced

variable {l : Layout} {img img' : Bytes} {d d' : Driver}

/-- No directory has two live entries with the same name, up to case. -/
def NamesUnique (l : Layout) (img : Bytes) : Prop :=
  ∀ directory i j e e', Directory l img directory → slotAt l img directory i = some e →
    slotAt l img directory j = some e' → Live img e → Live img e' →
    fat16NameEq (nameOf img e) (nameOf img e') = true → e = e'

variable {a b : CString}

theorem nameEq_symm (same : fat16NameEq a b = true) : fat16NameEq b a = true := by
  rw [fat16NameEq_iff] at same ⊢
  exact same.symm

theorem nameEq_trans {c : CString} (first : fat16NameEq a b = true)
    (second : fat16NameEq b c = true) : fat16NameEq a c = true := by
  rw [fat16NameEq_iff] at first second ⊢
  exact first.trans second

variable {e directory index slot : Nat} {op : FatOp} {name : CString}

theorem nameOf_congr (same : ∀ k < 11, img' (e + k) = img (e + k)) :
    nameOf img' e = nameOf img e := by
  rw [nameOf, slice_congr same, nameOf]

inductive OpEffect (l : Layout) (d : Driver) : FatOp → Bytes → Prop
  | same (op : FatOp) : OpEffect l d op d.img
  | write {slot offset size e : Nat} {buffer : Option (Nat → UInt8)} {img' : Bytes}
      {old new clusters : List Nat} (file : FileAt l d.img e old)
      (rewritten : Rewritten l d.img img' e old new clusters) :
      OpEffect l d (.write slot offset size buffer) img'
  | create {ref : NodeRef} {name : CString} {field : List UInt8} {slot index : Nat}
      (reached : Directory l d.img (nodeOf d ref).impl)
      (isDirectory : (nodeOf d ref).kind = .directory)
      (fills : Fills l d (nodeOf d ref) name field slot index) :
      OpEffect l d (.create ref name) (filled d.img slot field)
  | unlink {ref : NodeRef} {name : CString} {e : Nat} {img' : Bytes} {old : List Nat}
      (update : SlotUpdate l d.img (deleted img' e) e old [] []) :
      OpEffect l d (.unlink ref name) (deleted img' e)

theorem fatStep_effect (sound : VolumeSound l d) (allowed : FatAllowed d op)
    (returned : fatStep l d op = some d') : OpEffect l d op d'.img := by
  cases op
  all_goals simp only [fatStep, fatOp, value_ite, value_map, value_pure] at returned
  case finddir ref name =>
    split at returned
    · cases returned
      rw [(finddir_same name).1]
      exact .same _
    · cases returned
      exact .same _
  case create ref name =>
    split at returned
    case isTrue isDirectory =>
      cases returned
      have reached := sound.directory isDirectory
      rcases create_value sound.wellFormed reached name with
        ⟨unchanged, none, rfl | rfl⟩ | ⟨field, slot, index, fills, made⟩
      · rw [none]
        exact .same _
      · rw [none, (finddir_same name).1]
        exact .same _
      · rw [made, (makeNode_same ..).1]
        exact .create reached isDirectory fills
    case isFalse =>
      cases returned
      exact .same _
  case unlink ref name =>
    split at returned
    case isTrue isDirectory =>
      rcases unlink_value sound.wellFormed (sound.directory isDirectory) name
          (maxCluster_pos l) with refused | ⟨e, index, img', old, -, -, -, update, removed⟩
      · rw [refused] at returned
        cases returned
        exact .same _
      · rw [removed] at returned
        cases returned
        exact .unlink update
    case isFalse =>
      cases returned
      exact .same _
  case write slot offset size buffer =>
    split at returned
    case isTrue isFile =>
      cases returned
      rcases sound.write_value isFile allowed offset size buffer with
        same | ⟨e, old, -, file, effect⟩
      · rw [same]
        exact .same _
      · obtain ⟨new, clusters, rewritten⟩ := effect.file
        exact .write file rewritten
    case isFalse =>
      cases returned
      exact .same _
  case openNode slot =>
    cases returned
    split <;> exact .same _
  case closeNode slot =>
    cases returned
    split
    · rw [fat16VfsClose]
      split <;> exact .same _
    · exact .same _

theorem Fills.slotUpdate {node : Node} {field : List UInt8}
    (fills : Fills l d node name field slot index) (wellFormed : WellFormed l d.img)
    (reached : Directory l d.img node.impl) :
    SlotUpdate l d.img (filled d.img slot field) slot [] [] [] :=
  wellFormed.filled reached fills.found fills.free fills.earlier (fat16Make83_head fills.fits)

def Removes (l : Layout) (e : Nat) (d : Driver) (op : FatOp) : Prop :=
  ∃ ref name d', op = .unlink ref name ∧ fatStep l d op = some d' ∧ Live d.img e ∧
    d'.img e = deletedMark

/-- A live entry stays live, under its name, until it is unlinked. -/
theorem OpEffect.keepsFile (wellFormed : WellFormed l d.img)
    (effect : OpEffect l d op d'.img) (returned : fatStep l d op = some d')
    (entry : Entry l d.img e) (kept : ¬ Removes l e d op) : KeepsFile l d.img d'.img e := by
  generalize after : d'.img = img' at effect
  cases effect with
  | same => exact .refl entry.2
  | @write _ _ _ e' _ _ _ _ _ file rewritten =>
    by_cases same : e = e'
    · subst same
      exact rewritten.keepsFile wellFormed file
    · exact (rewritten.slotUpdate wellFormed file).keepsFile wellFormed entry same
  | @create ref name field slot index reached _ fills =>
    refine (fills.slotUpdate wellFormed reached).keepsFile wellFormed entry ?_
    rintro rfl
    exact fills.free.not_live entry.2
  | @unlink ref name e' img'' old update =>
    refine update.keepsFile wellFormed entry ?_
    rintro rfl
    exact kept ⟨ref, name, d', rfl, returned, entry.2, by rw [after, deleted_self]⟩

variable {i : Nat}

theorem WellFormed.slotAt_none (wellFormed : WellFormed l img) {j : Nat}
    (reached : Directory l img directory) (missing : slotAt l img directory i = none) (le : i ≤ j) :
    slotAt l img directory j = none := by
  rcases wellFormed.directory_cases reached with rfl | ⟨owner, clusters, -, -, rfl, chain⟩
  · rw [slotAt_root] at missing ⊢
    split at missing
    · simp at missing
    · rw [if_neg (by omega)]
  · rw [slotAt_chain chain, Option.map_eq_none_iff, List.getElem?_eq_none_iff] at missing ⊢
    exact missing.trans (Nat.div_le_div_right le)

/-- The slot of a directory holds an entry with the name. -/
structure HasFile (l : Layout) (img : Bytes) (directory index e : Nat) (name : CString) : Prop where
  reached : Directory l img directory
  slot : slotAt l img directory index = some e
  named : Named img name e

/-- A search that fails has seen every slot it can reach. -/
theorem NotFound.absent (notFound : NotFound l img directory name index)
    (wellFormed : WellFormed l img) (below : i < maxDirSlots) :
    ¬ HasFile l img directory i e name := by
  rintro ⟨reached, slot, named⟩
  have after := notFound.earlier.le_of_named slot named
  rcases notFound.ends with atLimit | missing | ⟨e', atEnd, zero⟩
  · omega
  · rw [wellFormed.slotAt_none reached missing after] at slot
    simp at slot
  · rcases Nat.eq_or_lt_of_le after with rfl | less
    · rw [slot, Option.some.injEq] at atEnd
      exact named.1.first_ne_zero (atEnd ▸ zero)
    · exact named.1.first_ne_zero
        (wellFormed.stops directory index i e' e reached less atEnd slot zero)

variable {node : Node}

/-- A lookup of a name that one entry has, with a node to describe it. -/
theorem VolumeSound.finddir_finds (sound : VolumeSound l d) (unique : NamesUnique l d.img)
    (hasFile : HasFile l d.img node.impl index e name) (below : index < maxDirSlots)
    (available : ∃ i < nodePool, (d.pool i).ptr = some e ∨ d.refs i = 0) :
    ∃ found d', (fat16VfsFinddir l d node name).value = (some found, d') ∧
      (d'.pool found).ptr = some e := by
  rcases finddir_value l d node name with
    ⟨limit, -, missing, -⟩ | ⟨e', index', -, found, made⟩
  · exact absurd hasFile (missing.absent sound.wellFormed below)
  · obtain ⟨reached, slot, named⟩ := hasFile
    have same : e = e' := unique _ index index' e e' reached slot found.slot named.1 found.named.1
      (nameEq_trans named.2 (nameEq_symm found.named.2))
    subst same
    rw [made, fat16MakeNode_value]
    have chosen := chooseSlot_chosen d e
    generalize chooseSlot d e = choice at chosen
    cases chosen with
    | refused undescribed held =>
      obtain ⟨i, inPool, described | unheld⟩ := available
      · exact absurd described (undescribed i inPool)
      · exact absurd unheld (held i inPool)
    | @made found nodeNext inPool choice =>
      refine ⟨found, _, rfl, ?_⟩
      simp only [withNode, Function.update_self]
      exact (describe_value _ _ (sound.wellFormed.slot_inside ⟨_, index, reached, slot⟩)).1.ptr

/-- The conditions under which names identify files: a name that fits an entry is
plain, and an entry that has it already lies where the search finds it and has a
node, or some node is not open. -/
def CreateAllowed (l : Layout) (d : Driver) (ref : NodeRef) (name : CString) : Prop :=
  (nodeOf d ref).kind = .directory → fat16Make83 name ≠ none → PlainName name ∧
    ∀ index e, slotAt l d.img (nodeOf d ref).impl index = some e → Named d.img name e →
      index < maxDirSlots ∧ ∃ i < nodePool, (d.pool i).ptr = some e ∨ d.refs i = 0

def NamesAllowed (l : Layout) (d : Driver) : FatOp → Prop
  | .create ref name => CreateAllowed l d ref name
  | op => FatAllowed d op

theorem NamesAllowed.fatAllowed (allowed : NamesAllowed l d op) : FatAllowed d op := by
  cases op with
  | create ref name => trivial
  | finddir ref name | unlink ref name | write slot offset size buffer | openNode slot
  | closeNode slot =>
    exact allowed

section Names

variable {old new clusters : List Nat} (update : SlotUpdate l img img' slot old new clusters)
  (wellFormed : WellFormed l img)

include update wellFormed

theorem SlotUpdate.shown_of_other (isSlot : Slot l img e) (other : e ≠ slot) (live : Live img' e) :
    Live img e ∧ nameOf img' e = nameOf img e :=
  ⟨(update.live_iff_of_other wellFormed isSlot other).mp live, nameOf_congr fun k below =>
    update.bytes_of_other wellFormed isSlot other (by omega) (by omega)⟩

/-- A change to a slot that shows no new name. -/
theorem SlotUpdate.namesUnique (unique : NamesUnique l img)
    (quiet : Live img' slot → Live img slot ∧ ∀ k < 11, img' (slot + k) = img (slot + k)) :
    NamesUnique l img' := by
  have before : ∀ {e}, Slot l img e → Live img' e → Live img e ∧ nameOf img' e = nameOf img e := by
    intro e isSlot live
    by_cases same : e = slot
    · subst same
      exact ⟨(quiet live).1, nameOf_congr (quiet live).2⟩
    · exact update.shown_of_other wellFormed isSlot same live
  intro directory i j e e' reached found found' live live' same
  rw [update.directory_iff wellFormed] at reached
  rw [update.slotAt_eq wellFormed reached] at found found'
  obtain ⟨wasLive, name⟩ := before ⟨directory, i, reached, found⟩ live
  obtain ⟨wasLive', name'⟩ := before ⟨directory, j, reached, found'⟩ live'
  rw [name, name'] at same
  exact unique directory i j e e' reached found found' wasLive wasLive' same

end Names

variable {field : List UInt8}

/-- Filling a slot with a name that the directory does not have. -/
theorem Fills.namesUnique (fills : Fills l d node name field slot index)
    (wellFormed : WellFormed l d.img)
    (reached : Directory l d.img node.impl) (unique : NamesUnique l d.img) (plain : PlainName name)
    (absent : ∀ i e, slotAt l d.img node.impl i = some e → ¬ Named d.img name e) :
    NamesUnique l (filled d.img slot field) := by
  have update := fills.slotUpdate wellFormed reached
  have shown : fat16NameEq (nameOf (filled d.img slot field) slot) name = true := by
    rw [nameOf, slice_filled (fat16Make83_length fills.fits)]
    exact fat16NameEq_of_shown ((plainName_iff fills.fits).mp plain).2
  have fresh : ∀ {directory i j e}, Directory l d.img directory →
      slotAt l d.img directory i = some slot → slotAt l d.img directory j = some e → e ≠ slot →
      Live (filled d.img slot field) e →
      fat16NameEq (nameOf (filled d.img slot field) e) name = true → False := by
    intro directory i j e parent found found' other live same
    obtain ⟨rfl, -⟩ := wellFormed.slot_unique parent reached found fills.found
    obtain ⟨wasLive, sameName⟩ :=
      update.shown_of_other wellFormed ⟨_, j, parent, found'⟩ other live
    exact absent j e found' ⟨wasLive, sameName ▸ same⟩
  intro directory i j e e' parent found found' live live' same
  rw [update.directory_iff wellFormed] at parent
  rw [update.slotAt_eq wellFormed parent] at found found'
  by_cases first : e = slot
  · by_contra different
    subst first
    exact fresh parent found found' (Ne.symm different) live'
      (nameEq_trans (nameEq_symm same) shown)
  · by_cases second : e' = slot
    · subst second
      exact (fresh parent found' found first live (nameEq_trans same shown)).elim
    · obtain ⟨wasLive, name⟩ :=
        update.shown_of_other wellFormed ⟨_, i, parent, found⟩ first live
      obtain ⟨wasLive', name'⟩ :=
        update.shown_of_other wellFormed ⟨_, j, parent, found'⟩ second live'
      rw [name, name'] at same
      exact unique directory i j e e' parent found found' wasLive wasLive' same

variable {ref : NodeRef}

/-- A name that `fat16_vfs_create` stores is new in the directory. -/
theorem Fills.absent_of_allowed (fills : Fills l d (nodeOf d ref) name field slot index)
    (sound : VolumeSound l d) (isDirectory : (nodeOf d ref).kind = .directory)
    (unique : NamesUnique l d.img) (allowed : CreateAllowed l d ref name) :
    PlainName name ∧
      ∀ i e, slotAt l d.img (nodeOf d ref).impl i = some e → ¬ Named d.img name e := by
  obtain ⟨plain, visible⟩ := allowed isDirectory (by simp [fills.fits])
  refine ⟨plain, fun i e found named => ?_⟩
  obtain ⟨below, available⟩ := visible i e found named
  obtain ⟨node, d', returned, -⟩ := sound.finddir_finds unique
    ⟨sound.directory isDirectory, found, named⟩ below available
  rw [fills.absent] at returned
  simp at returned

theorem OpEffect.namesUnique (effect : OpEffect l d op img')
    (sound : VolumeSound l d) (unique : NamesUnique l d.img) (allowed : NamesAllowed l d op) :
    NamesUnique l img' := by
  have wellFormed := sound.wellFormed
  cases effect with
  | same => exact unique
  | write file rewritten =>
    have kept := rewritten.keepsFile wellFormed file
    exact (rewritten.slotUpdate wellFormed file).namesUnique wellFormed unique
      fun _ => ⟨file.entry.2, fun k below => kept.bytes k (by omega)⟩
  | create reached isDirectory fills =>
    obtain ⟨plain, absent⟩ := fills.absent_of_allowed sound isDirectory unique allowed
    exact fills.namesUnique wellFormed reached unique plain absent
  | unlink update =>
    exact update.namesUnique wellFormed unique fun live =>
      absurd (deleted_self _ _) live.first_ne_deleted

theorem OpEffect.slotUpdate (effect : OpEffect l d op img') (wellFormed : WellFormed l d.img) :
    img' = d.img ∨ ∃ slot old new clusters, SlotUpdate l d.img img' slot old new clusters := by
  cases effect with
  | same => exact Or.inl rfl
  | write file rewritten => exact Or.inr ⟨_, _, _, _, rewritten.slotUpdate wellFormed file⟩
  | create reached _ fills =>
    exact Or.inr ⟨_, _, _, _, fills.slotUpdate wellFormed reached⟩
  | unlink update => exact Or.inr ⟨_, _, _, _, update⟩

variable {op : FatOp}

theorem HasFile.step {directory index e : Nat} {name : CString}
    (hasFile : HasFile l d.img directory index e name) (sound : VolumeSound l d)
    (allowed : FatAllowed d op) (returned : fatStep l d op = some d')
    (kept : ¬ Removes l e d op) : HasFile l d'.img directory index e name := by
  have effect := fatStep_effect sound allowed returned
  have file := effect.keepsFile sound.wellFormed returned
    ⟨⟨directory, index, hasFile.reached, hasFile.slot⟩, hasFile.named.1⟩ kept
  have shown : nameOf d'.img e = nameOf d.img e :=
    nameOf_congr fun k below => file.bytes k (by omega)
  have named : Named d'.img name e := ⟨file.live, shown ▸ hasFile.named.2⟩
  rcases effect.slotUpdate sound.wellFormed with same | ⟨slot, old, new, clusters, update⟩
  · exact ⟨same ▸ hasFile.reached, same ▸ hasFile.slot, named⟩
  · exact ⟨(update.directory_iff sound.wellFormed).mpr hasFile.reached,
      (update.slotAt_eq sound.wellFormed hasFile.reached index).trans hasFile.slot, named⟩

structure NamesSound (l : Layout) (d : Driver) : Prop where
  volume : VolumeSound l d
  unique : NamesUnique l d.img

theorem NamesSound.step (sound : NamesSound l d) (allowed : NamesAllowed l d op) :
    ∃ d', fatStep l d op = some d' ∧ NamesSound l d' := by
  obtain ⟨d', returned, kept⟩ := fatStep_kept sound.volume allowed.fatAllowed
  have effect := fatStep_effect sound.volume allowed.fatAllowed returned
  exact ⟨d', returned, kept.sound, effect.namesUnique sound.volume sound.unique allowed⟩

variable {ops : List FatOp}

theorem NamesSound.run (sound : NamesSound l d)
    (admissible : AdmissiblePartial (fatStep l) (NamesAllowed l) d ops) :
    ∃ d', runPartial (fatStep l) d ops = some d' ∧ NamesSound l d' :=
  runPartial_invariant (NamesSound l) (fun _ _ holds allowed => holds.step allowed) sound admissible

theorem NamesSound.run_hasFile (sound : NamesSound l d)
    (hasFile : HasFile l d.img directory index e name)
    (admissible : AdmissiblePartial (fatStep l) (NamesAllowed l) d ops)
    (kept : AdmissiblePartial (fatStep l) (fun d op => ¬ Removes l e d op) d ops) :
    ∃ d', runPartial (fatStep l) d ops = some d' ∧ NamesSound l d' ∧
      HasFile l d'.img directory index e name := by
  induction ops generalizing d with
  | nil => exact ⟨d, rfl, sound, hasFile⟩
  | cons op ops ih =>
    obtain ⟨next, returned, nextSound⟩ := sound.step admissible.1
    have nextFile := hasFile.step sound.volume admissible.1.fatAllowed returned kept.1
    obtain ⟨d', finished, rest⟩ := ih nextSound nextFile (admissible.2 next returned)
      (kept.2 next returned)
    refine ⟨d', ?_, rest⟩
    rw [runPartial, returned]
    exact finished

/-- The file that `fat16_vfs_create` returns a node for. -/
theorem VolumeSound.created {d₁ : Driver}
    (sound : VolumeSound l d) (isDirectory : (nodeOf d ref).kind = .directory)
    (plain : fat16Make83 name ≠ none → PlainName name)
    (created : (fat16VfsCreate l d (nodeOf d ref) name).value = (some slot, d₁))
    (describes : (d₁.pool slot).ptr = some e) :
    ∃ index < maxDirSlots, HasFile l d₁.img (nodeOf d ref).impl index e name := by
  have reached := sound.directory isDirectory
  have wellFormed := sound.wellFormed
  rcases create_value wellFormed reached name with
    ⟨d', refused, -⟩ | ⟨field, free, index, fills, made⟩
  · rw [created] at refused
    simp at refused
  · have update := fills.slotUpdate wellFormed reached
    have plainName := plain (by simp [fills.fits])
    have image := (makeNode_same (l := l) { d with img := filled d.img free field } free name).1
    have inside := wellFormed.slot_inside update.isSlot
    rw [created] at made
    have entryIs : e = free := by
      rw [fat16MakeNode_value] at made
      cases chosen : chooseSlot { d with img := filled d.img free field } free with
      | none =>
        rw [chosen] at made
        simp at made
      | some choice =>
        obtain ⟨slot', nodeNext⟩ := choice
        rw [chosen, Prod.mk.injEq, Option.some.injEq] at made
        obtain ⟨rfl, rfl⟩ := made
        simp only [withNode, Function.update_self] at describes
        rw [(describe_value _ _ inside).1.ptr, Option.some.injEq] at describes
        exact describes.symm
    subst entryIs
    rw [← made] at image
    refine ⟨index, fills.bound, ?_, ?_, ?_⟩
    · rw [image]
      exact (update.directory_iff wellFormed).mpr reached
    · rw [image]
      exact (update.slotAt_eq wellFormed reached index).trans fills.found
    · rw [image]
      refine ⟨(filled_live_iff (fat16Make83_head fills.fits)).mpr
        ((plainName_iff fills.fits).mp plainName).1, ?_⟩
      rw [nameOf, slice_filled (fat16Make83_length fills.fits)]
      exact fat16NameEq_of_shown ((plainName_iff fills.fits).mp plainName).2

/-- Names identify files in every run that starts at a mounted image. -/
structure NamesIdentify (l : Layout) (img : Bytes) : Prop where
  distinct : ∀ ops, AdmissiblePartial (fatStep l) (NamesAllowed l) (mountedDriver img) ops →
    ∃ d, runPartial (fatStep l) (mountedDriver img) ops = some d ∧ NamesUnique l d.img
  found : ∀ ops ref name more d d₁ slot e,
    AdmissiblePartial (fatStep l) (NamesAllowed l) (mountedDriver img)
      (ops ++ .create ref name :: more) →
    runPartial (fatStep l) (mountedDriver img) ops = some d →
    (nodeOf d ref).kind = .directory →
    (fat16VfsCreate l d (nodeOf d ref) name).value = (some slot, d₁) →
    (d₁.pool slot).ptr = some e →
    AdmissiblePartial (fatStep l) (fun d op => ¬ Removes l e d op) d₁ more →
    ∃ d', runPartial (fatStep l) d₁ more = some d' ∧
      ∀ node, node.impl = (nodeOf d ref).impl → (∃ i < nodePool, d'.refs i = 0) →
        ∃ found d'', (fat16VfsFinddir l d' node name).value = (some found, d'') ∧
          (d''.pool found).ptr = some e

/-- Starting from a well-formed volume with distinct names, names identify files in
every run whose creations meet `CreateAllowed`. -/
theorem run_namesIdentify (wellFormed : WellFormed l img) (unique : NamesUnique l img) :
    NamesIdentify l img := by
  have initial : NamesSound l (mountedDriver img) := ⟨mountedDriver_sound wellFormed, unique⟩
  refine ⟨fun ops admissible => ?_, fun ops ref name more d d₁ slot e admissible reached isDirectory
    created describes kept => ?_⟩
  · obtain ⟨d, returned, sound⟩ := initial.run admissible
    exact ⟨d, returned, sound.unique⟩
  · obtain ⟨d', returned, sound⟩ := initial.run admissible.left
    rw [reached, Option.some.injEq] at returned
    subst returned
    obtain ⟨allowed, later⟩ := admissible.right reached
    have stepped : fatStep l d (.create ref name) = some d₁ := by
      simp only [fatStep, fatOp, value_map, isDirectory, if_true, created]
    obtain ⟨index, below, hasFile⟩ := sound.volume.created isDirectory
      (fun fits => (allowed isDirectory fits).1) created describes
    obtain ⟨next, returned, nextSound⟩ := sound.step allowed
    rw [stepped, Option.some.injEq] at returned
    subst returned
    obtain ⟨d', finished, sound', hasFile'⟩ := nextSound.run_hasFile hasFile (later d₁ stepped) kept
    refine ⟨d', finished, ?_⟩
    rintro node sameDirectory ⟨i, inPool, unheld⟩
    rw [← sameDirectory] at hasFile'
    exact sound'.volume.finddir_finds sound'.unique hasFile' below ⟨i, inPool, Or.inr unheld⟩

theorem namesUnique_zero (l : Layout) : NamesUnique l fun _ => 0 :=
  fun _ _ _ _ _ _ _ _ live => absurd rfl live.first_ne_zero

/-- A file that has been created is found under its name while it is open. -/
theorem run_namesIdentify_small :
    ∃ d₁ d' found d'',
      (fat16VfsCreate smallLayout (mountedDriver fun _ => 0) rootNode ⟨[0x61], by decide⟩).value =
        (some 0, d₁) ∧
      runPartial (fatStep smallLayout) d₁ [.openNode 0] = some d' ∧
      (fat16VfsFinddir smallLayout d' rootNode ⟨[0x61], by decide⟩).value = (some found, d'') ∧
      (d''.pool found).ptr = some 1024 := by
  have returnsNode : (fat16VfsCreate smallLayout (mountedDriver fun _ => 0) rootNode
      ⟨[0x61], by decide⟩).value.1 = some 0 := by decide +kernel
  obtain ⟨d₁, created, describes, unheld⟩ : ∃ d₁,
      (fat16VfsCreate smallLayout (mountedDriver fun _ => 0) rootNode ⟨[0x61], by decide⟩).value =
        (some 0, d₁) ∧ (d₁.pool 0).ptr = some 1024 ∧ d₁.refs 1 = 0 :=
    ⟨_, Prod.ext returnsNode rfl, by decide +kernel, by decide +kernel⟩
  have named : ∀ e, ¬ Named (fun _ => 0) ⟨[0x61], by decide⟩ e :=
    fun e named => named.1.first_ne_zero rfl
  obtain ⟨d', finished, found⟩ :=
    (run_namesIdentify (wellFormed_zero smallLayout) (namesUnique_zero smallLayout)).found []
      .root ⟨[0x61], by decide⟩ [.openNode 0] (mountedDriver fun _ => 0) d₁ 0 1024
      ⟨fun _ _ => ⟨⟨by decide, by decide, by decide, by decide⟩,
        fun _ e _ isNamed => absurd isNamed (named e)⟩, fun _ _ => ⟨trivial, fun _ _ => trivial⟩⟩
      rfl rfl created describes
      ⟨fun ⟨_, _, _, impossible, _⟩ => FatOp.noConfusion impossible, fun _ _ => trivial⟩
  have stillUnheld : d'.refs 1 = 0 := by
    simp only [runPartial, fatStep, fatOp, value_pure, Option.bind_some, Option.some.injEq] at finished
    subst finished
    split
    · simpa [fat16VfsOpen] using unheld
    · exact unheld
  obtain ⟨node, d'', returned, atEntry⟩ := found rootNode rfl ⟨1, by decide, stillUnheld⟩
  exact ⟨d₁, d', node, d'', created, finished, returned, atEntry⟩

def wideLayout : Layout where
  imgSize := 2048
  bytesPerSector := 512
  sectorsPerCluster := 1
  reservedSectors := 0
  numFats := 1
  rootEntries := 32
  sectorsPerFat := 1
  mountable := ⟨by decide, rfl, by decide, by decide, by decide, by decide, by decide, by decide⟩

/-- The names `a`, `b`, … -/
def letterName (i : Nat) : CString where
  chars := [0x61 + UInt8.ofNat (i % 26)]
  noNul := by
    have letters : ∀ k < 26, (0x61 + UInt8.ofNat k : UInt8) ≠ 0 := by decide
    simpa using (letters (i % 26) (Nat.mod_lt _ (by decide))).symm

/-- Create seventeen files, open the nodes of the last sixteen, and create the
first file again. -/
def poolExhausted : List FatOp :=
  (List.range 17).map (fun i => .create .root (letterName i)) ++
    (List.range 16).map .openNode ++ [.create .root (letterName 0)]

/-- With every node open the lookup in `fat16_vfs_create` misses the file that
exists. -/
theorem names_duplicated :
    WellFormed wideLayout (fun _ => 0) ∧ NamesUnique wideLayout (fun _ => 0) ∧
      ∃ d, runPartial (fatStep wideLayout) (mountedDriver fun _ => 0) poolExhausted = some d ∧
        ¬ NamesUnique wideLayout d.img := by
  refine ⟨wellFormed_zero wideLayout, namesUnique_zero wideLayout, ?_⟩
  have twice : (runPartial (fatStep wideLayout) (mountedDriver fun _ => 0) poolExhausted).any
      (fun d => decide (Live d.img 512 ∧ Live d.img 1056 ∧
        fat16NameEq (nameOf d.img 512) (nameOf d.img 1056) = true)) = true := by
    decide +kernel
  rw [Option.any_eq_true] at twice
  obtain ⟨d, finished, facts⟩ := twice
  obtain ⟨first, second, same⟩ := of_decide_eq_true facts
  refine ⟨d, finished, fun unique => ?_⟩
  have equal := unique 0 0 17 512 1056 .root (slotAt_root 0) (slotAt_root 17) first second same
  omega

end MiniOS.Fat16
