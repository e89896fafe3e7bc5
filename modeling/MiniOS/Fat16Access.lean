import MiniOS.Fat16Mount

/-!
# Accesses of the FAT16 driver to its image

Nothing is assumed here about the bytes of the image.  The offsets of directory
entries never leave it, because a directory is always scanned from its first
slot.  The offsets of file data stay inside when no cluster number of a chain
has its data at the end of the 32-bit range.
-/

namespace MiniOS.Fat16

open Function Machine PhysicalMemory TracedAccess Traced

variable {l : Layout} {img : Bytes} {d : Driver}

variable
  {size width off value index cluster directory e remaining logical slot rounds entry offset stop written : Nat}
  {node : Node} {x : Extension}

theorem rd_within (noWrap : off + width < 2 ^ 32) : (rd size img width off).Within size := by
  rw [rd, Nat.mod_eq_of_lt noWrap]
  refine within_ite (fun _ => within_pure _ _) fun inside => within_touch.mpr (Or.inr ?_)
  omega

theorem wr_within (noWrap : off + width < 2 ^ 32) : (wr size img width off value).Within size := by
  rw [wr, Nat.mod_eq_of_lt noWrap]
  refine within_ite (fun _ => within_pure _ _) fun inside => within_touch.mpr (Or.inr ?_)
  omega

theorem peek_within (inside : index < size) : (peek img index).Within size :=
  within_touch.mpr (Or.inr inside)

theorem fatStart_lt (l : Layout) : l.fatStart < 2 ^ 26 := by
  have size := l.imgSize_le
  have fits := l.dataStart_le
  have table := l.fatStart_add_le
  have root := l.rootStart_add_le
  omega

section Links

variable (small : cluster < 2 ^ 16)

include small

theorem fat16NextCluster_within : (fat16NextCluster l img cluster).Within l.imgSize := by
  have table := fatStart_lt l
  refine rd_within ?_
  rw [fat16FatOff_eq l small]
  omega

theorem fat16SetCluster_within : (fat16SetCluster l img cluster value).Within l.imgSize := by
  have table := fatStart_lt l
  refine wr_within ?_
  rw [fat16FatOff_eq l small]
  omega

variable {links : Nat}

theorem followLinks_within : (followLinks l img links cluster).Within l.imgSize := by
  induction links generalizing cluster with
  | zero => exact within_pure _ _
  | succ links ih =>
    refine within_bind.mpr ⟨fat16NextCluster_within small, within_ite (fun _ => within_pure _ _)
      fun _ => ih (fat16NextCluster_lt l img cluster)⟩

theorem followLinks_lt {last : Nat}
    (followed : (followLinks l img links cluster).value = some last) : last < 2 ^ 16 := by
  induction links generalizing cluster with
  | zero =>
    rw [followLinks, value_pure, Option.some.injEq] at followed
    exact followed ▸ small
  | succ links ih =>
    rw [followLinks, value_bind, value_ite, value_pure] at followed
    split at followed
    · cases followed
    · exact ih (fat16NextCluster_lt l img cluster) followed

end Links

/-- The entry at `e` lies in the image. -/
def InImage (l : Layout) (e : Nat) : Prop := e % 32 = 0 ∧ e + 32 ≤ l.imgSize

theorem fat16ClusterOff_mod (l : Layout) (cluster : Nat) : fat16ClusterOff l cluster % 512 = 0 := by
  rw [fat16ClusterOff, l.bytesPerSector_eq]
  omega

theorem fat16ClusterOff_le (l : Layout) (cluster : Nat) :
    fat16ClusterOff l cluster ≤ 2 ^ 32 - 512 := by
  have whole := fat16ClusterOff_mod l cluster
  have word : fat16ClusterOff l cluster < 2 ^ 32 := Nat.mod_lt _ (by decide)
  omega

/-- A scan that arrives at this slot has found the slot before it in the image. -/
def Approached (l : Layout) (img : Bytes) (directory index : Nat) : Prop :=
  directory = 0 ∨ index % (l.bytesPerCluster / 32) = 0 ∨
    ∃ previous e, index = previous + 1 ∧ slotAt l img directory previous = some e ∧ InImage l e

theorem approached_zero (l : Layout) (img : Bytes) (directory : Nat) :
    Approached l img directory 0 :=
  Or.inr (Or.inl (Nat.zero_mod _))

theorem Approached.next (found : slotAt l img directory index = some e)
    (inside : InImage l e) : Approached l img directory (index + 1) :=
  Or.inr (Or.inr ⟨index, e, rfl, found, inside⟩)

theorem slotAt_eq_some : slotAt l img directory index = some e ↔
      (slotOffset l img directory index).value = some e ∧ (e + 32) % 2 ^ 32 ≤ l.imgSize := by
  rw [slotAt, fat16EntryPtr, value_bind, value_pure, Option.filter_eq_some_iff, decide_eq_true_eq]

theorem slotOffset_value_of_ne (sub : directory ≠ 0) : (slotOffset l img directory index).value =
      (followLinks l img (index / (l.bytesPerCluster / 32)) directory).value.map fun cluster =>
        (fat16ClusterOff l cluster + index % (l.bytesPerCluster / 32) * 32) % 2 ^ 32 := by
  rw [slotOffset, if_neg sub, value_bind, value_pure]

/-- The slots of one cluster follow each other. -/
theorem slotOffset_succ {previous : Nat} (sub : directory ≠ 0)
    (inner : (previous + 1) % (l.bytesPerCluster / 32) ≠ 0)
    (found : (slotOffset l img directory previous).value = some off) :
    (slotOffset l img directory (previous + 1)).value = some ((off + 32) % 2 ^ 32) := by
  rw [slotOffset_value_of_ne sub] at found ⊢
  have sameCluster : (previous + 1) / (l.bytesPerCluster / 32) =
      previous / (l.bytesPerCluster / 32) :=
    Nat.succ_div_of_not_dvd fun divides => inner (Nat.mod_eq_zero_of_dvd divides)
  have nextSlot : (previous + 1) % (l.bytesPerCluster / 32) =
      previous % (l.bytesPerCluster / 32) + 1 := by
    have whole := Nat.div_add_mod previous (l.bytesPerCluster / 32)
    have whole' := Nat.div_add_mod (previous + 1) (l.bytesPerCluster / 32)
    rw [sameCluster] at whole'
    omega
  rw [Option.map_eq_some_iff] at found ⊢
  obtain ⟨cluster, followed, rfl⟩ := found
  refine ⟨cluster, by rw [sameCluster]; exact followed, ?_⟩
  rw [nextSlot, Nat.mod_add_mod]
  congr 1
  ring

theorem slotAt_inImage (approached : Approached l img directory index)
    (found : slotAt l img directory index = some e) : InImage l e := by
  have size := l.imgSize_le
  obtain ⟨offset, fits⟩ := slotAt_eq_some.mp found
  by_cases root : directory = 0
  · have bound := l.rootStart_add_le
    have data := l.dataStart_le
    rw [slotOffset, if_pos root, value_ite, value_pure, value_pure] at offset
    split at offset
    · cases offset
    · case isFalse inTable =>
      rw [l.bytesPerSector_eq, ← Layout.rootStart, Option.some.injEq] at offset
      have start : l.rootStart % 512 = 0 := Nat.mul_mod_left _ _
      refine ⟨by omega, by omega⟩
  · by_cases aligned : index % (l.bytesPerCluster / 32) = 0
    · -- the first slot of a cluster begins a sector
      rw [slotOffset_value_of_ne root, aligned, Option.map_eq_some_iff] at offset
      obtain ⟨cluster, -, rfl⟩ := offset
      have whole := fat16ClusterOff_mod l cluster
      have word := fat16ClusterOff_le l cluster
      rw [Nat.zero_mul, Nat.add_zero] at fits ⊢
      exact ⟨by omega, by omega⟩
    · obtain ⟨previous, before, rfl, foundBefore, multiple, below⟩ :=
        (approached.resolve_left root).resolve_left aligned
      have following := slotOffset_succ root aligned (slotAt_eq_some.mp foundBefore).1
      rw [following, Option.some.injEq] at offset
      exact ⟨by omega, by omega⟩

theorem fat16EntryPtr_within (small : directory < 2 ^ 16) :
    (fat16EntryPtr l img directory index).Within l.imgSize := by
  refine within_bind.mpr ⟨?_, within_pure _ _⟩
  refine within_ite (fun _ => within_ite (fun _ => within_pure _ _) fun _ => within_pure _ _)
    fun _ => within_bind.mpr ⟨followLinks_within small, within_pure _ _⟩

variable (inside : InImage l e)

include inside

theorem InImage.fat16EntryKind : (fat16EntryKind img e).Within l.imgSize := by
  have fits := inside.2
  refine within_bind.mpr ⟨peek_within (by omega), within_ite (fun _ => within_pure _ _) fun _ =>
    within_ite (fun _ => within_pure _ _) fun _ => within_bind.mpr ⟨peek_within (by omega), ?_⟩⟩
  simp only [← apply_ite, within_pure]

theorem InImage.entryName : (entryName img e).Within l.imgSize :=
  within_touch.mpr (Or.inr (by have fits := inside.2; omega))

theorem InImage.rd (inEntry : off + width ≤ 32) :
    (rd l.imgSize img width (e + off)).Within l.imgSize := by
  have size := l.imgSize_le
  have fits := inside.2
  exact rd_within (by omega)

theorem InImage.wr (inEntry : off + width ≤ 32) :
    (wr l.imgSize img width (e + off) value).Within l.imgSize := by
  have size := l.imgSize_le
  have fits := inside.2
  exact wr_within (by omega)

theorem describe_within {name : CString} : (describe l img e name).Within l.imgSize := by
  have fits := inside.2
  refine within_bind.mpr ⟨inside.rd (by omega), within_bind.mpr ⟨peek_within (by omega), ?_⟩⟩
  exact within_ite (fun _ => within_pure _ _) fun _ =>
    within_bind.mpr ⟨inside.rd (by omega), within_pure _ _⟩

theorem fillSlot_within {field : List UInt8} : (fillSlot l img e field).Within l.imgSize := by
  have fits := inside.2
  refine within_bind.mpr ⟨within_touch.mpr (Or.inr fits), within_bind.mpr
    ⟨within_touch.mpr (Or.inr (by omega)), within_bind.mpr
      ⟨within_touch.mpr (Or.inr (by omega)), within_bind.mpr ⟨inside.wr (by omega), ?_⟩⟩⟩⟩
  exact inside.wr (by omega)

omit inside

theorem describe_fields (l : Layout) (img : Bytes) (e : Nat) (name : CString) :
    (describe l img e name).value.impl < 2 ^ 16 ∧ (describe l img e name).value.ptr = some e := by
  have small : (rd16 l.imgSize img (e + 26)).value < 2 ^ 16 := rd_value_lt l img 2 _
  rw [describe, value_bind, value_bind, value_ite, value_pure, value_bind, value_pure]
  split <;> exact ⟨small, rfl⟩

theorem chainValidLoop_within {steps : Nat} :
    (chainValidLoop l img steps cluster).Within l.imgSize := by
  induction steps generalizing cluster with
  | zero => exact within_pure _ _
  | succ steps ih =>
    refine within_ite (fun _ => within_pure _ _) fun valid => within_bind.mpr
      ⟨fat16NextCluster_within ?_, within_ite (fun _ => within_pure _ _) fun _ => ih⟩
    exact (l.clusterValid_iff.mp (not_not.mp valid)).lt_word

theorem freeChain_within : (freeChain l rounds img cluster).Within l.imgSize := by
  induction rounds generalizing img cluster with
  | zero => exact within_pure _ _
  | succ rounds ih =>
    refine within_ite (fun valid => ?_) fun _ => within_pure _ _
    have small := (l.clusterValid_iff.mp valid).lt_word
    exact within_bind.mpr ⟨fat16NextCluster_within small, within_bind.mpr
      ⟨fat16SetCluster_within small, within_ite (fun _ => within_pure _ _) fun _ => ih⟩⟩

section Scans

variable (small : directory < 2 ^ 16) (approached : Approached l img directory logical)

include small approached

theorem readdirLoop_within {found : Nat} :
    (readdirLoop l img directory index remaining logical found).Within l.imgSize := by
  induction remaining generalizing logical found with
  | zero => exact within_pure _ _
  | succ remaining ih =>
    refine within_bind.mpr ⟨fat16EntryPtr_within small, ?_⟩
    cases atSlot : (fat16EntryPtr l img directory logical).value with
    | none => exact within_pure _ _
    | some e =>
      have inside := slotAt_inImage approached atSlot
      refine within_bind.mpr ⟨inside.fat16EntryKind, ?_⟩
      cases (fat16EntryKind img e).value with
      | stop => exact within_pure _ _
      | skip => exact ih (.next atSlot inside)
      | live =>
        refine within_ite (fun _ => within_bind.mpr ⟨inside.entryName, ?_⟩) fun _ =>
          ih (.next atSlot inside)
        exact within_bind.mpr ⟨inside.rd (by omega), within_pure _ _⟩

theorem findEntry_within (name : CString) (remaining : Nat) :
    (findEntry l img directory name remaining logical).Ensures l.imgSize
      fun result => ∀ found ∈ result, InImage l found.1 := by
  induction remaining generalizing logical with
  | zero => exact ensures_pure (by simp)
  | succ remaining ih =>
    refine ensures_bind (fat16EntryPtr_within small) ?_
    cases atSlot : (fat16EntryPtr l img directory logical).value with
    | none => exact ensures_pure (by simp)
    | some e =>
      have inside := slotAt_inImage approached atSlot
      have rest := ih (.next atSlot inside)
      refine ensures_bind inside.fat16EntryKind ?_
      cases (fat16EntryKind img e).value with
      | stop => exact ensures_pure (by simp)
      | skip => exact rest
      | live =>
        refine ensures_bind inside.entryName (ensures_ite (fun _ => ensures_pure ?_) fun _ => rest)
        rintro found ⟨⟩
        exact inside

theorem freeSlotLoop_within (remaining : Nat) :
    (freeSlotLoop l img directory remaining logical).Ensures l.imgSize
      fun result => ∀ slot ∈ result, InImage l slot := by
  induction remaining generalizing logical with
  | zero => exact ensures_pure (by simp)
  | succ remaining ih =>
    refine ensures_bind (fat16EntryPtr_within small) ?_
    cases atSlot : (fat16EntryPtr l img directory logical).value with
    | none => exact ensures_pure (by simp)
    | some e =>
      have inside := slotAt_inImage approached atSlot
      have fits := inside.2
      refine ensures_bind (peek_within (by omega)) (ensures_ite (fun _ => ensures_pure ?_) fun _ =>
        ih (.next atSlot inside))
      rintro slot ⟨⟩
      exact inside

end Scans

/-- Every node describes an entry in the image and holds a 16-bit cluster number. -/
structure PoolInImage (l : Layout) (d : Driver) : Prop where
  impl_lt : ∀ i, (d.pool i).impl < 2 ^ 16
  ptr : ∀ i e, (d.pool i).ptr = some e → InImage l e

theorem poolInImage_mounted (l : Layout) (img : Bytes) : PoolInImage l (mountedDriver img) :=
  ⟨fun _ => Nat.two_pow_pos 16, fun _ _ describes => by cases describes⟩

section Pool

variable {d' : Driver} (pool : PoolInImage l d)

include pool

theorem PoolInImage.nodeOf_lt (ref : NodeRef) : (nodeOf d ref).impl < 2 ^ 16 := by
  cases ref with
  | root => exact Nat.two_pow_pos 16
  | pool slot => exact pool.impl_lt slot

theorem PoolInImage.update (changed : d'.pool = update d.pool slot node)
    (impl_lt : node.impl < 2 ^ 16) (ptr : ∀ e, node.ptr = some e → InImage l e) : PoolInImage l d' := by
  refine ⟨fun i => ?_, fun i e describes => ?_⟩
  · rw [changed]
    by_cases same : i = slot
    · rwa [same, update_self]
    · rw [update_of_ne same]
      exact pool.impl_lt i
  · rw [changed] at describes
    by_cases same : i = slot
    · rw [same, update_self] at describes
      exact ptr e describes
    · rw [update_of_ne same] at describes
      exact pool.ptr i e describes

theorem PoolInImage.of_same (same : d'.pool = d.pool) : PoolInImage l d' :=
  ⟨fun i => same ▸ pool.impl_lt i, fun i e describes => pool.ptr i e (same ▸ describes)⟩

theorem PoolInImage.makeNode (name : CString) (inside : InImage l e) :
    (fat16MakeNode l d e name).Ensures l.imgSize fun result => PoolInImage l result.2 := by
  rw [fat16MakeNode]
  cases chooseSlot d e with
  | none => exact ensures_pure pool
  | some chosen =>
    obtain ⟨small, describes⟩ := describe_fields l d.img e name
    refine ensures_bind (describe_within inside) (ensures_pure
      (pool.update rfl small fun e' same => ?_))
    rw [describes, Option.some.injEq] at same
    exact same ▸ inside

variable (small : node.impl < 2 ^ 16)

include small

theorem PoolInImage.finddir (name : CString) :
    (fat16VfsFinddir l d node name).Ensures l.imgSize fun result => PoolInImage l result.2 := by
  obtain ⟨within, inside⟩ := findEntry_within small (approached_zero l d.img _) name maxDirSlots
  refine ensures_bind within ?_
  cases found : (findEntry l d.img node.impl name maxDirSlots 0).value with
  | none => exact ensures_pure pool
  | some entry => exact pool.makeNode entry.2 (inside entry found)

theorem PoolInImage.create (name : CString) :
    (fat16VfsCreate l d node name).Ensures l.imgSize fun result => PoolInImage l result.2 := by
  rw [fat16VfsCreate]
  cases fat16Make83 name with
  | none => exact ensures_pure pool
  | some field =>
    obtain ⟨searched, kept⟩ := pool.finddir small name
    refine ensures_bind searched ?_
    generalize (fat16VfsFinddir l d node name).value = result at kept ⊢
    obtain ⟨existing, d'⟩ := result
    refine ensures_ite (fun _ => ensures_pure kept) fun _ => ?_
    obtain ⟨scanned, inside⟩ :=
      freeSlotLoop_within small (approached_zero l d'.img _) maxDirSlots
    refine ensures_bind scanned ?_
    rw [fat16FreeSlot]
    cases free : (freeSlotLoop l d'.img node.impl maxDirSlots 0).value with
    | none => exact ensures_pure kept
    | some slot =>
      have slotInside := inside slot free
      have filledPool : PoolInImage l { d' with img := (fillSlot l d'.img slot field).value } :=
        kept.of_same rfl
      exact ensures_bind (fillSlot_within slotInside) (filledPool.makeNode name slotInside)

theorem PoolInImage.unlink (rounds : Nat) (name : CString) :
    (fat16VfsUnlink l rounds d node name).Ensures l.imgSize
      fun outcome => ∀ result ∈ outcome, PoolInImage l result.2 := by
  obtain ⟨searched, inside⟩ := findEntry_within small (approached_zero l d.img _) name maxDirSlots
  have unchanged : (pure (some (false, d)) : Traced (Option (Bool × Driver))).Ensures l.imgSize
      fun outcome => ∀ result ∈ outcome, PoolInImage l result.2 := by
    refine ensures_pure ?_
    rintro result ⟨⟩
    exact pool
  refine ensures_bind searched ?_
  cases found : (findEntry l d.img node.impl name maxDirSlots 0).value with
  | none => exact unchanged
  | some entry =>
    have entryInside := inside entry found
    have fits := entryInside.2
    refine ensures_bind (peek_within (by omega)) (ensures_ite (fun _ => unchanged) fun _ =>
      ensures_ite (fun _ => unchanged) fun _ => ensures_bind (entryInside.rd (by omega))
        (ensures_bind (within_ite (fun _ => within_pure _ _) fun _ => chainValidLoop_within)
          (ensures_ite (fun _ => unchanged) fun _ => ensures_bind freeChain_within ?_)))
    split
    · exact ensures_pure (by simp)
    · refine ensures_bind (within_touch.mpr (Or.inr (by omega))) (ensures_pure ?_)
      rintro result ⟨⟩
      exact pool.of_same rfl

end Pool

/-- No cluster number that a chain can hold has its data at the end of the 32-bit
range. -/
def AddressesFit (l : Layout) : Prop :=
  ∀ cluster, 2 ≤ cluster → cluster < eoc → fat16ClusterOff l cluster + l.bytesPerCluster < 2 ^ 32

/-- With few sectors to a cluster no address wraps around. -/
theorem addressesFit_of_le (few : l.sectorsPerCluster ≤ 64) : AddressesFit l := by
  intro cluster two below
  have size := l.imgSize_le
  have data := l.dataStart_le
  have short : (cluster - 2) * l.sectorsPerCluster ≤ 65536 * 64 :=
    Nat.mul_le_mul (by unfold eoc at below; omega) few
  have number : (2 ^ 32 - 2 + cluster) % 2 ^ 32 = cluster - 2 := by
    unfold eoc at below
    omega
  rw [fat16ClusterOff, fat16ClusterLba, number, l.bytesPerSector_eq, Parameters.bytesPerCluster,
    l.bytesPerSector_eq]
  rw [Layout.dataStart] at data
  generalize (cluster - 2) * l.sectorsPerCluster = sectors at short ⊢
  omega

theorem allocLoop_within (two : 2 ≤ cluster)
    (bound : cluster + remaining ≤ l.maxCluster ∨ remaining = 0) :
    (allocLoop l img remaining cluster).Within l.imgSize := by
  induction remaining generalizing cluster with
  | zero => exact within_pure _ _
  | succ remaining ih =>
    have usable : l.Usable cluster := ⟨two, by omega⟩
    refine within_bind.mpr ⟨fat16NextCluster_within usable.lt_word, within_ite (fun _ =>
      within_bind.mpr ⟨fat16SetCluster_within usable.lt_word, within_ite (fun _ => ?_) fun _ =>
        within_pure _ _⟩) fun _ => ih (by omega) (by omega)⟩
    rw [fat16ClusterOff_usable usable]
    exact within_touch.mpr (Or.inr usable.clusterEnd_le)

theorem fat16AllocCluster_within (l : Layout) (img : Bytes) :
    (fat16AllocCluster l img).Within l.imgSize :=
  allocLoop_within (by omega) (by omega)

theorem fat16AllocCluster_lt (l : Layout) (img : Bytes) :
    (fat16AllocCluster l img).value.1 < 2 ^ 16 := by
  have allocated := fat16AllocCluster_value l img
  generalize (fat16AllocCluster l img).value = result at allocated
  cases allocated with
  | full none => exact Nat.two_pow_pos 16
  | claimed usable free => exact usable.lt_word

/-- The variables of a write that extends a chain are 16-bit cluster numbers. -/
structure Extension.Small (x : Extension) : Prop where
  cluster : x.cluster < 2 ^ 16
  firstNew : x.firstNew < 2 ^ 16
  newParent : x.newParent < 2 ^ 16

theorem firstOrAlloc_within (img : Bytes) (inside : InImage l entry) :
    (firstOrAlloc l img entry).Ensures l.imgSize
      fun result => ∀ start ∈ result, start.1 < 2 ^ 16 ∧ start.2.Small := by
  have small : (rd16 l.imgSize img (entry + 26)).value < 2 ^ 16 := rd_value_lt l img 2 _
  have allocated := fat16AllocCluster_lt l img
  refine ensures_bind (inside.rd (by omega)) (ensures_ite (fun _ =>
    ensures_bind (fat16AllocCluster_within l img) (ensures_ite (fun _ => ensures_pure (by simp))
      fun _ => ensures_bind (inside.wr (by omega)) (ensures_pure ?_))) fun _ => ensures_pure ?_)
  · rintro start ⟨⟩
    exact ⟨allocated, allocated, allocated, Nat.two_pow_pos 16⟩
  · rintro start ⟨⟩
    exact ⟨small, small, Nat.two_pow_pos 16, Nat.two_pow_pos 16⟩

theorem extendLoop_within {missing : Nat} (small : x.Small) :
    (extendLoop l missing x).Ensures l.imgSize Extension.Small := by
  induction missing generalizing x with
  | zero => exact ensures_pure small
  | succ missing ih =>
    have next := fat16NextCluster_lt l x.img x.cluster
    have allocated := fat16AllocCluster_lt l x.img
    refine ensures_bind (fat16NextCluster_within small.cluster) (ensures_ite (fun _ =>
      ensures_bind (fat16AllocCluster_within l x.img) ?_) fun _ =>
        ih ⟨next, small.firstNew, small.newParent⟩)
    generalize (fat16AllocCluster l x.img).value = result at allocated
    refine ensures_ite (fun _ => ensures_pure { small with })
      fun _ => ensures_bind (fat16SetCluster_within small.cluster) (ih ⟨allocated, ?_, ?_⟩)
    · dsimp only
      split
      · exact allocated
      · exact small.firstNew
    · dsimp only
      split
      · exact small.cluster
      · exact small.newParent

variable {cl : Nat} {buffer : Nat → UInt8}

/-- The part of a cluster that a write stores to does not pass its end. -/
theorem copyCluster_within (fit : AddressesFit l) (ordered : offset < stop) (word : stop < 2 ^ 32)
    (two : 2 ≤ cluster)
    (below : cluster < eoc) :
    (copyCluster l offset stop buffer cl img cluster written).Within l.imgSize := by
  have range := fit cluster two below
  have large := l.bytesPerCluster_le
  rw [copyCluster]
  have start : cl * l.bytesPerCluster % 2 ^ 32 < 2 ^ 32 := Nat.mod_lt _ (by decide)
  generalize cl * l.bytesPerCluster % 2 ^ 32 = clusterStart at start
  refine within_ite (fun overlaps => within_ite (fun fits => within_touch.mpr ?_) fun _ =>
    within_pure _ _) fun _ => within_pure _ _
  rw [Nat.mod_eq_of_lt (a := fat16ClusterOff l cluster + _) (by omega)] at fits ⊢
  rw [Nat.mod_eq_of_lt (by omega)] at fits
  exact Or.inr fits

theorem copyLoop_within (fit : AddressesFit l) (ordered : offset < stop) (word : stop < 2 ^ 32)
    (small : cluster < 2 ^ 16) :
    (copyLoop l offset stop buffer remaining cl img cluster written).Within l.imgSize := by
  induction remaining generalizing cl img cluster written with
  | zero => exact within_pure _ _
  | succ remaining ih =>
    refine within_ite (fun _ => within_pure _ _) fun _ => within_ite (fun _ => within_pure _ _)
      fun inChain => ?_
    refine within_bind.mpr ⟨copyCluster_within fit ordered word (by omega) (by omega), ?_⟩
    exact within_ite (fun _ => within_bind.mpr ⟨within_pure _ _, ih small⟩) fun _ =>
      within_bind.mpr ⟨fat16NextCluster_within small, ih (fat16NextCluster_lt ..)⟩

theorem rollbackLoop_within {count : Nat} :
    (rollbackLoop l count img cluster).Within l.imgSize := by
  induction count generalizing img cluster with
  | zero => exact within_pure _ _
  | succ count ih =>
    refine within_ite (fun usable => ?_) fun _ => within_pure _ _
    have small := Layout.Usable.lt_word (l := l) usable
    exact within_bind.mpr ⟨fat16NextCluster_within small, within_bind.mpr
      ⟨fat16SetCluster_within small, ih⟩⟩

theorem rollback_within (small : x.Small)
    (inside : InImage l entry) : (rollback l x entry).Within l.imgSize :=
  within_ite (fun _ => within_pure _ _) fun _ => within_bind.mpr
    ⟨within_ite (fun _ => fat16SetCluster_within small.newParent) fun _ => inside.wr (by omega),
      rollbackLoop_within⟩

variable {first : Nat}

theorem finishWrite_within (small : x.Small) (inside : InImage l entry) :
    (finishWrite l d slot entry first offset written x).Within l.imgSize :=
  within_ite (fun _ => within_bind.mpr ⟨rollback_within small inside, within_pure _ _⟩) fun _ =>
    within_bind.mpr ⟨inside.rd (by omega), within_ite (fun _ => within_bind.mpr
      ⟨inside.wr (by omega), within_pure _ _⟩) fun _ => within_pure _ _⟩

theorem PoolInImage.finishWrite (pool : PoolInImage l d) (small : first < 2 ^ 16) :
    PoolInImage l (finishWrite l d slot entry first offset written x).value.2 := by
  have impl := pool.impl_lt slot
  have zero : 0 < 2 ^ 16 := by decide
  rw [Fat16.finishWrite, value_ite]
  split
  · refine pool.update rfl ?_ (pool.ptr slot)
    dsimp only
    split <;> assumption
  · simp only [value_bind, value_ite, value_pure]
    split <;>
    · refine pool.update rfl ?_ (pool.ptr slot)
      dsimp only
      split <;> assumption

theorem PoolInImage.write (pool : PoolInImage l d) (slot offset size : Nat)
    (buffer : Option (Nat → UInt8)) :
    (AddressesFit l → (fat16VfsWrite l d slot offset size buffer).Within l.imgSize) ∧
      PoolInImage l (fat16VfsWrite l d slot offset size buffer).value.2 := by
  have refused : (AddressesFit l → (pure (0, d) : Traced (Nat × Driver)).Within l.imgSize) ∧
      PoolInImage l (pure (0, d) : Traced (Nat × Driver)).value.2 :=
    ⟨fun _ => within_pure _ _, pool⟩
  unfold fat16VfsWrite
  cases described : (d.pool slot).ptr with
  | none => exact refused
  | some entry =>
    cases buffer with
    | none => exact refused
    | some buffer =>
      have inside := pool.ptr slot entry described
      dsimp only
      split
      · exact refused
      split
      · exact refused
      split
      · exact refused
      obtain ⟨started, small⟩ := firstOrAlloc_within d.img inside
      rw [writeFile, value_bind]
      cases start : (firstOrAlloc l d.img entry).value with
      | none =>
        refine ⟨fun _ => within_bind.mpr ⟨started, ?_⟩, pool⟩
        rw [start]
        exact within_pure _ _
      | some pair =>
        obtain ⟨firstSmall, extensionSmall⟩ := small pair start
        obtain ⟨extended, newSmall⟩ := extendLoop_within (l := l) extensionSmall
        refine ⟨fun fit => within_bind.mpr ⟨started, ?_⟩, pool.finishWrite firstSmall⟩
        rw [start]
        refine within_bind.mpr ⟨extended, within_bind.mpr
          ⟨copyLoop_within fit (by omega) (by omega) firstSmall, finishWrite_within ?_ inside⟩⟩
        exact { newSmall with }

theorem readLoop_within (fit : AddressesFit l) {pos : Nat}
    {copied : List UInt8} (small : cluster < 2 ^ 16) (inCluster : pos < l.bytesPerCluster) :
    (readLoop l img size rounds cluster pos copied).Within l.imgSize := by
  have positive := l.le_bytesPerCluster
  induction rounds generalizing cluster pos copied with
  | zero => exact within_pure _ _
  | succ rounds ih =>
    refine within_ite (fun continues => ?_) fun _ => within_pure _ _
    have range := fit cluster continues.2.1 continues.2.2
    refine within_bind.mpr ⟨within_touch.mpr ?_, ?_⟩
    · rw [Nat.mod_eq_of_lt (a := fat16ClusterOff l cluster + pos) (by omega)]
      rw [Nat.mod_eq_of_lt (by omega)]
      split <;> omega
    · exact within_ite
        (fun _ => within_bind.mpr
          ⟨fat16NextCluster_within small, ih (fat16NextCluster_lt ..) (by omega)⟩)
        fun _ => within_bind.mpr ⟨within_pure _ _, ih small (by omega)⟩

theorem fat16VfsRead_within (fit : AddressesFit l) (small : node.impl < 2 ^ 16) :
    (fat16VfsRead l rounds img node offset size).Within l.imgSize := by
  have positive := l.le_bytesPerCluster
  refine within_ite (fun _ => within_pure _ _) fun _ => within_bind.mpr
    ⟨followLinks_within small, ?_⟩
  cases start : (followLinks l img (offset / l.bytesPerCluster) node.impl).value with
  | none => exact within_pure _ _
  | some cluster =>
    exact readLoop_within fit (followLinks_lt small start) (Nat.mod_lt _ (by omega))

end MiniOS.Fat16
