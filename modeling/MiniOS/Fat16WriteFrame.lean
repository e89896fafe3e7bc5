import MiniOS.Fat16Calls

/-!
# What a FAT16 write may change

`fat16_vfs_write` follows the cluster numbers it finds without checking them.
When those it follows are usable clusters, it changes only table entries and
data of usable clusters and the entry of the file; otherwise the table entry of
a cluster number can lie in the root directory.
-/

namespace MiniOS.Fat16

open Machine PhysicalMemory TracedAccess Traced

variable {l : Layout} {img img' : Bytes} {d : Driver} {entry : Nat}

/-- The bytes that a write to the file with this entry may change: table entries
and data of usable clusters, and the fields for the first cluster and the size. -/
def MayChange (l : Layout) (entry index : Nat) : Prop :=
  (∃ cluster, l.Usable cluster ∧ (InTable l cluster index ∨ InCluster l cluster index)) ∨
    entry + 26 ≤ index ∧ index < entry + 32

def Confined (l : Layout) (entry : Nat) (img img' : Bytes) : Prop :=
  ∀ index, ¬ MayChange l entry index → img' index = img index

theorem Confined.refl (l : Layout) (entry : Nat) (img : Bytes) : Confined l entry img img :=
  fun _ _ => rfl

variable {img'' : Bytes} {cluster count offset stop slot : Nat} {x : Extension}

theorem Confined.trans (first : Confined l entry img img')
    (second : Confined l entry img' img'') : Confined l entry img img'' :=
  fun index kept => (second index kept).trans (first index kept)

variable {index : Nat}

theorem avoids_of_not_mayChange (usable : l.Usable cluster)
    (kept : ¬ MayChange l entry index) : Avoids l [cluster] index := by
  intro other member
  rw [List.mem_singleton] at member
  subst member
  exact ⟨fun table => kept (Or.inl ⟨other, usable, Or.inl table⟩),
    fun data => kept (Or.inl ⟨other, usable, Or.inr data⟩)⟩

theorem confined_setEntry (usable : l.Usable cluster) (value : Nat) :
    Confined l entry img (setEntry l img cluster value) :=
  fun _ kept => setEntry_of_not_inTable (avoids_of_not_mayChange usable kept cluster (by simp)).1

theorem confined_claimCluster (usable : l.Usable cluster) :
    Confined l entry img (claimCluster l img cluster) :=
  fun _ kept => claimCluster_of_avoids (avoids_of_not_mayChange usable kept)

variable {width off : Nat}

theorem confined_setField (first : 26 ≤ off) (last : off + width ≤ 32)
    (value : Nat) : Confined l entry img (setField img width (entry + off) value) := by
  intro index kept
  refine setField_of_outside ?_
  by_contra inside
  exact kept (Or.inr (by omega))

theorem setCluster_confined (usable : l.Usable cluster) (value : Nat) :
    Confined l entry img (fat16SetCluster l img cluster value).value := by
  rw [fat16SetCluster_usable _ usable]
  exact confined_setEntry usable value

theorem wr_confined (inside : InImage l entry) (first : 26 ≤ off)
    (last : off + width ≤ 32) (value : Nat) :
    Confined l entry img (wr l.imgSize img width (entry + off) value).value := by
  have fits := inside.2
  rw [wr_value l img (by omega)]
  exact confined_setField first last value

/-- The first clusters of a chain, as far as it goes, are usable. -/
def UsableWalk (l : Layout) (img : Bytes) : (count cluster : Nat) → Prop
  | 0, _ => True
  | count + 1, cluster =>
    l.Usable cluster ∧ (fatEntry l img cluster < 2 ∨ eoc ≤ fatEntry l img cluster ∨
      UsableWalk l img count (fatEntry l img cluster))

instance UsableWalk.decidable (l : Layout) (img : Bytes) :
    ∀ count cluster, Decidable (UsableWalk l img count cluster)
  | 0, _ => isTrue trivial
  | count + 1, cluster =>
    haveI := UsableWalk.decidable l img count (fatEntry l img cluster)
    inferInstanceAs (Decidable (_ ∧ _))

theorem UsableWalk.congr (walk : UsableWalk l img count cluster)
    (same : ∀ other, l.Usable other → fatEntry l img' other = fatEntry l img other) :
    UsableWalk l img' count cluster := by
  induction count generalizing cluster with
  | zero => trivial
  | succ count ih =>
    refine ⟨walk.1, ?_⟩
    rw [same cluster walk.1]
    exact walk.2.imp id (Or.imp id ih)

/-- The table `img'` agrees with `img`, except for links to clusters that were
`fresh`ly allocated; those lead to each other or end a chain. -/
structure Relinked (l : Layout) (img img' : Bytes) (fresh : Nat → Prop) : Prop where
  usable : ∀ cluster, fresh cluster → l.Usable cluster
  closed : ∀ cluster, fresh cluster →
    eoc ≤ fatEntry l img' cluster ∨ fresh (fatEntry l img' cluster)
  other : ∀ cluster, l.Usable cluster → ¬ fresh cluster →
    fatEntry l img' cluster = fatEntry l img cluster ∨ fresh (fatEntry l img' cluster)

namespace Relinked

variable {fresh : Nat → Prop}

theorem refl (l : Layout) (img : Bytes) : Relinked l img img fun _ => False :=
  ⟨fun _ impossible => impossible.elim, fun _ impossible => impossible.elim,
    fun _ _ _ => Or.inl rfl⟩

theorem walk_fresh (relinked : Relinked l img img' fresh)
    (isFresh : fresh cluster) : UsableWalk l img' count cluster := by
  induction count generalizing cluster with
  | zero => trivial
  | succ count ih =>
    exact ⟨relinked.usable cluster isFresh, Or.inr ((relinked.closed cluster isFresh).imp id ih)⟩

theorem walk (relinked : Relinked l img img' fresh)
    (before : UsableWalk l img count cluster) : UsableWalk l img' count cluster := by
  induction count generalizing cluster with
  | zero => trivial
  | succ count ih =>
    by_cases isFresh : fresh cluster
    · exact relinked.walk_fresh isFresh
    · refine ⟨before.1, ?_⟩
      rcases relinked.other cluster before.1 isFresh with same | toFresh
      · rw [same]
        exact before.2.imp id (Or.imp id ih)
      · exact Or.inr (Or.inr (relinked.walk_fresh toFresh))

theorem trans {later : Nat → Prop} (first : Relinked l img img' fresh)
    (second : Relinked l img' img'' later) :
    Relinked l img img'' fun cluster => fresh cluster ∨ later cluster := by
  refine ⟨fun cluster isFresh => isFresh.elim (first.usable cluster) (second.usable cluster),
    fun cluster isFresh => ?_, fun cluster isUsable notFresh => ?_⟩
  · by_cases isLater : later cluster
    · exact (second.closed cluster isLater).imp id Or.inr
    · have older := isFresh.resolve_right isLater
      rcases second.other cluster (first.usable cluster older) isLater with same | toLater
      · rw [same]
        exact (first.closed cluster older).imp id Or.inl
      · exact Or.inr (Or.inr toLater)
  · rw [not_or] at notFresh
    rcases second.other cluster isUsable notFresh.2 with same | toLater
    · rw [same]
      exact (first.other cluster isUsable notFresh.1).imp id Or.inl
    · exact Or.inr (Or.inr toLater)

/-- A cluster is claimed and its number stored where it is linked from: in the table
entry of a usable cluster, or anywhere else. -/
theorem claim (relinked : Relinked l img img' fresh) {claimed : Nat} (usable : l.Usable claimed)
    (entries : ∀ cluster, l.Usable cluster →
      fatEntry l img'' cluster = fatEntry l (claimCluster l img' claimed) cluster ∨
        fatEntry l img'' cluster = claimed) :
    Relinked l img img'' fun cluster => fresh cluster ∨ cluster = claimed := by
  have kept : ∀ cluster, l.Usable cluster → cluster ≠ claimed →
      fatEntry l img'' cluster = fatEntry l img' cluster ∨ fatEntry l img'' cluster = claimed :=
    fun cluster isUsable different => (entries cluster isUsable).imp_left fun same =>
      same.trans (fatEntry_claimCluster_of_ne isUsable different)
  refine ⟨?_, ?_, ?_⟩
  · rintro cluster (isFresh | rfl)
    · exact relinked.usable cluster isFresh
    · exact usable
  · intro cluster isFresh
    by_cases same : cluster = claimed
    · subst same
      rcases entries cluster usable with ended | toItself
      · rw [ended, fatEntry_claimCluster usable]
        exact Or.inl (by decide)
      · exact Or.inr (Or.inr toItself)
    · have older := isFresh.resolve_right same
      rcases kept cluster (relinked.usable cluster older) same with unchanged | toClaimed
      · rw [unchanged]
        exact (relinked.closed cluster older).imp id Or.inl
      · exact Or.inr (Or.inr toClaimed)
  · intro cluster isUsable notFresh
    rw [not_or] at notFresh
    rcases kept cluster isUsable notFresh.2 with unchanged | toClaimed
    · rw [unchanged]
      exact (relinked.other cluster isUsable notFresh.1).imp id Or.inl
    · exact Or.inr (Or.inr toClaimed)

end Relinked

/-- The field for the first cluster of an entry either is a table entry or meets
none. -/
theorem fatEntry_setFirst (img : Bytes) (cluster : Nat) {value : Nat}
    (inside : InImage l entry) (small : value < 2 ^ 16) :
    fatEntry l (setField img 2 (entry + 26) value) cluster = fatEntry l img cluster ∨
      fatEntry l (setField img 2 (entry + 26) value) cluster = value := by
  have aligned := inside.1
  have start : l.fatStart % 512 = 0 := Nat.mul_mod_left _ _
  by_cases same : entry + 26 = l.fatStart + cluster * 2
  · refine Or.inr ?_
    rw [fatEntry, same, field_setField]
    exact Nat.mod_eq_of_lt small
  · exact Or.inl (field_setField_of_disjoint (by omega))

/-- How `fat16_vfs_write` begins: with the chain of the file, or with a cluster
allocated for it. -/
structure Started (l : Layout) (entry count : Nat) (img : Bytes) (start : Nat × Extension) :
    Prop where
  confined : Confined l entry img start.2.img
  cluster : start.2.cluster = start.1
  newParent : start.2.newParent = 0
  walk : UsableWalk l start.2.img count start.1

theorem firstOrAlloc_started (inside : InImage l entry)
    (walk : field img 2 (entry + 26) = 0 ∨ UsableWalk l img count (field img 2 (entry + 26))) :
    ∀ start ∈ (firstOrAlloc l img entry).value, Started l entry count img start := by
  have fits := inside.2
  have allocated := fat16AllocCluster_value l img
  rw [firstOrAlloc, value_bind, value_ite, value_bind, value_pure, rd16, rd_value l img (by omega)]
  by_cases empty : field img 2 (entry + 26) = 0
  · rw [if_pos empty]
    generalize (fat16AllocCluster l img).value = result at allocated
    cases allocated with
    | full none => simp
    | @claimed cluster usable free =>
      have two := usable.1
      have stored : (wr l.imgSize (claimCluster l img cluster) 2 (entry + 26) cluster).value =
          setField (claimCluster l img cluster) 2 (entry + 26) cluster :=
        wr_value l _ (by omega)
      have relinked := (Relinked.refl l img).claim usable fun other _ =>
        fatEntry_setFirst (claimCluster l img cluster) other inside usable.lt_word
      simp only [if_neg (show cluster ≠ 0 by omega), value_bind, value_pure, wr16, stored]
      rintro start ⟨⟩
      exact ⟨(confined_claimCluster usable).trans (confined_setField (by omega) (by omega) _),
        rfl, rfl, relinked.walk_fresh (Or.inr rfl)⟩
  · rw [if_neg empty]
    rintro start ⟨⟩
    exact ⟨.refl l entry img, rfl, rfl, walk.resolve_left empty⟩

theorem extendLoop_confined (entry : Nat) {missing : Nat}
    (walk : UsableWalk l x.img (missing + 1) x.cluster)
    (parent : x.newParent = 0 ∨ l.Usable x.newParent) :
    Confined l entry x.img (extendLoop l missing x).value.img ∧
      ((extendLoop l missing x).value.newParent = 0 ∨
        l.Usable (extendLoop l missing x).value.newParent) ∧
      ∃ fresh, Relinked l x.img (extendLoop l missing x).value.img fresh := by
  induction missing generalizing x with
  | zero => exact ⟨.refl l entry x.img, parent, _, .refl l x.img⟩
  | succ missing ih =>
    have usable := walk.1
    have allocated := fat16AllocCluster_value l x.img
    rw [extendLoop, value_bind, fat16NextCluster_usable _ usable]
    by_cases atEnd : fatEntry l x.img x.cluster < 2 ∨ eoc ≤ fatEntry l x.img x.cluster
    · rw [if_pos atEnd, value_bind]
      generalize (fat16AllocCluster l x.img).value = result at allocated
      cases allocated with
      | full none => exact ⟨.refl l entry x.img, parent, _, .refl l x.img⟩
      | @claimed cluster claimedUsable free =>
        have two := claimedUsable.1
        have relinked := (Relinked.refl l x.img).claim claimedUsable fun other _ =>
            show fatEntry l (setEntry l (claimCluster l x.img cluster) x.cluster cluster)
              other = _ ∨ _ by
          by_cases same : other = x.cluster
          · rw [same, fatEntry_setEntry l _ claimedUsable.lt_word]
            exact Or.inr rfl
          · exact Or.inl (fatEntry_setEntry_of_ne same)
        simp only [if_neg (show cluster ≠ 0 by omega), value_bind, fat16SetCluster_usable _ usable]
        have rest := ih (x :=
          { img := setEntry l (claimCluster l x.img cluster) x.cluster cluster
            cluster
            firstNew := if x.firstNew = 0 then cluster else x.firstNew
            newParent := if x.firstNew = 0 then x.cluster else x.newParent
            newCount := x.newCount + 1 })
          (relinked.walk_fresh (Or.inr rfl)) (by
            dsimp only
            split
            · exact Or.inr usable
            · exact parent)
        obtain ⟨confined, parent', fresh, later⟩ := rest
        exact ⟨((confined_claimCluster claimedUsable).trans
          (confined_setEntry usable cluster)).trans confined, parent', _, relinked.trans later⟩
    · rw [if_neg atEnd]
      have next := (walk.2.resolve_left fun low => atEnd (Or.inl low)).resolve_left
        fun high => atEnd (Or.inr high)
      exact ih (x := { x with cluster := fatEntry l x.img x.cluster }) next parent

theorem copyCluster_confined (img : Bytes) (cl written : Nat) (buffer : Nat → UInt8)
    (ordered : offset < stop) (word : stop < 2 ^ 32) (usable : l.Usable cluster) (index : Nat)
    (outside : ¬ InCluster l cluster index) :
    (copyCluster l offset stop buffer cl img cluster written).value.2 index = img index := by
  have size := l.imgSize_le
  have large := l.bytesPerCluster_le
  have dataEnd := usable.clusterEnd_le
  have start : cl * l.bytesPerCluster % 2 ^ 32 < 2 ^ 32 := Nat.mod_lt _ (by decide)
  rw [copyCluster, fat16ClusterOff_usable usable]
  generalize cl * l.bytesPerCluster % 2 ^ 32 = clusterStart at start
  rw [InCluster, not_and_or] at outside
  dsimp only
  split
  · case isTrue overlaps =>
    rw [Nat.mod_eq_of_lt (a := l.clusterStart cluster + _) (by omega)]
    split
    · rw [value_touch]
      dsimp only
      refine overwrite_of_outside ?_
      omega
    · rfl
  · rfl

variable {remaining written : Nat} {buffer : Nat → UInt8}

theorem copyLoop_of_not_inChain {cl : Nat} (leaves : cluster < 2 ∨ eoc ≤ cluster) :
    (copyLoop l offset stop buffer remaining cl img cluster written).value.2 = img := by
  cases remaining with
  | zero => rfl
  | succ remaining =>
    rw [copyLoop, value_ite, if_pos leaves]
    split <;> rfl

theorem copyLoop_confined (entry cl written : Nat) (buffer : Nat → UInt8) (ordered : offset < stop)
    (word : stop < 2 ^ 32)
    (walk : UsableWalk l img remaining cluster) :
    Confined l entry img
      (copyLoop l offset stop buffer remaining cl img cluster written).value.2 := by
  induction remaining generalizing cl img cluster written with
  | zero => exact .refl l entry img
  | succ remaining ih =>
    have usable := walk.1
    have stored := copyCluster_confined img cl written buffer ordered word usable
    rw [copyLoop, value_ite, value_ite, value_bind, value_pure]
    generalize (copyCluster l offset stop buffer cl img cluster written).value = result at stored
    obtain ⟨written', img'⟩ := result
    have confined : Confined l entry img img' := fun index kept =>
      stored index (avoids_of_not_mayChange usable kept cluster (by simp)).2
    have table : ∀ other, l.Usable other → fatEntry l img' other = fatEntry l img other :=
      fun other otherUsable => fatEntry_congr fun index inside =>
        stored index (not_inCluster_of_inTable otherUsable inside)
    split
    · exact .refl l entry img
    · split
      · exact .refl l entry img
      · refine confined.trans ?_
        by_cases last : remaining = 0
        · subst last
          exact .refl l entry img'
        · simp only [if_neg last, value_bind, fat16NextCluster_usable _ usable]
          rw [table cluster usable]
          by_cases leaves : fatEntry l img cluster < 2 ∨ eoc ≤ fatEntry l img cluster
          · rw [copyLoop_of_not_inChain leaves]
            exact .refl l entry img'
          · have next := (walk.2.resolve_left fun low => leaves (Or.inl low)).resolve_left
              fun high => leaves (Or.inr high)
            exact ih _ _ (next.congr table)

theorem rollbackLoop_confined : Confined l entry img (rollbackLoop l count img cluster).value := by
  induction count generalizing img cluster with
  | zero => exact .refl l entry img
  | succ count ih =>
    rw [rollbackLoop, value_ite, value_bind, value_bind, value_pure]
    split
    · case isTrue usable => exact (setCluster_confined usable 0).trans ih
    · exact .refl l entry img

theorem rollback_confined (inside : InImage l entry)
    (parent : x.newParent = 0 ∨ l.Usable x.newParent) :
    Confined l entry x.img (rollback l x entry).value := by
  rw [rollback, value_ite, value_pure, value_bind]
  split
  · exact .refl l entry x.img
  · refine Confined.trans ?_ rollbackLoop_confined
    rw [detach, value_ite]
    split
    · case isTrue attached => exact setCluster_confined (parent.resolve_left attached) eocMark
    · exact wr_confined inside (by omega) (by omega) 0

theorem finishWrite_confined {first : Nat} (inside : InImage l entry)
    (parent : x.newParent = 0 ∨ l.Usable x.newParent) :
    Confined l entry x.img
      (finishWrite l d slot entry first offset written x).value.2.img := by
  rw [finishWrite, value_ite]
  split
  · exact rollback_confined inside parent
  · simp only [value_bind, value_ite, value_pure]
    split
    · exact wr_confined inside (by omega) (by omega) _
    · exact .refl l entry x.img

/-- The number of clusters up to the byte before `stop`. -/
def clustersFor (l : Layout) (stop : Nat) : Nat :=
  stop / l.bytesPerCluster + if stop % l.bytesPerCluster ≠ 0 then 1 else 0

/-- The file has no cluster yet, or those that a write up to `stop` follows are
usable. -/
def FollowsUsable (l : Layout) (img : Bytes) (entry stop : Nat) : Prop :=
  field img 2 (entry + 26) = 0 ∨ UsableWalk l img (clustersFor l stop) (field img 2 (entry + 26))

instance (l : Layout) (img : Bytes) (entry stop : Nat) :
    Decidable (FollowsUsable l img entry stop) :=
  inferInstanceAs (Decidable (_ ∨ _))

theorem clustersFor_pos (positive : 0 < stop) : 0 < clustersFor l stop := by
  have large := l.le_bytesPerCluster
  rw [clustersFor]
  rcases Nat.eq_zero_or_pos (stop / l.bytesPerCluster) with short | long
  · have small := (Nat.div_eq_zero_iff_lt (by omega)).mp short
    rw [Nat.mod_eq_of_lt small, if_pos (by omega)]
    omega
  · omega

theorem writeFile_confined (inside : InImage l entry)
    (ordered : offset < stop) (word : stop < 2 ^ 32)
    (follows : FollowsUsable l d.img entry stop) :
    Confined l entry d.img (writeFile l d slot entry offset stop buffer).value.2.img := by
  have started := firstOrAlloc_started inside follows
  have positive := clustersFor_pos (l := l) (show 0 < stop by omega)
  simp only [writeFile, value_bind]
  rw [← clustersFor]
  cases begun : (firstOrAlloc l d.img entry).value with
  | none => exact .refl l entry d.img
  | some start =>
    obtain ⟨confined, cluster, newParent, walk⟩ := started start begun
    have startWalk : UsableWalk l start.2.img (clustersFor l stop - 1 + 1) start.2.cluster := by
      rw [cluster, Nat.sub_add_cancel positive]
      exact walk
    obtain ⟨extended, parent, fresh, relinked⟩ :=
      extendLoop_confined entry startWalk (Or.inl newParent)
    have copied := copyLoop_confined entry 0 0 buffer ordered word (relinked.walk walk)
    simp only [value_bind]
    exact ((confined.trans extended).trans copied).trans (finishWrite_confined inside parent)

variable {size : Nat} {buffer : Option (Nat → UInt8)}

/-- The call returns 0 before it looks at a cluster: the node has no write handler, or there is
nothing to write, or no cluster of the volume covers the offset, or the end does not fit 32 bits. -/
def ReturnsAtOnce (l : Layout) (node : Node) (offset size : Nat) (buffer : Option (Nat → UInt8)) :
    Prop :=
  node.kind ≠ .file ∨ buffer = none ∨ size = 0 ∨
    (l.maxCluster ≤ 2 ∨ l.maxCluster - 2 ≤ offset / l.bytesPerCluster) ∨ 2 ^ 32 - 1 - offset < size

theorem fat16VfsWrite_confined (inside : InImage l entry) (describes : (d.pool slot).ptr = some entry)
    (isFile : (d.pool slot).kind = .file)
    (follows : ReturnsAtOnce l (d.pool slot) offset size buffer ∨
      FollowsUsable l d.img entry (offset + size)) :
    Confined l entry d.img (fat16VfsWrite l d slot offset size buffer).value.2.img := by
  unfold fat16VfsWrite
  rw [describes]
  cases buffer with
  | none => exact .refl l entry d.img
  | some buffer =>
    dsimp only
    split
    · exact .refl l entry d.img
    split
    · exact .refl l entry d.img
    split
    · exact .refl l entry d.img
    · next nonempty covered short =>
      refine writeFile_confined inside (by omega) (by omega) (follows.resolve_left ?_)
      rintro (noHandler | noBuffer | empty | uncovered | long)
      · exact noHandler isFile
      · cases noBuffer
      · exact nonempty empty
      · exact covered uncovered
      · exact short long

/-- Of the root directory only the entry of the file may change. -/
theorem not_mayChange_of_root (first : l.rootStart ≤ index)
    (last : index < l.dataStart) (other : ¬ (entry + 26 ≤ index ∧ index < entry + 32)) :
    ¬ MayChange l entry index := by
  rintro (⟨cluster, usable, table | data⟩ | own)
  · exact Nat.not_lt.mpr first (inTable_lt usable table)
  · exact Nat.not_lt.mpr (le_of_inCluster data) last
  · exact other own

/-- A volume of five sectors with two files.  The first cluster of A is 285, whose
table entry would lie on the first-cluster field of B. -/
def aliasingImage : Bytes := fun index =>
  if 1025 ≤ index ∧ index ≤ 1035 ∨ 1057 ≤ index ∧ index ≤ 1067 then 0x20
  else
    ([(12, 2), (13, 1), (14, 1), (16, 1), (17, 16), (22, 1), (510, 0x55), (511, 0xAA),
      (1024, 0x41), (1050, 0x1D), (1051, 0x01), (1056, 0x42)].lookup index).getD 0

end MiniOS.Fat16
