import MiniOS.Fat16Calls

/-!
# Termination of the FAT16 driver

Only two loops of the driver are not bounded by a counter.  The loop that frees
a chain ends on every image, because it clears each link it follows.  The loop
of `fat16_vfs_read` ends when the chain leaves the cluster numbers, or when the
parts of its clusters that lie in the image make up the bytes to be read.
-/

namespace MiniOS.Fat16

open Machine PhysicalMemory TracedAccess Traced

variable {l : Layout} {img : Bytes} {d : Driver}

def takenClusters (l : Layout) (img : Bytes) : Finset Nat :=
  (Finset.Ico 2 l.maxCluster).filter fun cluster => fatEntry l img cluster ≠ 0

variable {cluster rounds pos size : Nat} {copied : List UInt8}

theorem mem_takenClusters :
    cluster ∈ takenClusters l img ↔ l.Usable cluster ∧ fatEntry l img cluster ≠ 0 := by
  rw [takenClusters, Finset.mem_filter, Finset.mem_Ico]
  rfl

theorem takenClusters_card_le (l : Layout) (img : Bytes) :
    (takenClusters l img).card ≤ l.maxCluster - 2 :=
  (Finset.card_filter_le _ _).trans_eq (Nat.card_Ico _ _)

theorem takenClusters_clear (taken : cluster ∈ takenClusters l img) :
    (takenClusters l (setEntry l img cluster 0)).card < (takenClusters l img).card := by
  refine Finset.card_lt_card ⟨fun other member => ?_, fun contained => ?_⟩
  · rw [mem_takenClusters] at member ⊢
    by_cases same : other = cluster
    · rw [same, fatEntry_setEntry l img (by decide)] at member
      exact absurd rfl member.2
    · rwa [fatEntry_setEntry_of_ne same] at member
  · have kept := mem_takenClusters.mp (contained taken)
    rw [fatEntry_setEntry l img (by decide)] at kept
    exact kept.2 rfl

/-- Each round clears a link, so a chain that is met again ends there. -/
theorem freeChain_returns (cluster : Nat) (enough : (takenClusters l img).card + 2 ≤ rounds) :
    ∃ img', (freeChain l rounds img cluster).value = some img' := by
  induction rounds generalizing img cluster with
  | zero => omega
  | succ rounds ih =>
    by_cases valid : fat16ClusterValid l cluster
    · have usable := l.clusterValid_iff.mp valid
      rw [freeChain, if_pos valid, value_bind, fat16NextCluster_usable _ usable, value_bind,
        fat16SetCluster_usable _ usable, value_ite, value_pure]
      split
      · exact ⟨_, rfl⟩
      · by_cases free : fatEntry l img cluster = 0
        · obtain ⟨rounds, rfl⟩ : ∃ fewer, rounds = fewer + 1 := ⟨rounds - 1, by omega⟩
          rw [free, freeChain, if_neg fun usable => absurd usable.1 (by decide), value_pure]
          exact ⟨_, rfl⟩
        · have fewer := takenClusters_clear (mem_takenClusters.mpr ⟨usable, free⟩)
          rw [setEntry] at fewer
          exact ih _ (by omega)
    · rw [freeChain, if_neg valid, value_pure]
      exact ⟨_, rfl⟩

theorem fat16VfsUnlink_returns (d : Driver) (node : Node) (name : CString)
    (enough : l.maxCluster ≤ rounds) (two : 2 ≤ l.maxCluster) :
    ∃ result, (fat16VfsUnlink l rounds d node name).value = some result := by
  have count := takenClusters_card_le l d.img
  rw [fat16VfsUnlink, value_bind]
  cases (findEntry l d.img node.impl name maxDirSlots 0).value with
  | none => exact ⟨_, rfl⟩
  | some entry =>
    obtain ⟨img', freed⟩ := freeChain_returns
      (rd16 l.imgSize d.img (entry.1 + 26)).value
      (show (takenClusters l d.img).card + 2 ≤ rounds by omega)
    simp only [value_bind, value_ite, value_pure, freed]
    split
    · exact ⟨_, rfl⟩
    · split
      · exact ⟨_, rfl⟩
      · split <;> exact ⟨_, rfl⟩

/-- The cluster numbers for which `fat16_vfs_read` goes on. -/
def InChain (cluster : Nat) : Prop := 2 ≤ cluster ∧ cluster < eoc

instance (cluster : Nat) : Decidable (InChain cluster) :=
  inferInstanceAs (Decidable (_ ∧ _))

def link (l : Layout) (img : Bytes) (cluster : Nat) : Nat := (fat16NextCluster l img cluster).value

/-- The bytes of a cluster from `pos` on that lie in the image. -/
def bytesHeld (l : Layout) (cluster pos : Nat) : Nat :=
  min (l.bytesPerCluster - pos) (l.imgSize - (fat16ClusterOff l cluster + pos))

/-- The bytes that the first clusters of a chain hold, from `pos` in the first of
them on. -/
def chainHeld (l : Layout) (img : Bytes) : (count cluster pos : Nat) → Nat
  | 0, _, _ => 0
  | count + 1, cluster, pos =>
    bytesHeld l cluster pos + chainHeld l img count (link l img cluster) 0

/-- The chain goes round in clusters of which no byte lies in the image. -/
def IdleCycle (l : Layout) (img : Bytes) (cluster : Nat) : Prop :=
  ∃ period, 0 < period ∧ (link l img)^[period] cluster = cluster ∧ ∀ k < period,
    InChain ((link l img)^[k] cluster) ∧ bytesHeld l ((link l img)^[k] cluster) 0 = 0

/-- A chain that comes to an idle cycle holds `size` bytes before it. -/
def ChainSuffices (l : Layout) (img : Bytes) (cluster pos size : Nat) : Prop :=
  ∀ count, (∀ k < count, InChain ((link l img)^[k] cluster)) →
    IdleCycle l img ((link l img)^[count] cluster) → size ≤ chainHeld l img count cluster pos

theorem chainHeld_succ (l : Layout) (img : Bytes) (count : Nat) : ∀ cluster pos,
    chainHeld l img (count + 1) cluster pos = chainHeld l img count cluster pos +
      bytesHeld l ((link l img)^[count] cluster) (if count = 0 then pos else 0) := by
  induction count with
  | zero =>
    intro cluster pos
    simp [chainHeld]
  | succ count ih =>
    intro cluster pos
    rw [chainHeld, ih, chainHeld, Function.iterate_succ_apply, if_neg (Nat.succ_ne_zero count),
      ite_self, Nat.add_assoc]

theorem chainHeld_le_add (l : Layout) (img : Bytes) (cluster pos count more : Nat) :
    chainHeld l img count cluster pos ≤ chainHeld l img (count + more) cluster pos := by
  induction more with
  | zero => exact le_rfl
  | succ more ih =>
    rw [← Nat.add_assoc, chainHeld_succ]
    exact ih.trans (Nat.le_add_right ..)

theorem IdleCycle.all (idle : IdleCycle l img cluster) (k : Nat) :
    InChain ((link l img)^[k] cluster) ∧ bytesHeld l ((link l img)^[k] cluster) 0 = 0 := by
  obtain ⟨period, positive, loops, around⟩ := idle
  have periodic : Function.IsPeriodicPt (link l img) period cluster := loops
  rw [← periodic.iterate_mod_apply k]
  exact around _ (Nat.mod_lt _ positive)

/-- A chain along which nothing is ever added runs into an idle cycle. -/
theorem exists_idleCycle (start : Nat) (inChain : ∀ k, InChain ((link l img)^[k] cluster))
    (nothing : ∀ k, start < k → bytesHeld l ((link l img)^[k] cluster) 0 = 0) :
    ∃ count, IdleCycle l img ((link l img)^[count] cluster) := by
  have small : ∀ k, (link l img)^[start + k + 1] cluster < 2 ^ 16 := fun k => by
    rw [Function.iterate_succ_apply']
    exact fat16NextCluster_lt l img _
  obtain ⟨i, j, less, same⟩ : ∃ i j, i < j ∧
      (link l img)^[start + i + 1] cluster = (link l img)^[start + j + 1] cluster := by
    obtain ⟨i, j, differ, same⟩ :=
      Finite.exists_ne_map_eq_of_infinite fun k => (⟨_, small k⟩ : Fin (2 ^ 16))
    have same := congrArg Fin.val same
    rcases Nat.lt_or_gt_of_ne differ with less | less
    · exact ⟨i, j, less, same⟩
    · exact ⟨j, i, less, same.symm⟩
  refine ⟨start + i + 1, j - i, by omega, ?_, fun k _ => ?_⟩
  · rw [← Function.iterate_add_apply, same, show j - i + (start + i + 1) = start + j + 1 by omega]
  · rw [← Function.iterate_add_apply]
    exact ⟨inChain _, nothing _ (by omega)⟩

/-- An idle cycle adds nothing to what the chain holds before it. -/
theorem IdleCycle.chainHeld_eq {count : Nat} (idle : IdleCycle l img ((link l img)^[count] cluster))
    (pos more : Nat) :
    chainHeld l img (count + more) cluster pos = chainHeld l img count cluster pos := by
  induction more with
  | zero => rfl
  | succ more ih =>
    have nothing := (idle.all more).2
    rw [← Function.iterate_add_apply, Nat.add_comm more] at nothing
    rw [← Nat.add_assoc, chainHeld_succ, ih]
    unfold bytesHeld at nothing ⊢
    omega

theorem chainSuffices_iff : ChainSuffices l img cluster pos size ↔
    ∃ count, ¬ InChain ((link l img)^[count] cluster) ∨
      size ≤ chainHeld l img count cluster pos := by
  constructor
  · intro holdsEnough
    by_contra never
    simp only [not_exists, not_or, not_not, not_le] at never
    -- what is held is bounded, so from some cluster on nothing is added
    have bounded : BddAbove (Set.range fun n => chainHeld l img n cluster pos) := by
      refine ⟨size, ?_⟩
      rintro _ ⟨n, rfl⟩
      exact (never n).2.le
    obtain ⟨last, isMost⟩ := Nat.sSup_mem (Set.range_nonempty _) bounded
    obtain ⟨count, idle⟩ := exists_idleCycle last (fun k => (never k).1) fun k later => by
      have added := chainHeld_succ l img k cluster pos
      have before := chainHeld_le_add l img cluster pos last (k - last)
      have after := le_csSup bounded ⟨k + 1, rfl⟩
      rw [if_neg (by omega)] at added
      rw [Nat.add_sub_cancel' later.le] at before
      dsimp only at isMost after
      omega
    exact absurd (holdsEnough count (fun k _ => (never k).1) idle) (Nat.not_le.mpr (never count).2)
  · rintro ⟨enough, reaches⟩ count inChain idle
    have continues : InChain ((link l img)^[enough] cluster) := by
      rcases Nat.lt_or_ge enough count with before | later
      · exact inChain enough before
      · have around := (idle.all (enough - count)).1
        rwa [← Function.iterate_add_apply, Nat.sub_add_cancel later] at around
    have full := reaches.resolve_left (not_not.mpr continues)
    have grown := chainHeld_le_add l img cluster pos enough count
    rw [Nat.add_comm, idle.chainHeld_eq] at grown
    omega

def chunkLength (l : Layout) (cluster pos missing : Nat) : Nat :=
  if l.imgSize < ((fat16ClusterOff l cluster + pos) % 2 ^ 32 +
      min missing (l.bytesPerCluster - pos)) % 2 ^ 32 then
    l.imgSize - (fat16ClusterOff l cluster + pos) % 2 ^ 32
  else min missing (l.bytesPerCluster - pos)

theorem bytesHeld_le_chunkLength {l : Layout} {missing : Nat}
    (more : chunkLength l cluster pos missing < missing) :
    bytesHeld l cluster pos ≤ chunkLength l cluster pos missing := by
  revert more
  rw [chunkLength, bytesHeld]
  split <;> intro more <;> omega

theorem chunkLength_le_bytesHeld (missing : Nat) (inCluster : pos < l.bytesPerCluster)
    (range : fat16ClusterOff l cluster + l.bytesPerCluster < 2 ^ 32) :
    chunkLength l cluster pos missing ≤ bytesHeld l cluster pos := by
  rw [chunkLength, bytesHeld, Nat.mod_eq_of_lt (a := fat16ClusterOff l cluster + pos) (by omega),
    Nat.mod_eq_of_lt (by omega)]
  split <;> omega

def readChunk (l : Layout) (img : Bytes) (cluster pos missing : Nat) : List UInt8 :=
  slice img ((fat16ClusterOff l cluster + pos) % 2 ^ 32) (chunkLength l cluster pos missing)

theorem length_append_readChunk (l : Layout) (img : Bytes) (cluster pos missing : Nat)
    (copied : List UInt8) :
    (copied ++ readChunk l img cluster pos missing).length =
      copied.length + chunkLength l cluster pos missing := by
  rw [List.length_append, readChunk, slice_length]

theorem readLoop_round (unread : copied.length < size) (inChain : InChain cluster) :
    (readLoop l img size (rounds + 1) cluster pos copied).value =
      if copied.length + chunkLength l cluster pos (size - copied.length) < size then
        (readLoop l img size rounds (link l img cluster) 0
          (copied ++ readChunk l img cluster pos (size - copied.length))).value
      else
        (readLoop l img size rounds cluster 0
          (copied ++ readChunk l img cluster pos (size - copied.length))).value := by
  rw [← length_append_readChunk l img cluster pos _ copied, readLoop,
    if_pos ⟨unread, inChain.1, inChain.2⟩, value_bind, value_touch, value_ite, value_bind,
    value_bind, value_pure]
  rfl

theorem readLoop_ended (ended : ¬ (copied.length < size ∧ InChain cluster)) :
    (readLoop l img size (rounds + 1) cluster pos copied).value = some copied := by
  rw [readLoop, if_neg (show ¬ (copied.length < size ∧ 2 ≤ cluster ∧ cluster < eoc) from ended),
    value_pure]

theorem readLoop_returns {count : Nat} (enough : ¬ InChain ((link l img)^[count] cluster) ∨
      size ≤ copied.length + chainHeld l img count cluster pos) :
    ∃ rounds result, (readLoop l img size rounds cluster pos copied).value = some result := by
  induction count generalizing cluster pos copied with
  | zero =>
    refine ⟨1, copied, readLoop_ended fun continues => ?_⟩
    rcases enough with leaves | full
    · exact leaves continues.2
    · rw [chainHeld] at full
      omega
  | succ count ih =>
    by_cases continues : copied.length < size ∧ InChain cluster
    · obtain ⟨unread, inChain⟩ := continues
      have length := length_append_readChunk l img cluster pos (size - copied.length) copied
      by_cases more : copied.length + chunkLength l cluster pos (size - copied.length) < size
      · -- the next cluster takes over with what this one holds already copied
        have held : bytesHeld l cluster pos ≤ chunkLength l cluster pos (size - copied.length) :=
          bytesHeld_le_chunkLength (by omega)
        have rest : ¬ InChain ((link l img)^[count] (link l img cluster)) ∨
            size ≤ (copied ++ readChunk l img cluster pos (size - copied.length)).length +
              chainHeld l img count (link l img cluster) 0 :=
          enough.imp id fun full => by rw [chainHeld] at full; omega
        obtain ⟨rounds, result, returned⟩ := ih rest
        refine ⟨rounds + 1, result, ?_⟩
        rw [readLoop_round unread inChain, if_pos more]
        exact returned
      · refine ⟨2, copied ++ readChunk l img cluster pos (size - copied.length), ?_⟩
        rw [readLoop_round unread inChain, if_neg more]
        exact readLoop_ended (by omega)
    · exact ⟨1, copied, readLoop_ended continues⟩

variable {result : List UInt8}

theorem chainHeld_of_readLoop (fit : AddressesFit l) (inCluster : pos < l.bytesPerCluster)
    (returned : (readLoop l img size rounds cluster pos copied).value = some result) :
    ∃ count, ¬ InChain ((link l img)^[count] cluster) ∨
      size ≤ copied.length + chainHeld l img count cluster pos := by
  have positive := l.le_bytesPerCluster
  induction rounds generalizing cluster pos copied with
  | zero => cases returned
  | succ rounds ih =>
    by_cases continues : copied.length < size ∧ InChain cluster
    · obtain ⟨unread, inChain⟩ := continues
      have held := chunkLength_le_bytesHeld (size - copied.length) inCluster
        (fit cluster inChain.1 inChain.2)
      rw [readLoop_round unread inChain] at returned
      split at returned
      · obtain ⟨count, enough⟩ := ih (by omega) returned
        rw [length_append_readChunk] at enough
        refine ⟨count + 1, enough.imp id fun full => ?_⟩
        rw [chainHeld]
        omega
      · refine ⟨1, Or.inr ?_⟩
        rw [chainHeld]
        omega
    · refine ⟨0, ?_⟩
      rw [chainHeld]
      by_cases unread : copied.length < size
      · exact Or.inl fun inChain => continues ⟨unread, inChain⟩
      · exact Or.inr (by omega)

/-- What a read needs to return: it starts past the end of the file or of its
chain, or the chain from its offset on suffices. -/
def ReadEnds (l : Layout) (img : Bytes) (node : Node) (offset size : Nat) : Prop :=
  node.length ≤ offset ∨
    ∀ cluster ∈ (followLinks l img (offset / l.bytesPerCluster) node.impl).value,
      ChainSuffices l img cluster (offset % l.bytesPerCluster) (min size (node.length - offset))

variable {node : Node} {offset : Nat}

theorem ReadEnds.returns (ends : ReadEnds l img node offset size) :
    ∃ rounds result, (fat16VfsRead l rounds img node offset size).value = some result := by
  by_cases past : node.length ≤ offset
  · exact ⟨0, [], by rw [fat16VfsRead, if_pos past, value_pure]⟩
  · simp only [fat16VfsRead, if_neg past, value_bind]
    cases start : (followLinks l img (offset / l.bytesPerCluster) node.impl).value with
    | none => exact ⟨0, [], rfl⟩
    | some cluster =>
      obtain ⟨count, enough⟩ := chainSuffices_iff.mp (ends.resolve_left past cluster start)
      exact readLoop_returns (enough.imp id fun full => by rwa [List.length_nil, Nat.zero_add])

theorem ReadEnds.of_returned (fit : AddressesFit l)
    (returned : (fat16VfsRead l rounds img node offset size).value = some result) :
    ReadEnds l img node offset size := by
  have positive := l.le_bytesPerCluster
  refine or_iff_not_imp_left.mpr fun inside cluster start => ?_
  rw [Option.mem_def] at start
  rw [fat16VfsRead, if_neg inside, value_bind, start] at returned
  obtain ⟨count, enough⟩ :=
    chainHeld_of_readLoop fit (Nat.mod_lt _ (by omega)) returned
  rw [List.length_nil, Nat.zero_add] at enough
  exact chainSuffices_iff.mpr ⟨count, enough⟩

def Terminates (l : Layout) (d : Driver) (call : FatCall) : Prop :=
  ∃ rounds d', (fatCall l rounds d call).value = some d'

def CallEnds (l : Layout) (d : Driver) : FatCall → Prop
  | .change _ | .readdir _ _ => True
  | .read slot offset size =>
    (d.pool slot).kind = .file → ReadEnds l d.img (d.pool slot) offset size

theorem two_le_maxCluster (l : Layout) : 2 ≤ l.maxCluster := by
  have sectors := l.mountable.sectorsPerFat_pos
  refine le_min ?_ (Nat.le_add_right 2 _)
  rw [Parameters.fatClusters, l.bytesPerSector_eq]
  omega

theorem fatOp_returns (l : Layout) (d : Driver) (op : FatOp) :
    ∃ d', (fatOp l l.maxCluster d op).value = some d' := by
  cases op with
  | finddir ref name | create ref name | write slot offset size buffer =>
    rw [fatOp]
    split <;> exact ⟨_, rfl⟩
  | unlink ref name =>
    rw [fatOp]
    split
    · obtain ⟨result, returned⟩ := fat16VfsUnlink_returns d (nodeOf d ref) name le_rfl
        (two_le_maxCluster l)
      exact ⟨result.2, by rw [value_map, returned]; rfl⟩
    · exact ⟨_, rfl⟩
  | openNode slot | closeNode slot => exact ⟨_, rfl⟩

variable {call : FatCall}

theorem CallEnds.terminates (ends : CallEnds l d call) : Terminates l d call := by
  cases call with
  | change op => exact ⟨l.maxCluster, fatOp_returns l d op⟩
  | readdir ref index =>
    refine ⟨0, d, ?_⟩
    rw [fatCall]
    split <;> rfl
  | read slot offset size =>
    by_cases isFile : (d.pool slot).kind = .file
    · obtain ⟨rounds, result, returned⟩ := (ends isFile).returns
      refine ⟨rounds, d, ?_⟩
      rw [fatCall, if_pos isFile, value_map, returned]
      rfl
    · refine ⟨0, d, ?_⟩
      rw [fatCall, if_neg isFile, value_pure]

theorem CallEnds.of_terminates (fit : AddressesFit l) (terminates : Terminates l d call) :
    CallEnds l d call := by
  cases call with
  | change op | readdir ref index => trivial
  | read slot offset size =>
    intro isFile
    obtain ⟨rounds, d', returned⟩ := terminates
    rw [fatCall, if_pos isFile, value_map, Option.map_eq_some_iff] at returned
    obtain ⟨result, returned, -⟩ := returned
    exact .of_returned fit returned

/-- Every call on every image returns, except a read whose chain goes round in
clusters that hold too little of the image.  Where no offset wraps around, that
condition is exact. -/
theorem fatCall_terminates (l : Layout) (d : Driver) (call : FatCall) :
    (CallEnds l d call → Terminates l d call) ∧
      (AddressesFit l → (Terminates l d call ↔ CallEnds l d call)) :=
  ⟨CallEnds.terminates, fun fit => ⟨.of_terminates fit, CallEnds.terminates⟩⟩

/-- A read of 600 bytes over the two clusters of a file. -/
theorem fatCall_terminates_twoClusters : ∃ d,
    runPartial (fatStep smallLayout) (mountedDriver fun _ => 0)
      [.create .root nameA, .write 0 0 600 (some fun _ => 0x78)] = some d ∧
    ChainSuffices smallLayout d.img 2 0 600 ∧ Terminates smallLayout d (.read 0 0 600) := by
  obtain ⟨d, reached, -, isFile, length, first, returned⟩ : ∃ d, _ ∧ _ ∧
      (d.pool 0).kind = .file ∧ (d.pool 0).length = 600 ∧ (d.pool 0).impl = 2 ∧
      (fatCall smallLayout 3 d (.read 0 0 600)).value.isSome :=
    exists_smallRun [.create .root nameA, .write 0 0 600 (some fun _ => 0x78)]
      (by decide +kernel) (by decide +kernel)
  obtain ⟨d', isReturned⟩ := Option.isSome_iff_exists.mp returned
  have terminates : Terminates smallLayout d (.read 0 0 600) := ⟨3, d', isReturned⟩
  have ends := ((fatCall_terminates smallLayout d (.read 0 0 600)).2
    (addressesFit_of_le (by decide))).mp terminates isFile
  rcases ends with past | holdsEnough
  · omega
  · rw [first, length] at holdsEnough
    exact ⟨d, reached, holdsEnough 2 rfl, terminates⟩

/-- A cluster outside of the image that is its own successor. -/
@[mk_iff]
structure Stuck (l : Layout) (img : Bytes) (cluster : Nat) : Prop where
  inChain : InChain cluster
  loops : link l img cluster = cluster
  outside : l.imgSize ≤ fat16ClusterOff l cluster
  range : fat16ClusterOff l cluster + l.bytesPerCluster < 2 ^ 32

instance (l : Layout) (img : Bytes) (cluster : Nat) : Decidable (Stuck l img cluster) :=
  decidable_of_iff' _ (stuck_iff ..)

theorem Stuck.readLoop_none (stuck : Stuck l img cluster) (positive : 0 < size) (rounds : Nat) :
    (readLoop l img size rounds cluster 0 []).value = none := by
  have large := l.le_bytesPerCluster
  have nothing : chunkLength l cluster 0 size = 0 := by
    have held := chunkLength_le_bytesHeld size
      (show 0 < l.bytesPerCluster by omega) stuck.range
    have outside := stuck.outside
    rw [bytesHeld] at held
    omega
  induction rounds with
  | zero => rfl
  | succ rounds ih =>
    have empty : [] ++ readChunk l img cluster 0 (size - 0) = [] := by
      rw [List.nil_append, readChunk, Nat.sub_zero, nothing]
      rfl
    rw [readLoop_round positive stuck.inChain, List.length_nil, empty, stuck.loops, Nat.sub_zero,
      nothing, if_pos positive]
    exact ih

/-- A volume of five sectors.  Its only file holds one byte, according to its
entry, and begins in cluster 100, which is its own successor. -/
def loopingImage : Bytes := fun index =>
  if 1025 ≤ index ∧ index ≤ 1035 then 0x20
  else
    ([(12, 2), (13, 1), (14, 1), (16, 1), (17, 16), (22, 1), (510, 0x55), (511, 0xAA),
      (712, 100), (1024, 0x41), (1050, 100), (1052, 1)].lookup index).getD 0

theorem read_never_returns : ∃ mounted d,
      (fat16Install oneFreeBlock (by decide) none (some loopingImage) 2560 fun _ => 0).value.1 =
        some mounted ∧
      callStep mounted.layout 0 mounted.driver (.change (.finddir .root nameA)) = some d ∧
      ∀ rounds, (fatCall mounted.layout rounds d (.read 0 0 1)).value = none := by
  have facts :
      (fat16Install oneFreeBlock (by decide) none (some loopingImage) 2560
        fun _ => 0).value.1.any fun mounted =>
          (callStep mounted.layout 0 mounted.driver (.change (.finddir .root nameA))).any fun d =>
            (d.pool 0).kind = .file ∧ (d.pool 0).length = 1 ∧ (d.pool 0).impl = 100 ∧
              Stuck mounted.layout d.img 100 := by
    decide +kernel
  simp only [Option.any_eq_true, decide_eq_true_eq] at facts
  obtain ⟨mounted, isMounted, d, found, isFile, length, first, stuck⟩ := facts
  refine ⟨mounted, d, isMounted, found, fun rounds => ?_⟩
  rw [fatCall, if_pos isFile, value_map, fat16VfsRead, if_neg (by omega), value_bind, first, length,
    Nat.zero_div, followLinks, value_pure, Nat.zero_mod]
  exact congrArg (Option.map _) (stuck.readLoop_none (by decide) rounds)

end MiniOS.Fat16
