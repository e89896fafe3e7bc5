import MiniOS.Fat16Chains

/-!
# Writing and freeing files

`fat16_vfs_write` first extends the chain of the file, then copies into its
clusters, and gives the added clusters back when nothing could be stored.  The
lemmas follow these three loops for a file whose chain is sound and whose
directory entry lies in none of the clusters involved.
-/

namespace MiniOS.Fat16

open LinkedSegments TracedAccess Traced

variable {l : Layout} {before img img' : Bytes}

/-- The table entries of the clusters are zero and nothing else has changed. -/
structure Freed (l : Layout) (img img' : Bytes) (clusters : List Nat) : Prop where
  zero : ∀ cluster ∈ clusters, fatEntry l img' cluster = 0
  frame : ∀ index, (∀ cluster ∈ clusters, ¬ InTable l cluster index) → img' index = img index

theorem Freed.nil (l : Layout) (img : Bytes) : Freed l img img [] :=
  ⟨by simp, fun _ _ => rfl⟩

theorem Freed.cons {cluster : Nat} {clusters : List Nat} (other : cluster ∉ clusters)
    (freed : Freed l (setEntry l img cluster 0) img' clusters) :
    Freed l img img' (cluster :: clusters) := by
  refine ⟨fun member inside => ?_, fun index outside => ?_⟩
  · rcases List.mem_cons.mp inside with rfl | later
    · have kept : fatEntry l img' member = fatEntry l (setEntry l img member 0) member := by
        refine fatEntry_congr fun index here => freed.frame index fun later inList there => ?_
        rw [inTable_unique here there] at other
        exact other inList
      rw [kept]
      exact fatEntry_setEntry l img (by decide)
    · exact freed.zero member later
  · rw [freed.frame index fun later inList => outside later (by simp [inList])]
    exact setEntry_of_not_inTable (outside cluster (by simp))

variable {cluster first stop last : Nat} {clusters : List Nat}

theorem Segment.setEntry {value : Nat} (linked : Segment (fatEntry l img) first clusters stop)
    (other : cluster ∉ clusters) :
    Segment (fatEntry l (Fat16.setEntry l img cluster value)) first clusters stop := by
  refine linked.congr fun node member => fatEntry_setEntry_of_ne ?_
  rintro rfl
  exact other member

theorem rollbackLoop_value (usable : ∀ cluster ∈ clusters, l.Usable cluster)
    (distinct : clusters.Nodup)
    (linked : Segment (fatEntry l img) first clusters stop) :
    Freed l img (rollbackLoop l clusters.length img first).value clusters := by
  induction clusters generalizing img first with
  | nil => exact .nil l img
  | cons cluster clusters ih =>
    obtain ⟨rfl, rest⟩ := linked
    rw [List.nodup_cons] at distinct
    have firstUsable := usable first (by simp)
    rw [List.length_cons, rollbackLoop, if_pos ⟨firstUsable.1, firstUsable.2⟩]
    simp only [value_bind, fat16NextCluster_usable img firstUsable,
      fat16SetCluster_usable img firstUsable]
    exact .cons distinct.1
      (ih (fun node member => usable node (by simp [member])) distinct.2
        (Segment.setEntry rest distinct.1))

variable {rounds : Nat}

theorem Chain.freeChain_value (chain : Chain l img first clusters)
    (enough : clusters.length ≤ rounds) :
    ∃ img', (freeChain l rounds img first).value = some img' ∧ Freed l img img' clusters := by
  induction rounds generalizing img first clusters with
  | zero => exact absurd (List.eq_nil_of_length_eq_zero (Nat.le_zero.mp enough)) chain.nonempty
  | succ rounds ih =>
    obtain ⟨rest, rfl, usable, notLater, next⟩ := chain.cases
    rw [freeChain, if_pos (l.clusterValid_iff.mpr usable)]
    simp only [value_bind, value_ite, fat16NextCluster_usable img usable,
      fat16SetCluster_usable img usable]
    rcases next with ⟨large, rfl⟩ | next
    · rw [if_pos large]
      exact ⟨_, rfl, .cons (by simp) (.nil l _)⟩
    · have small := next.first_usable.lt_eoc
      rw [if_neg (by omega)]
      have kept : Chain l (setEntry l img first 0) (fatEntry l img first) rest :=
        next.congr fun node member =>
          fatEntry_setEntry_of_ne (ne_of_mem_of_not_mem member notLater)
      obtain ⟨img', returned, freed⟩ := ih kept (by simpa using enough)
      exact ⟨img', returned, .cons notLater freed⟩

/-- `fat16_vfs_unlink` frees the chain of every file. -/
theorem FileChain.freeChain (chain : FileChain l img first clusters)
    (enough : l.maxCluster - 2 < rounds) :
    ∃ img', (Fat16.freeChain l rounds img first).value = some img' ∧ Freed l img img' clusters := by
  rcases chain with ⟨rfl, rfl⟩ | chain
  · obtain ⟨fewer, rfl⟩ : ∃ fewer, rounds = fewer + 1 := ⟨rounds - 1, by omega⟩
    refine ⟨img, ?_, .nil l img⟩
    rw [Fat16.freeChain, if_neg (fun valid => absurd valid.1 (by decide)), value_pure]
  · exact chain.freeChain_value ((usable_length_le chain.distinct chain.usable).trans enough.le)

/-- The entry lies behind the file allocation table, and in no cluster that is
free or belongs to the file. -/
structure Apart (l : Layout) (img : Bytes) (entry : Nat) (clusters : List Nat) : Prop where
  above : l.rootStart ≤ entry
  inside : entry + 32 ≤ l.imgSize
  apart : ∀ cluster, l.Usable cluster → cluster ∈ clusters ∨ fatEntry l img cluster = 0 →
    ∀ index, entry ≤ index → index < entry + 32 → ¬ InCluster l cluster index

/-- The chain `old` of a file has been extended by clusters that were free. -/
structure Grown (l : Layout) (before img : Bytes) (entry first : Nat) (old new : List Nat) :
    Prop where
  chain : Chain l img first (old ++ new)
  free : ∀ cluster ∈ new, fatEntry l before cluster = 0
  frame : ∀ index, Avoids l (old ++ new) index → index < entry + 26 ∨ entry + 28 ≤ index →
    img index = before index
  stored : field img 2 (entry + 26) = first

section Growing

variable {entry first index : Nat} {old new earlier later : List Nat} {x : Extension}

/-- The link of a cluster of a chain leads to the next one. -/
theorem Chain.next (chain : Chain l img first (earlier ++ cluster :: later)) :
    ∃ stop, eoc ≤ stop ∧ fatEntry l img cluster = later.headD stop := by
  obtain ⟨stop, large, linked⟩ := chain.ends
  obtain ⟨middle, -, -, rest⟩ := segment_append.mp linked
  exact ⟨stop, large, rest.start_eq⟩

/-- The image after a free cluster has been claimed and linked behind `last`. -/
def linkCluster (l : Layout) (img : Bytes) (last cluster : Nat) : Bytes :=
  setEntry l (claimCluster l img cluster) last cluster

theorem linkCluster_of_avoids (outside : Avoids l [last, cluster] index) :
    linkCluster l img last cluster index = img index := by
  rw [linkCluster, setEntry_of_not_inTable (outside last (by simp)).1]
  exact claimCluster_of_avoids fun member inside => outside member (by simp_all)

theorem linkCluster_of_data (lastUsable : l.Usable last) (usable : l.Usable cluster)
    (data : l.dataStart ≤ index) :
    linkCluster l img last cluster index = clearCluster l img cluster index := by
  rw [linkCluster, setEntry_of_not_inTable (not_inTable_of_data lastUsable data), claimCluster]
  simp only [clearCluster, overwrite, setEntry_of_not_inTable (not_inTable_of_data usable data)]

theorem Chain.link (chain : Chain l img first (clusters ++ [last])) (usable : l.Usable cluster)
    (free : fatEntry l img cluster = 0) :
    Chain l (linkCluster l img last cluster) first (clusters ++ [last] ++ [cluster]) := by
  have fresh : cluster ∉ clusters ++ [last] := fun member => chain.entry_ne_zero member free
  have notLast : cluster ≠ last := by
    rintro rfl
    exact fresh (by simp)
  have atNew : fatEntry l (linkCluster l img last cluster) cluster = eocMark := by
    rw [linkCluster, fatEntry_setEntry_of_ne notLast, fatEntry_claimCluster usable]
  have atLast : fatEntry l (linkCluster l img last cluster) last = cluster :=
    fatEntry_setEntry l _ usable.lt_word
  have elsewhere : ∀ node ∈ clusters, fatEntry l (linkCluster l img last cluster) node =
      fatEntry l img node := by
    intro node member
    have nodeUsable := chain.usable node (by simp [member])
    have notTail : node ≠ last := by
      rintro rfl
      exact (List.nodup_append.mp chain.distinct).2.2 node member node (by simp) rfl
    have notNew : node ≠ cluster := by
      rintro rfl
      exact fresh (by simp [member])
    rw [linkCluster, fatEntry_setEntry_of_ne notTail, fatEntry_claimCluster_of_ne nodeUsable notNew]
  obtain ⟨stop, -, linked⟩ := chain.ends
  obtain ⟨middle, early, atMiddle, -⟩ := segment_append.mp linked
  refine ⟨by simp, ?_, ?_, eocMark, by decide, ?_⟩
  · intro node member
    rcases List.mem_append.mp member with inside | new
    · exact chain.usable node inside
    · rwa [List.mem_singleton.mp new]
  · rw [List.nodup_append]
    exact ⟨chain.distinct, by simp, by simpa using fun node member => ne_of_mem_of_not_mem member fresh⟩
  · rw [List.append_assoc]
    exact segment_append.mpr ⟨middle, early.congr elsewhere, atMiddle, atLast, atNew⟩

/-- The added clusters hold zeros, and all other data is as before. -/
structure Fresh (l : Layout) (before img : Bytes) (entry : Nat) (new : List Nat) : Prop where
  zero : ∀ cluster ∈ new, ∀ index, InCluster l cluster index → img index = 0
  kept : ∀ index, l.dataStart ≤ index → (∀ cluster ∈ new, ¬ InCluster l cluster index) →
    index < entry + 26 ∨ entry + 28 ≤ index → img index = before index

theorem Fresh.link (fresh : Fresh l before img entry new) (lastUsable : l.Usable last)
    (usable : l.Usable cluster) :
    Fresh l before (linkCluster l img last cluster) entry (new ++ [cluster]) := by
  refine ⟨fun node member index inside => ?_, fun index data outside apart => ?_⟩
  · rw [linkCluster_of_data lastUsable usable (le_of_inCluster inside)]
    by_cases here : InCluster l cluster index
    · exact overwrite_inside here.1 here.2
    · rw [clearCluster_of_not_inCluster here]
      rcases List.mem_append.mp member with earlier | last
      · exact fresh.zero node earlier index inside
      · exact absurd (List.mem_singleton.mp last ▸ inside) here
  · rw [linkCluster_of_data lastUsable usable data,
      clearCluster_of_not_inCluster (outside cluster (by simp))]
    exact fresh.kept index data (fun node member => outside node (by simp [member])) apart

variable (apart : Apart l before entry old) (grown : Grown l before img entry first old new)

include apart grown

/-- The bytes of the entry belong to no cluster of the extended chain. -/
theorem Grown.avoids (low : entry ≤ index) (high : index < entry + 32) :
    Avoids l (old ++ new) index := by
  intro cluster member
  have usable := grown.chain.usable cluster member
  refine ⟨fun inTable => ?_, ?_⟩
  · have below := inTable_lt usable inTable
    have above := apart.above
    omega
  · refine apart.apart cluster usable ?_ index low high
    exact (List.mem_append.mp member).imp_right (grown.free cluster)

theorem Grown.fatEntry_other (usable : l.Usable cluster) (other : cluster ∉ old ++ new) :
    fatEntry l img cluster = fatEntry l before cluster := by
  have above := apart.above
  exact fatEntry_of_avoids
    (fun index below avoids => grown.frame index avoids (by omega)) usable other

theorem Grown.changeData
    (data : ∀ index, (∀ cluster ∈ old ++ new, ¬ InCluster l cluster index) →
      img' index = img index) : Grown l before img' entry first old new where
  chain := grown.chain.congr fun cluster member => fatEntry_congr fun index inTable =>
    data index fun _ _ => not_inCluster_of_inTable (grown.chain.usable cluster member) inTable
  free := grown.free
  frame := fun index avoids outside =>
    (data index fun cluster member => (avoids cluster member).2).trans
      (grown.frame index avoids outside)
  stored := by
    rw [← grown.stored]
    refine field_congr fun k below => data _ fun cluster member => ?_
    exact (grown.avoids apart (by omega) (by omega) cluster member).2

theorem Grown.link (atEnd : old ++ new = earlier ++ [last]) (usable : l.Usable cluster)
    (free : fatEntry l img cluster = 0) :
    Grown l before (linkCluster l img last cluster) entry first old (new ++ [cluster]) := by
  have chain := grown.chain
  rw [atEnd] at chain
  have fresh : cluster ∉ old ++ new := fun member => grown.chain.entry_ne_zero member free
  have lastInside : last ∈ old ++ new := by simp [atEnd]
  have wasFree : fatEntry l before cluster = 0 := by
    rw [← grown.fatEntry_other apart usable fresh]
    exact free
  refine ⟨?_, ?_, ?_, ?_⟩
  · rw [← List.append_assoc, atEnd]
    exact chain.link usable free
  · intro node member
    rcases List.mem_append.mp member with inside | added
    · exact grown.free node inside
    · rwa [List.mem_singleton.mp added]
  · intro index avoids outside
    have avoidsOld : Avoids l (old ++ new) index :=
      fun node member => avoids node (by rw [← List.append_assoc]; simp only [List.mem_append] at member ⊢; tauto)
    rw [linkCluster_of_avoids, grown.frame index avoidsOld outside]
    intro node member
    rcases List.mem_cons.mp member with rfl | added
    · exact avoidsOld node lastInside
    · exact avoids node (by simp_all)
  · rw [← grown.stored]
    refine field_congr fun k below => linkCluster_of_avoids fun node member => ?_
    have low : entry ≤ entry + 26 + k := by omega
    have high : entry + 26 + k < entry + 32 := by omega
    rcases List.mem_cons.mp member with rfl | added
    · exact grown.avoids apart low high node lastInside
    · rw [List.mem_singleton.mp added]
      refine ⟨fun inTable => ?_, apart.apart cluster usable (Or.inr wasFree) _ low high⟩
      have lower := inTable_lt usable inTable
      have above := apart.above
      omega

omit grown

/-- The variables of the extending loop describe the clusters added so far. -/
structure Extending (l : Layout) (before : Bytes) (entry first : Nat) (old new : List Nat)
    (x : Extension) : Prop where
  grown : Grown l before x.img entry first old new
  firstNew : x.firstNew = new.headD 0
  newParent : x.newParent = if new = [] then 0 else old.getLastD 0
  newCount : x.newCount = new.length

theorem Extending.link (extending : Extending l before entry first old new x)
    (atEnd : old ++ new = earlier ++ [x.cluster]) (usable : l.Usable cluster)
    (free : fatEntry l x.img cluster = 0) :
    Extending l before entry first old (new ++ [cluster])
      { img := linkCluster l x.img x.cluster cluster
        cluster
        firstNew := if x.firstNew = 0 then cluster else x.firstNew
        newParent := if x.firstNew = 0 then x.cluster else x.newParent
        newCount := x.newCount + 1 } := by
  have grown := extending.grown.link apart atEnd usable free
  have noneYet : x.firstNew = 0 ↔ new = [] := by
    rw [extending.firstNew]
    cases new with
    | nil => simp
    | cons node new =>
      have two := (extending.grown.chain.usable node (by simp)).1
      simp only [List.headD_cons, reduceCtorEq, iff_false]
      omega
  refine ⟨grown, ?_, ?_, ?_⟩
  · by_cases empty : new = []
    · simp [noneYet.mpr empty, empty]
    · obtain ⟨node, rest, rfl⟩ := List.exists_cons_of_ne_nil empty
      rw [if_neg (mt noneYet.mp empty), extending.firstNew]
      rfl
  · by_cases empty : new = []
    · subst empty
      rw [List.append_nil] at atEnd
      simp [noneYet.mpr rfl, atEnd]
    · simp only
      rw [if_neg (mt noneYet.mp empty), extending.newParent, if_neg empty, if_neg (by simp)]
  · simp [extending.newCount]

/-- The loop extends the chain to the number of clusters asked for, unless no
cluster is free any more. -/
theorem extendLoop_value (missing : Nat)
    (extending : Extending l before entry first old new x)
    (fresh : Fresh l before x.img entry new)
    (position : old ++ new = earlier ++ x.cluster :: later) :
    ∃ new, Extending l before entry first old new (extendLoop l missing x).value ∧
      Fresh l before (extendLoop l missing x).value.img entry new ∧
      (earlier.length + missing < (old ++ new).length ∨
        NoneFree l (extendLoop l missing x).value.img) := by
  induction missing generalizing x new earlier later with
  | zero => exact ⟨new, extending, fresh, Or.inl (by simp [position])⟩
  | succ missing ih =>
    have chain := extending.grown.chain
    have usable := chain.usable x.cluster (by simp [position])
    rw [position] at chain
    obtain ⟨stop, large, next⟩ := chain.next
    rw [← fat16NextCluster_usable x.img usable] at next
    have count : (earlier ++ [x.cluster]).length + missing = earlier.length + (missing + 1) := by
      simp
      omega
    rw [extendLoop, ← count]
    simp only [value_bind, value_ite]
    cases later with
    | nil =>
      rw [if_pos (by rw [next]; exact Or.inr large)]
      have allocated := fat16AllocCluster_value l x.img
      generalize (fat16AllocCluster l x.img).value = result at allocated
      cases allocated with
      | full none => exact ⟨new, extending, fresh, Or.inr none⟩
      | claimed newUsable free =>
        have two := newUsable.1
        rw [if_neg (by simp only; omega), fat16SetCluster_usable _ usable]
        exact ih (extending.link apart position newUsable free) (fresh.link usable newUsable)
          (by rw [← List.append_assoc, position])
    | cons second later =>
      have secondUsable := extending.grown.chain.usable second (by simp [position])
      have two := secondUsable.1
      have small := secondUsable.lt_eoc
      rw [List.headD_cons] at next
      rw [if_neg (by rw [next]; omega), next]
      have position' : old ++ new = earlier ++ [x.cluster] ++ second :: later := by
        rw [position, List.append_assoc]
        rfl
      exact ih { extending with } fresh position'

end Growing

section Copying

variable {offset stop : Nat} {buffer : Nat → UInt8}

/-- The bytes that lie before cluster number `count` of the file. -/
def storedBefore (l : Layout) (offset stop count : Nat) : Nat :=
  min stop (count * l.bytesPerCluster) - offset

def DataChange (l : Layout) (img img' : Bytes) (clusters : List Nat) : Prop :=
  ∀ index, (∀ cluster ∈ clusters, ¬ InCluster l cluster index) → img' index = img index

variable {cl : Nat}

theorem copyCluster_value (img : Bytes) (buffer : Nat → UInt8) (order : offset < stop)
    (usable : l.Usable cluster) (fits : (cl + 1) * l.bytesPerCluster ≤ l.imgSize) :
    ∃ img', (copyCluster l offset stop buffer cl img cluster (storedBefore l offset stop cl)).value =
        (storedBefore l offset stop (cl + 1), img') ∧ DataChange l img img' [cluster] ∧
      ∀ k < l.bytesPerCluster, img' (l.clusterStart cluster + k) =
        if offset ≤ cl * l.bytesPerCluster + k ∧ cl * l.bytesPerCluster + k < stop then
          buffer (cl * l.bytesPerCluster + k - offset)
        else img (l.clusterStart cluster + k) := by
  have size := l.imgSize_le
  have inside := usable.clusterEnd_le
  have large := l.le_bytesPerCluster
  rw [Nat.add_mul, Nat.one_mul] at fits
  simp only [copyCluster, storedBefore, fat16ClusterOff_usable usable, Nat.add_mul, Nat.one_mul]
  generalize cl * l.bytesPerCluster = start at fits ⊢
  rw [Nat.mod_eq_of_lt (show start < 2 ^ 32 by omega),
    Nat.mod_eq_of_lt (show start + l.bytesPerCluster < 2 ^ 32 by omega)]
  split
  case isTrue overlap =>
    have length : (2 ^ 32 - max offset start + min stop (start + l.bytesPerCluster)) % 2 ^ 32 =
        min stop (start + l.bytesPerCluster) - max offset start := by omega
    rw [length, Nat.mod_eq_of_lt (show l.clusterStart cluster + (max offset start - start) < 2 ^ 32 by omega),
      Nat.mod_eq_of_lt (show l.clusterStart cluster + (max offset start - start) +
        (min stop (start + l.bytesPerCluster) - max offset start) < 2 ^ 32 by omega),
      if_pos (by omega), value_touch]
    refine ⟨_, Prod.ext ?_ rfl, fun index outside => overwrite_of_outside ?_, fun k below => ?_⟩
    · simp only
      omega
    · have notInside := outside cluster (by simp)
      rw [InCluster, not_and_or] at notInside
      omega
    · split
      case isTrue hit =>
        rw [overwrite_inside (by omega) (by omega)]
        congr 1
        omega
      case isFalse miss => exact overwrite_of_outside (by omega)
  case isFalse apart =>
    refine ⟨img, Prod.ext ?_ rfl, fun _ _ => rfl, fun k below => (if_neg (by omega)).symm⟩
    simp only [value_pure]
    omega

/-- The clusters `rest`, of which the first has the number `cl` in the file, hold
the bytes of the buffer between `offset` and `limit`. -/
def Copied (l : Layout) (offset limit : Nat) (buffer : Nat → UInt8) (cl : Nat) (rest : List Nat)
    (img img' : Bytes) : Prop :=
  ∀ k node, rest[k]? = some node → ∀ i < l.bytesPerCluster, img' (l.clusterStart node + i) =
    if offset ≤ (cl + k) * l.bytesPerCluster + i ∧ (cl + k) * l.bytesPerCluster + i < limit then
      buffer ((cl + k) * l.bytesPerCluster + i - offset)
    else img (l.clusterStart node + i)

variable {limit : Nat}

theorem Copied.refl (rest : List Nat) (img : Bytes)
    (done : limit ≤ cl * l.bytesPerCluster) : Copied l offset limit buffer cl rest img img := by
  intro k node _ i _
  rw [if_neg]
  rw [Nat.add_mul]
  omega

variable {rest : List Nat}

theorem Copied.cons {img'' : Bytes}
    (usable : ∀ node ∈ cluster :: rest, l.Usable node) (distinct : (cluster :: rest).Nodup)
    (change : DataChange l img img' [cluster]) (later : DataChange l img' img'' rest)
    (here : ∀ k < l.bytesPerCluster, img' (l.clusterStart cluster + k) =
      if offset ≤ cl * l.bytesPerCluster + k ∧ cl * l.bytesPerCluster + k < stop then
        buffer (cl * l.bytesPerCluster + k - offset)
      else img (l.clusterStart cluster + k))
    (limits : ∀ k < l.bytesPerCluster,
      cl * l.bytesPerCluster + k < limit ↔ cl * l.bytesPerCluster + k < stop)
    (copied : Copied l offset limit buffer (cl + 1) rest img' img'') :
    Copied l offset limit buffer cl (cluster :: rest) img img'' := by
  rintro (_ | k) node found i below
  · obtain rfl : cluster = node := by simpa using found
    rw [later _ fun other member inside => (List.nodup_cons.mp distinct).1 ?_, here i below]
    · simp only [Nat.add_zero, limits i below]
    · rwa [inCluster_unique (usable cluster (by simp)) (usable other (by simp [member]))
        ⟨by omega, by omega⟩ inside]
  · rw [List.getElem?_cons_succ] at found
    have member := List.mem_of_getElem? found
    rw [copied k node found i below, Nat.add_right_comm cl 1 k, Nat.add_assoc cl k 1,
      change _ fun other isCluster inside => (List.nodup_cons.mp distinct).1 ?_]
    rw [List.mem_singleton] at isCluster
    rwa [← isCluster, inCluster_unique (usable other (by simp [isCluster]))
      (usable node (by simp [member])) inside ⟨by omega, by omega⟩]

theorem copyLoop_value (buffer : Nat → UInt8) (remaining cl : Nat) (order : offset < stop)
    (usable : ∀ node ∈ rest, l.Usable node) (distinct : rest.Nodup)
    (large : eoc ≤ last) (linked : Segment (fatEntry l img) cluster rest last)
    (fits : (cl + rest.length) * l.bytesPerCluster ≤ l.imgSize) :
    ∃ count, cl ≤ count ∧ count ≤ cl + rest.length ∧ ∃ img',
      (copyLoop l offset stop buffer remaining cl img cluster (storedBefore l offset stop cl)).value =
        (storedBefore l offset stop count, img') ∧ DataChange l img img' rest ∧
      Copied l offset (min stop (count * l.bytesPerCluster)) buffer cl rest img img' ∧
      (count = cl + rest.length ∨ count = cl + remaining ∨ stop ≤ count * l.bytesPerCluster) := by
  induction remaining generalizing cl img cluster rest with
  | zero =>
    exact ⟨cl, le_rfl, by omega, img, rfl, fun _ _ => rfl, .refl rest img (by omega), Or.inr (Or.inl rfl)⟩
  | succ remaining ih =>
    rw [copyLoop]
    simp only [value_ite, value_bind]
    split
    case isTrue complete =>
      rw [storedBefore] at complete
      exact ⟨cl, le_rfl, by omega, img, rfl, fun _ _ => rfl, .refl rest img (by omega), by omega⟩
    cases rest with
    | nil =>
      rw [if_pos (Or.inr (segment_nil.mp linked ▸ large))]
      exact ⟨cl, le_rfl, by simp, img, rfl, fun _ _ => rfl, .refl [] img (by omega), Or.inl rfl⟩
    | cons node rest =>
      obtain ⟨rfl, following⟩ := linked
      have clusterUsable := usable cluster (by simp)
      have two := clusterUsable.1
      have small := clusterUsable.lt_eoc
      rw [if_neg (by omega)]
      have here : (cl + 1) * l.bytesPerCluster ≤ l.imgSize := by
        refine (Nat.mul_le_mul_right _ ?_).trans fits
        simp
      obtain ⟨img', copied, change, bytes⟩ :=
        copyCluster_value img buffer order clusterUsable here
      have sameLinks : ∀ other, l.Usable other →
          fatEntry l img' other = fatEntry l img other := fun other otherUsable =>
        fatEntry_congr fun index inTable => change index fun _ _ =>
          not_inCluster_of_inTable otherUsable inTable
      have widen : ∀ {img''}, DataChange l img' img'' rest →
          DataChange l img img'' (cluster :: rest) := by
        intro img'' later index outside
        rw [later index fun other member => outside other (by simp [member])]
        exact change index fun other member => outside other (by simp_all)
      have limits : ∀ {count}, cl + 1 ≤ count → ∀ k < l.bytesPerCluster,
          cl * l.bytesPerCluster + k < min stop (count * l.bytesPerCluster) ↔
            cl * l.bytesPerCluster + k < stop := by
        intro count more k below
        have bound := Nat.mul_le_mul_right l.bytesPerCluster more
        rw [Nat.add_mul] at bound
        omega
      simp only [copied]
      cases remaining with
      | zero =>
        exact ⟨cl + 1, by omega, by simp, img', rfl, widen fun _ _ => rfl,
          .cons usable distinct change (fun _ _ => rfl) bytes (limits le_rfl) (.refl rest img' (by omega)),
          Or.inr (Or.inl rfl)⟩
      | succ remaining =>
        rw [if_neg (by omega), fat16NextCluster_usable img' clusterUsable,
          sameLinks cluster clusterUsable]
        have rest' := following.congr fun other member =>
          sameLinks other (usable other (by simp [member]))
        have fitsRest : (cl + 1 + rest.length) * l.bytesPerCluster ≤ l.imgSize := by
          rwa [List.length_cons, Nat.add_comm rest.length, ← Nat.add_assoc] at fits
        obtain ⟨count, more, bound, img'', result, later, rest'', reason⟩ := ih _
          (fun other member => usable other (by simp [member])) (List.nodup_cons.mp distinct).2
          rest' fitsRest
        simp only [List.length_cons]
        exact ⟨count, by omega, by omega, img'', result, widen later,
          .cons usable distinct change later bytes (limits more) rest'', by omega⟩

end Copying

end MiniOS.Fat16
