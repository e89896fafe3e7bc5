import MiniOS.Fat16Files

/-!
# The effect of a write

A write through a sound directory entry either keeps the chain of the file or
extends it by clusters that were free.  Clusters that the write has added but
could not use are free again afterwards, and nothing outside the clusters
involved and the entry has changed.
-/

namespace MiniOS.Fat16

open Function LinkedSegments TracedAccess Traced

variable {l : Layout} {before img img' : Bytes} {entry first : Nat} {old new : List Nat}
  {x : Extension} {stop : Nat}

section Growth

variable {cluster : Nat} (apart : Apart l before entry old)

include apart

theorem Apart.table_lt {index : Nat} (usable : l.Usable cluster)
    (inTable : InTable l cluster index) : index < entry :=
  (inTable_lt usable inTable).trans_le apart.above

/-- Storing into the entry leaves the table alone. -/
theorem Apart.fatEntry_setField {width off value : Nat} (usable : l.Usable cluster)
    (behind : entry ≤ off) :
    fatEntry l (setField img width off value) cluster = fatEntry l img cluster := by
  refine fatEntry_congr fun index inTable => setField_of_outside ?_
  have below := apart.table_lt usable inTable
  omega

theorem rd16_entry (img : Bytes) :
    (rd16 l.imgSize img (entry + 26)).value = field img 2 (entry + 26) :=
  rd_value l img (by have inside := apart.inside; omega)

theorem rd32_entry (img : Bytes) :
    (rd32 l.imgSize img (entry + 28)).value = field img 4 (entry + 28) :=
  rd_value l img (by have inside := apart.inside; omega)

theorem wr16_entry (img : Bytes) (value : Nat) :
    (wr16 l.imgSize img (entry + 26) value).value = setField img 2 (entry + 26) value :=
  wr_value l img (by have inside := apart.inside; omega)

theorem wr32_entry (img : Bytes) (value : Nat) :
    (wr32 l.imgSize img (entry + 28) value).value = setField img 4 (entry + 28) value :=
  wr_value l img (by have inside := apart.inside; omega)

omit apart in
theorem Grown.start (apart : Apart l before entry []) (usable : l.Usable cluster)
    (free : fatEntry l before cluster = 0) :
    Grown l before (setField (claimCluster l before cluster) 2 (entry + 26) cluster) entry cluster
      [] [cluster] where
  chain := by
    refine ⟨by simp, by simpa using usable, by simp, eocMark, by decide, rfl, ?_⟩
    rw [segment_nil, apart.fatEntry_setField usable (by omega), fatEntry_claimCluster usable]
  free := by simpa using free
  frame := by
    intro index avoids outside
    rw [setField_of_outside (by omega)]
    exact claimCluster_of_avoids avoids
  stored := by
    rw [field_setField]
    exact Nat.mod_eq_of_lt usable.lt_word

omit apart in
theorem Fresh.start (apart : Apart l before entry []) (usable : l.Usable cluster)
    (free : fatEntry l before cluster = 0) :
    Fresh l before (setField (claimCluster l before cluster) 2 (entry + 26) cluster) entry
      [cluster] := by
  refine ⟨fun node member index inside => ?_, fun index data outside apart => ?_⟩
  · obtain rfl := List.mem_singleton.mp member
    rw [setField_of_outside, claimCluster, clearCluster, overwrite_inside inside.1 inside.2]
    · by_contra within
      exact apart.apart node usable (Or.inr free) index (by omega) (by omega) inside
  · rw [setField_of_outside apart]
    exact claimCluster_of_avoids fun node member =>
      ⟨not_inTable_of_data (List.mem_singleton.mp member ▸ usable) data, outside node member⟩

theorem firstOrAlloc_value (chain : FileChain l before (field before 2 (entry + 26)) old) :
    (firstOrAlloc l before entry).value = none ∨
      ∃ first new x, (firstOrAlloc l before entry).value = some (first, x) ∧
        Extending l before entry first old new x ∧ Fresh l before x.img entry new ∧
        (∃ later, old ++ new = x.cluster :: later) ∧
        (old = [] ∨ first = field before 2 (entry + 26)) := by
  rw [firstOrAlloc]
  simp only [value_bind, value_ite]
  rcases chain with ⟨empty, rfl⟩ | chain
  · rw [if_pos (by rw [rd16_entry apart, empty])]
    have allocated := fat16AllocCluster_value l before
    generalize (fat16AllocCluster l before).value = result at allocated
    cases allocated with
    | full _ => exact Or.inl rfl
    | @claimed cluster usable free =>
      have two := usable.1
      rw [if_neg (by simp only; omega), wr16_entry apart]
      exact Or.inr ⟨cluster, [cluster], _, rfl, ⟨.start apart usable free, rfl, rfl, rfl⟩,
        .start apart usable free, ⟨[], rfl⟩, Or.inl rfl⟩
  · have two := chain.first_usable.1
    rw [rd16_entry apart, if_neg (by omega)]
    refine Or.inr ⟨_, [], _, rfl, ⟨⟨?_, by simp, fun _ _ _ => rfl, rfl⟩, rfl, rfl, rfl⟩,
      ⟨by simp, fun _ _ _ _ => rfl⟩, ?_, Or.inr rfl⟩
    · rwa [List.append_nil]
    · obtain ⟨stop, -, linked⟩ := chain.ends
      cases old with
      | nil => exact absurd rfl chain.nonempty
      | cons cluster old => exact ⟨old, by rw [List.append_nil, linked.1]⟩

/-- The clusters that `img` has added are free again in `img'` and the file has its
old chain. -/
structure Restored (l : Layout) (before img img' : Bytes) (entry first : Nat)
    (old new : List Nat) : Prop where
  stored : field img' 2 (entry + 26) = if old = [] then 0 else first
  chain : FileChain l img' (field img' 2 (entry + 26)) old
  freed : ∀ cluster ∈ new, fatEntry l img' cluster = 0
  frame : ∀ index, Avoids l (old ++ new) index → index < entry + 26 ∨ entry + 28 ≤ index →
    img' index = before index
  data : ∀ index, l.dataStart ≤ index → index < entry + 26 ∨ entry + 28 ≤ index →
    img' index = img index

/-- Freeing the added clusters once the old chain has been ended before them. -/
theorem Grown.restored (grown : Grown l before img entry first old new) (detached : Bytes)
    (kept : ∀ index, (∀ cluster ∈ old, ¬ InTable l cluster index) →
      index < entry + 26 ∨ entry + 28 ≤ index → detached index = img index)
    (stored : field detached 2 (entry + 26) = if old = [] then 0 else first)
    (chain : FileChain l detached (field detached 2 (entry + 26)) old)
    (freed : Freed l detached img' new) : Restored l before img img' entry first old new := by
  have newUsable : ∀ cluster ∈ new, l.Usable cluster :=
    fun cluster member => grown.chain.usable cluster (by simp [member])
  have sameEntry : field img' 2 (entry + 26) = field detached 2 (entry + 26) := by
    refine field_congr fun k below => freed.frame _ fun cluster member inTable => ?_
    have low := apart.table_lt (newUsable cluster member) inTable
    omega
  refine ⟨sameEntry.trans stored, ?_, freed.zero, fun index avoids outside => ?_,
    fun index data outside => ?_⟩
  · rw [sameEntry]
    refine chain.congr fun cluster member => fatEntry_congr fun index inTable =>
      freed.frame index fun other inNew also => ?_
    rw [inTable_unique inTable also] at member
    exact (List.nodup_append.mp grown.chain.distinct).2.2 other member other inNew rfl
  · rw [freed.frame index fun cluster member => (avoids cluster (by simp [member])).1,
      kept index (fun cluster member => (avoids cluster (by simp [member])).1) outside]
    exact grown.frame index avoids outside
  · rw [freed.frame index fun cluster member => not_inTable_of_data (newUsable cluster member) data]
    exact kept index (fun cluster member =>
      not_inTable_of_data (grown.chain.usable cluster (by simp [member])) data) outside

theorem rollback_value
    (extending : Extending l before entry first old new x) :
    Restored l before x.img (rollback l x entry).value entry first old new := by
  have grown := extending.grown
  have usable := grown.chain.usable
  have distinct := List.nodup_append.mp grown.chain.distinct
  obtain ⟨stop, large, linked⟩ := grown.chain.ends
  obtain ⟨middle, early, late⟩ := segment_append.mp linked
  rw [rollback]
  cases new with
  | nil =>
    rw [if_pos (show x.firstNew = 0 from extending.firstNew), value_pure]
    have nonempty : old ≠ [] := by simpa using grown.chain.nonempty
    have chain := grown.chain
    rw [List.append_nil] at chain
    exact ⟨by rw [if_neg nonempty, grown.stored], Or.inr (by rwa [grown.stored]), by simp,
      grown.frame, fun _ _ _ => rfl⟩
  | cons node new =>
    have two := (usable node (by simp)).1
    have firstNew : x.firstNew = node := extending.firstNew
    have newParent : x.newParent = old.getLastD 0 := by
      rw [extending.newParent, if_neg (by simp)]
    have atNode : middle = node := late.1
    rw [if_neg (by omega), value_bind, detach, value_ite, extending.newCount, firstNew]
    have newUsable : ∀ cluster ∈ node :: new, l.Usable cluster :=
      fun cluster member => usable cluster (by simp [member])
    rw [atNode] at late early
    rcases List.eq_nil_or_concat' old with rfl | ⟨earlier, last, rfl⟩
    · rw [if_neg (by simp [newParent]), wr16_entry apart]
      have linked' : Segment (fatEntry l (setField x.img 2 (entry + 26) 0)) node (node :: new) stop :=
        late.congr fun cluster member =>
          apart.fatEntry_setField (newUsable cluster member) (by omega)
      refine grown.restored apart (setField x.img 2 (entry + 26) 0) ?_ ?_ ?_
        (rollbackLoop_value newUsable distinct.2.1 linked')
      · exact fun index _ outside => setField_of_outside (by omega)
      · rw [field_setField]
        rfl
      · rw [field_setField]
        exact Or.inl ⟨rfl, rfl⟩
    · have lastUsable := usable last (by simp)
      have lastTwo := lastUsable.1
      have notNew : last ∉ node :: new := fun member =>
        distinct.2.2 last (by simp) last member rfl
      have notEarlier : last ∉ earlier := fun member =>
        (List.nodup_append.mp distinct.1).2.2 last member last (by simp) rfl
      rw [newParent, List.getLastD_concat, if_pos (by omega), fat16SetCluster_usable _ lastUsable]
      obtain ⟨link, beforeLast, atLast, -⟩ := segment_append.mp early
      have stored : field (setEntry l x.img last eocMark) 2 (entry + 26) = first := by
        rw [← grown.stored]
        refine field_congr fun k below => setEntry_of_not_inTable fun inTable => ?_
        have low := apart.table_lt lastUsable inTable
        omega
      refine grown.restored apart (setEntry l x.img last eocMark) ?_ ?_ ?_
        (rollbackLoop_value newUsable distinct.2.1 (Segment.setEntry late notNew))
      · exact fun index avoids _ => setEntry_of_not_inTable (avoids last (by simp))
      · rw [stored, if_neg (by simp)]
      · rw [stored]
        refine Or.inr ⟨by simp, fun cluster member => usable cluster (by simp only [List.mem_append] at member ⊢; tauto), distinct.1,
          eocMark, by decide, segment_append.mpr ⟨link, Segment.setEntry beforeLast notEarlier,
            atLast, ?_⟩⟩
        exact fatEntry_setEntry l x.img (by decide)

omit apart

/-- Byte number `p` of the data that a chain holds. -/
def chainByte (l : Layout) (img : Bytes) (clusters : List Nat) (p : Nat) : UInt8 :=
  img (l.clusterStart (clusters.getD (p / l.bytesPerCluster) 0) + p % l.bytesPerCluster)

section ChainBytes

variable {clusters : List Nat} {p offset written : Nat} {buffer : Nat → UInt8}

theorem exists_chainByte (within : p < clusters.length * l.bytesPerCluster) :
    ∃ node, clusters[p / l.bytesPerCluster]? = some node ∧
      InCluster l node (l.clusterStart node + p % l.bytesPerCluster) ∧
      ∀ img, chainByte l img clusters p = img (l.clusterStart node + p % l.bytesPerCluster) := by
  have large := l.le_bytesPerCluster
  have number : p / l.bytesPerCluster < clusters.length := Nat.div_lt_of_lt_mul (by rwa [Nat.mul_comm])
  have position := Nat.mod_lt p (show 0 < l.bytesPerCluster by omega)
  refine ⟨clusters[p / l.bytesPerCluster], List.getElem?_eq_getElem number,
    ⟨by omega, by omega⟩, fun img => ?_⟩
  rw [chainByte, List.getD_eq_getElem?_getD, List.getElem?_eq_getElem number, Option.getD_some]

theorem chainByte_congr (within : p < clusters.length * l.bytesPerCluster)
    (same : ∀ cluster ∈ clusters, ∀ index, InCluster l cluster index → img' index = img index) :
    chainByte l img' clusters p = chainByte l img clusters p := by
  obtain ⟨node, found, inside, value⟩ := exists_chainByte within
  rw [value, value, same node (List.mem_of_getElem? found) _ inside]

theorem chainByte_append (new : List Nat) (within : p < old.length * l.bytesPerCluster) :
    chainByte l img (old ++ new) p = chainByte l img old p := by
  have number : p / l.bytesPerCluster < old.length := Nat.div_lt_of_lt_mul (by rwa [Nat.mul_comm])
  simp only [chainByte, List.getD_eq_getElem?_getD, List.getElem?_append_left number]

/-- The chain holds what the chain `old` held, continued by zeros, with the first
`written` bytes of a buffer stored at an offset. -/
def Spliced (l : Layout) (before img : Bytes) (offset written : Nat) (buffer : Nat → UInt8)
    (old clusters : List Nat) : Prop :=
  ∀ p < clusters.length * l.bytesPerCluster, chainByte l img clusters p =
    if offset ≤ p ∧ p < offset + written then buffer (p - offset)
    else if p < old.length * l.bytesPerCluster then chainByte l before old p else 0

theorem Spliced.congr (spliced : Spliced l before img offset written buffer old clusters)
    (same : ∀ cluster ∈ clusters, ∀ index, InCluster l cluster index → img' index = img index) :
    Spliced l before img' offset written buffer old clusters :=
  fun p within => (chainByte_congr within same).trans (spliced p within)

theorem Spliced.left (spliced : Spliced l before img offset written buffer old (old ++ new)) :
    Spliced l before img offset written buffer old old := by
  intro p within
  rw [← chainByte_append new within]
  refine spliced p (within.trans_le (Nat.mul_le_mul_right _ ?_))
  simp

theorem Copied.spliced {count : Nat} {copied : Bytes}
    (grown : Grown l before img entry first old new) (apart : Apart l before entry old)
    (fresh : Fresh l before img entry new)
    (copies : Copied l offset (min stop (count * l.bytesPerCluster)) buffer 0 (old ++ new) img copied) :
    Spliced l before copied offset (storedBefore l offset stop count) buffer old (old ++ new) := by
  intro p within
  obtain ⟨node, found, inside, value⟩ := exists_chainByte within
  have large := l.le_bytesPerCluster
  have stored := copies _ node found _ (Nat.mod_lt p (by omega))
  rw [Nat.zero_add, Nat.div_add_mod'] at stored
  have limit : offset ≤ p ∧ p < min stop (count * l.bytesPerCluster) ↔
      offset ≤ p ∧ p < offset + storedBefore l offset stop count := by
    rw [storedBefore]
    omega
  rw [value, stored]
  simp only [limit]
  split
  case isTrue => rfl
  case isFalse =>
    have usable := grown.chain.usable
    have disjoint := (List.nodup_append.mp grown.chain.distinct).2.2
    split
    case isTrue low =>
      obtain ⟨node', found', inside', value'⟩ := exists_chainByte low
      have sameNode : node = node' := by
        rw [List.getElem?_append_left (List.getElem?_eq_some_iff.mp found').1, found'] at found
        exact (Option.some.inj found).symm
      subst sameNode
      have member := List.mem_of_getElem? found'
      rw [value']
      refine fresh.kept _ (le_of_inCluster inside) (fun other inNew also => ?_) ?_
      · exact disjoint node member other inNew (inCluster_unique (usable node (by simp [member]))
          (usable other (by simp [inNew])) inside also)
      · by_contra within
        exact (grown.avoids apart (by omega) (by omega) node (by simp [member])).2 inside
    case isFalse high =>
      refine fresh.zero node ?_ _ inside
      have behind : old.length ≤ p / l.bytesPerCluster :=
        (Nat.le_div_iff_mul_le (by omega)).mpr (by omega)
      rw [List.getElem?_append_right behind] at found
      exact List.mem_of_getElem? found

end ChainBytes

/-- What a write does to the file whose chain was `old`. -/
structure Rewritten (l : Layout) (before img : Bytes) (entry : Nat) (old new clusters : List Nat) :
    Prop where
  free : ∀ cluster ∈ new, l.Usable cluster ∧ fatEntry l before cluster = 0
  frame : ∀ index, Avoids l (old ++ new) index → index < entry + 26 ∨ entry + 32 ≤ index →
    img index = before index
  chain : FileChain l img (field img 2 (entry + 26)) clusters
  grows : clusters = old ∨ clusters = old ++ new
  freed : ∀ cluster ∈ new, cluster ∉ clusters → fatEntry l img cluster = 0
  length : field img 4 (entry + 28) ≤ clusters.length * l.bytesPerCluster

/-- A node agrees with the entry that it describes. -/
structure Agrees (img : Bytes) (entry : Nat) (node : Node) : Prop where
  ptr : node.ptr = some entry
  impl : node.impl = field img 2 (entry + 26)
  length : node.kind = .file → node.length = field img 4 (entry + 28)

variable (grown : Grown l before img entry first old new)

include grown apart

theorem Grown.length_eq :
    field img 4 (entry + 28) = field before 4 (entry + 28) := by
  refine field_congr fun k below => grown.frame _ ?_ (by omega)
  exact grown.avoids apart (by omega) (by omega)

omit apart in
theorem Grown.new_free : ∀ cluster ∈ new, l.Usable cluster ∧ fatEntry l before cluster = 0 :=
  fun cluster member => ⟨grown.chain.usable cluster (by simp [member]), grown.free cluster member⟩

/-- A write that has stored something may also change the length of the file. -/
theorem Grown.rewritten
    (kept : ∀ index, index < entry + 28 ∨ entry + 32 ≤ index → img' index = img index)
    (bound : field img' 4 (entry + 28) ≤ (old ++ new).length * l.bytesPerCluster) :
    Rewritten l before img' entry old new (old ++ new) := by
  have sameFirst : field img' 2 (entry + 26) = first := by
    rw [← grown.stored]
    exact field_congr fun k below => kept _ (by omega)
  refine ⟨grown.new_free, fun index avoids outside => ?_, ?_, Or.inr rfl, ?_, bound⟩
  · rw [kept index (by omega)]
    exact grown.frame index avoids (by omega)
  · rw [sameFirst]
    refine Or.inr (grown.chain.congr fun cluster member => fatEntry_congr fun index inTable => ?_)
    have low := apart.table_lt (grown.chain.usable cluster member) inTable
    exact kept index (by omega)
  · exact fun cluster member other => absurd (List.mem_append_right old member) other

theorem Restored.length_eq (restored : Restored l before img img' entry first old new) :
    field img' 4 (entry + 28) = field before 4 (entry + 28) :=
  field_congr fun k below => restored.frame _ (grown.avoids apart (by omega) (by omega)) (by omega)

theorem Restored.rewritten (restored : Restored l before img img' entry first old new)
    (length : field before 4 (entry + 28) ≤ old.length * l.bytesPerCluster) :
    Rewritten l before img' entry old new old := by
  refine ⟨grown.new_free, fun index avoids outside => restored.frame index avoids (by omega),
    restored.chain, Or.inl rfl, fun cluster member _ => restored.freed cluster member, ?_⟩
  rwa [restored.length_eq apart grown]

end Growth

/-- What the file holds once a write has stored `written` of `size` bytes. -/
structure Stored (l : Layout) (before img : Bytes) (entry offset size written : Nat)
    (buffer : Nat → UInt8) (old clusters : List Nat) : Prop where
  within : written ≤ size
  chain : FileChain l img (field img 2 (entry + 26)) clusters
  bytes : Spliced l before img offset written buffer old clusters
  length : field img 4 (entry + 28) =
    if written = 0 then field before 4 (entry + 28)
    else max (field before 4 (entry + 28)) (offset + written)
  nothing : written = 0 → clusters = old
  short : 0 < written → written < size → NoneFree l img

/-- The driver after a write to the file at `entry` through the node in `slot`. -/
structure WriteEffect (l : Layout) (d d' : Driver) (slot entry : Nat) (old : List Nat) : Prop where
  file : ∃ new clusters, Rewritten l d.img d'.img entry old new clusters
  refs : d'.refs = d.refs
  nodeNext : d'.nodeNext = d.nodeNext
  others : ∀ other, other ≠ slot → d'.pool other = d.pool other
  ptr : (d'.pool slot).ptr = (d.pool slot).ptr
  kind : (d'.pool slot).kind = (d.pool slot).kind
  agrees : Agrees d.img entry (d.pool slot) → Agrees d'.img entry (d'.pool slot)

section Effect

variable {d : Driver} {slot : Nat}

/-- The result of a write: the number of bytes stored, and the driver. -/
def WriteOutcome (l : Layout) (d : Driver) (slot entry : Nat) (old : List Nat)
    (offset size : Nat) (buffer : Nat → UInt8) (result : Nat × Driver) : Prop :=
  WriteEffect l d result.2 slot entry old ∧
    ∃ clusters, Stored l d.img result.2.img entry offset size result.1 buffer old clusters

/-- A write replaces the image and the node through which it was made. -/
theorem WriteEffect.of_update {img : Bytes} {node : Node}
    (file : ∃ new clusters, Rewritten l d.img img entry old new clusters)
    (ptr : node.ptr = (d.pool slot).ptr) (kind : node.kind = (d.pool slot).kind)
    (agrees : Agrees d.img entry (d.pool slot) → Agrees img entry node) :
    WriteEffect l d { d with img, pool := update d.pool slot node } slot entry old := by
  refine ⟨file, rfl, rfl, fun other different => update_of_ne different _ _, ?_, ?_, ?_⟩
  all_goals simp only [update_self]
  · exact ptr
  · exact kind
  · exact agrees

theorem Extending.wasEmpty_iff (extending : Extending l before entry first old new x) :
    (x.firstNew ≠ 0 ∧ x.newParent = 0) ↔ old = [] := by
  have usable := extending.grown.chain.usable
  rw [extending.firstNew, extending.newParent]
  cases new with
  | nil =>
    have nonempty : old ≠ [] := by simpa using extending.grown.chain.nonempty
    simp [nonempty]
  | cons node new =>
    have two := (usable node (by simp)).1
    rcases List.eq_nil_or_concat' old with rfl | ⟨earlier, last, rfl⟩
    · simp only [List.headD_cons, reduceCtorEq, ↓reduceIte, List.getLastD_nil, and_true, iff_true]
      omega
    · have lastTwo := (usable last (by simp)).1
      simp only [List.headD_cons, reduceCtorEq, ↓reduceIte, List.getLastD_concat,
        List.append_eq_nil_iff, List.cons_ne_self, and_false, iff_false]
      omega

variable {offset : Nat} {buffer : Nat → UInt8} (apart : Apart l d.img entry old)
  (length : field d.img 4 (entry + 28) ≤ old.length * l.bytesPerCluster)

include apart length

theorem finishWrite_value {size written : Nat}
    (extending : Extending l d.img entry first old new x)
    (wasFirst : old = [] ∨ first = field d.img 2 (entry + 26))
    (bound : written ≠ 0 → offset + written ≤ (old ++ new).length * l.bytesPerCluster)
    (within : written ≤ size)
    (bytes : Spliced l d.img x.img offset written buffer old (old ++ new))
    (short : 0 < written → written < size → NoneFree l x.img) :
    WriteOutcome l d slot entry old offset size buffer
      (finishWrite l d slot entry first offset written x).value := by
  have grown := extending.grown
  have fits := length_mul_le (usable_length_le grown.chain.distinct grown.chain.usable)
  have limit := l.imgSize_le
  rw [finishWrite]
  simp only [value_ite, value_bind, value_pure, extending.wasEmpty_iff]
  split
  case isTrue nothing =>
    subst nothing
    have restored := rollback_value apart extending
    have rewritten := restored.rewritten apart grown length
    have same := restored.length_eq apart grown
    refine ⟨.of_update ⟨new, old, rewritten⟩ rfl rfl fun agrees =>
      ⟨agrees.ptr, ?_, fun isFile => ?_⟩, old, within, rewritten.chain, ?_, same, fun _ => rfl,
      fun positive => absurd positive (by omega)⟩
    · simp only [restored.stored]
      split
      case isTrue empty => rfl
      case isFalse nonempty => rw [agrees.impl, wasFirst.resolve_left nonempty]
    · rw [agrees.length isFile, same]
    · refine bytes.left.congr fun cluster member index inside =>
        restored.data index (le_of_inCluster inside) ?_
      by_contra inEntry
      exact (grown.avoids apart (by omega) (by omega) cluster (by simp [member])).2 inside
  case isFalse something =>
    have written_le := bound something
    have implEq : Agrees d.img entry (d.pool slot) →
        (if old = [] then first else (d.pool slot).impl) = first := by
      intro agrees
      split
      case isTrue empty => rfl
      case isFalse nonempty => rw [agrees.impl, wasFirst.resolve_left nonempty]
    have same := grown.length_eq apart
    rw [rd32_entry apart, Nat.mod_eq_of_lt (show offset + written < 2 ^ 32 by omega)]
    split
    case isTrue longer =>
      rw [wr32_entry apart]
      have stored : field (setField x.img 4 (entry + 28) (offset + written)) 4
          (entry + 28) = offset + written := by
        rw [field_setField]
        omega
      have rewritten : Rewritten l d.img (setField x.img 4 (entry + 28) (offset + written)) entry
          old new (old ++ new) :=
        grown.rewritten apart (fun index outside => setField_of_outside (by omega)) (by omega)
      refine ⟨.of_update ⟨new, old ++ new, rewritten⟩ rfl rfl fun agrees =>
        ⟨agrees.ptr, ?_, fun _ => stored.symm⟩, old ++ new, within, rewritten.chain, ?_, ?_,
        fun zero => absurd zero something, fun positive less cluster usable => ?_⟩
      · simp only [implEq agrees]
        rw [field_setField_of_disjoint (by omega), grown.stored]
      · refine bytes.congr fun cluster member index inside => setField_of_outside ?_
        by_contra inEntry
        exact (grown.avoids apart (by omega) (by omega) cluster member).2 inside
      · rw [stored, if_neg something]
        omega
      · rw [apart.fatEntry_setField usable (by omega)]
        exact short positive less cluster usable
    case isFalse shorter =>
      have longer : old.length * l.bytesPerCluster ≤ (old ++ new).length * l.bytesPerCluster :=
        Nat.mul_le_mul_right _ (by simp)
      have rewritten := grown.rewritten apart (fun _ _ => rfl) (by omega)
      refine ⟨.of_update ⟨new, old ++ new, rewritten⟩ rfl rfl fun agrees =>
        ⟨agrees.ptr, ?_, fun isFile => ?_⟩, old ++ new, within, rewritten.chain, bytes, ?_,
        fun zero => absurd zero something, short⟩
      · simp only [implEq agrees]
        exact grown.stored.symm
      · rw [same]
        exact agrees.length isFile
      · rw [if_neg something]
        simp only
        omega

variable (chain : FileChain l d.img (field d.img 2 (entry + 26)) old)

include chain

omit apart length in
theorem Stored.refl (offset size : Nat) (buffer : Nat → UInt8) :
    Stored l d.img d.img entry offset size 0 buffer old old where
  within := size.zero_le
  chain := chain
  bytes := fun p within => by rw [if_neg (by omega), if_pos within]
  length := rfl
  nothing := fun _ => rfl
  short := fun positive => absurd positive (by omega)

omit apart in
theorem WriteEffect.refl (slot : Nat) : WriteEffect l d d slot entry old :=
  ⟨⟨[], old, by simp, fun _ _ _ => rfl, chain, Or.inl rfl, by simp, length⟩, rfl, rfl,
    fun _ _ => rfl, rfl, rfl, id⟩

omit apart in
theorem WriteOutcome.refl (slot offset size : Nat) (buffer : Nat → UInt8) :
    WriteOutcome l d slot entry old offset size buffer (0, d) :=
  ⟨.refl length chain slot, old, .refl chain offset size buffer⟩

theorem writeFile_value (order : offset < stop) :
    WriteOutcome l d slot entry old offset (stop - offset) buffer
      (writeFile l d slot entry offset stop buffer).value := by
  rw [writeFile]
  simp only [value_bind]
  rcases firstOrAlloc_value apart chain with
    full | ⟨first, new, x, start, extending, fresh, ⟨later, position⟩, wasFirst⟩
  · rw [full]
    exact .refl length chain slot offset _ buffer
  · rw [start]
    simp only [value_bind]
    have enough : stop ≤ (stop / l.bytesPerCluster +
        if stop % l.bytesPerCluster ≠ 0 then 1 else 0) * l.bytesPerCluster := by
      have parts := Nat.div_add_mod' stop l.bytesPerCluster
      have large := l.le_bytesPerCluster
      have below := Nat.mod_lt stop (show 0 < l.bytesPerCluster by omega)
      rw [Nat.add_mul]
      split <;> omega
    generalize (stop / l.bytesPerCluster + if stop % l.bytesPerCluster ≠ 0 then 1 else 0) = needed
      at enough
    obtain ⟨new, extended, fresh, reached⟩ :=
      extendLoop_value apart (needed - 1) extending fresh (position.trans (List.nil_append _).symm)
    generalize (extendLoop l (needed - 1) x).value = x at extended fresh reached
    have grown := extended.grown
    obtain ⟨last, large, linked⟩ := grown.chain.ends
    have fits := length_mul_le (usable_length_le grown.chain.distinct grown.chain.usable)
    obtain ⟨count, -, within, img, copied, change, bytes, reason⟩ := copyLoop_value buffer needed 0
      order grown.chain.usable grown.chain.distinct large linked (by simpa using fits)
    have nothingYet : storedBefore l offset stop 0 = 0 := by simp [storedBefore]
    rw [nothingYet] at copied
    rw [copied]
    rw [Nat.zero_add] at within reason
    have clusters := Nat.mul_le_mul_right l.bytesPerCluster within
    refine finishWrite_value apart length (x := { x with img }) ⟨grown.changeData apart change,
      extended.firstNew, extended.newParent, extended.newCount⟩ wasFirst (fun something => ?_)
      ?_ (bytes.spliced grown apart fresh) fun positive less cluster usable => ?_
    · simp only [storedBefore] at something ⊢
      omega
    · simp only [storedBefore]
      omega
    · -- The copy ended before the last byte, so the chain has ended before it too.
      simp only [storedBefore] at positive less
      have ended : count < needed := Nat.lt_of_mul_lt_mul_right (a := l.bytesPerCluster) (by omega)
      simp only [List.length_nil] at reached
      have none := reached.resolve_left (by omega) cluster usable
      rwa [fatEntry_congr fun index inTable => change index fun _ _ =>
        not_inCluster_of_inTable usable inTable]

/-- A write through a node whose entry has a sound chain. -/
theorem fat16VfsWrite_value (describes : (d.pool slot).ptr = some entry) (offset size : Nat)
    (buffer : Option (Nat → UInt8)) :
    WriteOutcome l d slot entry old offset size (buffer.getD fun _ => 0)
      (fat16VfsWrite l d slot offset size buffer).value := by
  have unchanged := WriteOutcome.refl length chain slot offset size
  unfold fat16VfsWrite
  rw [describes]
  cases buffer with
  | none => exact unchanged _
  | some buffer =>
    simp only [value_ite, value_pure]
    split
    · exact unchanged buffer
    case isFalse nonempty =>
      split
      · exact unchanged buffer
      split
      · exact unchanged buffer
      have order : offset < offset + size := by omega
      simpa only [Nat.add_sub_cancel_left, Option.getD_some] using
        writeFile_value apart length chain order

end Effect

end MiniOS.Fat16
