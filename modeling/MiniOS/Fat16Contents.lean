import MiniOS.Fat16Run

/-!
# The contents of a FAT16 file

A file is an array of bytes: the first bytes of its chain, up to the length in
its directory entry.  `fat16_vfs_read` returns pieces of this array, and
`fat16_vfs_write` splices the bytes that it stores into it.
-/

namespace MiniOS.Fat16

open LinkedSegments Machine TracedAccess Traced

variable {l : Layout} {img img' : Bytes}

section Reading

variable {clusters rest : List Nat} {cluster node last p pos size rounds offset : Nat}
  {copied : List UInt8}

theorem chainByte_drop (count : Nat) :
    chainByte l img (clusters.drop count) p =
      chainByte l img clusters (count * l.bytesPerCluster + p) := by
  have large := l.le_bytesPerCluster
  simp only [chainByte, List.getD_eq_getElem?_getD, List.getElem?_drop]
  rw [Nat.mul_comm, Nat.mul_add_div (by omega), Nat.mul_add_mod]

theorem chainByte_first (inside : p < l.bytesPerCluster) :
    chainByte l img (cluster :: rest) p = img (l.clusterStart cluster + p) := by
  rw [chainByte, Nat.div_eq_of_lt inside, Nat.mod_eq_of_lt inside]
  rfl

theorem readLoop_done (done : size ≤ copied.length) (positive : 0 < rounds) :
    (readLoop l img size rounds cluster pos copied).value = some copied := by
  cases rounds with
  | zero => omega
  | succ rounds =>
    rw [readLoop, if_neg (by omega)]
    rfl

theorem readLoop_value (usable : ∀ node ∈ rest, l.Usable node)
    (linked : Segment (fatEntry l img) cluster rest last) (inside : pos < l.bytesPerCluster)
    (backed : pos + (size - copied.length) ≤ rest.length * l.bytesPerCluster)
    (enough : rest.length < rounds) :
    (readLoop l img size rounds cluster pos copied).value =
      some (copied ++ (List.range (size - copied.length)).map fun k =>
        chainByte l img rest (pos + k)) := by
  induction rest generalizing rounds cluster pos copied with
  | nil =>
    rw [List.length_nil, Nat.zero_mul] at backed
    rw [readLoop_done (by omega) (by omega), show size - copied.length = 0 by omega]
    simp
  | cons node rest ih =>
    rcases Nat.lt_or_ge copied.length size with more | done
    · obtain ⟨rounds, rfl⟩ : ∃ fewer, rounds = fewer + 1 := ⟨rounds - 1, by omega⟩
      obtain ⟨rfl, following⟩ := linked
      have clusterUsable := usable cluster (by simp)
      have two := clusterUsable.1
      have small := clusterUsable.lt_eoc
      have fits := clusterUsable.clusterEnd_le
      have limit := l.imgSize_le
      rw [readLoop, if_pos ⟨more, two, small⟩, fat16ClusterOff_usable clusterUsable]
      generalize wantedEq : min (size - copied.length) (l.bytesPerCluster - pos) = wanted
      dsimp only
      rw [Nat.mod_eq_of_lt (show l.clusterStart cluster + pos < 2 ^ 32 by omega),
        Nat.mod_eq_of_lt (show l.clusterStart cluster + pos + wanted < 2 ^ 32 by omega),
        if_neg (by omega)]
      have first : slice img (l.clusterStart cluster + pos) wanted =
          (List.range wanted).map fun k => chainByte l img (cluster :: rest) (pos + k) := by
        refine List.map_congr_left fun k member => ?_
        rw [List.mem_range] at member
        rw [chainByte_first (by omega), Nat.add_assoc]
      simp only [value_bind, value_touch, value_ite, value_pure, List.length_append, slice_length,
        fat16NextCluster_usable img clusterUsable]
      rw [List.length_cons, Nat.add_mul, Nat.one_mul] at backed
      rw [List.length_cons] at enough
      split
      case isTrue again =>
        rw [ih (fun other member => usable other (by simp [member])) following (by omega)
          (by simp only [List.length_append, slice_length]; omega) (by omega)]
        simp only [List.length_append, slice_length]
        rw [show size - copied.length = wanted + (size - (copied.length + wanted)) by omega,
          List.range_add, List.map_append, List.map_map, ← first, List.append_assoc]
        refine congrArg (fun tail => some (copied ++ (_ ++ tail))) (List.map_congr_left fun k _ => ?_)
        rw [Function.comp_apply, Nat.zero_add, show rest = (cluster :: rest).drop 1 from rfl,
          chainByte_drop]
        congr 1
        omega
      case isFalse complete =>
        rw [readLoop_done (by simp only [List.length_append, slice_length]; omega) (by omega), first,
          show size - copied.length = wanted by omega]
    · rw [readLoop_done done (by omega), show size - copied.length = 0 by omega]
      simp

end Reading

theorem fat16VfsRead_value {clusters : List Nat} {node : Node} {rounds : Nat}
    (chain : FileChain l img node.impl clusters)
    (backed : node.length ≤ clusters.length * l.bytesPerCluster) (enough : l.maxCluster ≤ rounds)
    (offset size : Nat) :
    (fat16VfsRead l rounds img node offset size).value =
      some ((((List.range node.length).map (chainByte l img clusters)).drop offset).take size) := by
  have large := l.le_bytesPerCluster
  rw [fat16VfsRead, value_ite]
  split
  case isTrue ended =>
    rw [List.drop_eq_nil_of_le (by simpa using ended)]
    simp
  case isFalse before =>
    have number : offset / l.bytesPerCluster < clusters.length :=
      Nat.div_lt_of_lt_mul (by rw [Nat.mul_comm]; omega)
    rcases chain with ⟨-, rfl⟩ | chain
    · simp at number
    · obtain ⟨stop, -, linked⟩ := chain.ends
      rw [← List.take_append_drop (offset / l.bytesPerCluster) clusters] at linked
      obtain ⟨middle, -, following⟩ := segment_append.mp linked
      have position := Nat.div_add_mod' offset l.bytesPerCluster
      have count := usable_length_le chain.distinct chain.usable
      have nonempty := Nat.zero_lt_of_lt number
      have backs : offset % l.bytesPerCluster + min size (node.length - offset) ≤
          (clusters.length - offset / l.bytesPerCluster) * l.bytesPerCluster := by
        rw [Nat.sub_mul]
        omega
      have atStart : middle = clusters[offset / l.bytesPerCluster] := by
        rw [following.start_eq, List.drop_eq_getElem_cons number, List.headD_cons]
      simp only [value_bind, chain.followLinks_value, List.getElem?_eq_getElem number, ← atStart]
      rw [readLoop_value (fun other member => chain.usable other (List.mem_of_mem_drop member))
        following (Nat.mod_lt _ (by omega)) (by simpa using backs)
        (by rw [List.length_drop]; exact (Nat.sub_le _ _).trans_lt (by omega))]
      refine congrArg some (List.ext_getElem (by simp) fun k _ _ => ?_)
      simp [chainByte_drop, ← Nat.add_assoc, position]

/-- The bytes of the file at an entry. -/
def Contents (l : Layout) (img : Bytes) (e : Nat) (data : List UInt8) : Prop :=
  ∃ clusters, FileChain l img (firstCluster img e) clusters ∧
    data = (List.range (fileLength img e)).map (chainByte l img clusters)

/-- The node in `slot` and the entry `e` agree on a file that holds `data`, and every
read returns the bytes of `data` that it asks for. -/
structure Holds (l : Layout) (d : Driver) (slot e : Nat) (data : List UInt8) : Prop where
  contents : Contents l d.img e data
  agrees : Agrees d.img e (d.pool slot)
  reads : ∀ offset size rounds, l.maxCluster ≤ rounds →
    (fat16VfsRead l rounds d.img (d.pool slot) offset size).value =
      some ((data.drop offset).take size)

/-- A write has stored `written` bytes of a buffer into a file that held `data`. -/
structure Splices (l : Layout) (img img' : Bytes) (e offset size written : Nat)
    (buffer : Nat → UInt8) (data data' : List UInt8) : Prop where
  within : written ≤ size
  length : data'.length = if written = 0 then data.length else max data.length (offset + written)
  stored : ∀ k < written, data'[offset + k]? = some (buffer k)
  kept : ∀ p < data.length, p < offset ∨ offset + written ≤ p → data'[p]? = data[p]?
  nothing : written = 0 → firstCluster img' e = firstCluster img e ∧
    ∀ cluster, l.Usable cluster → (fatEntry l img' cluster = 0 ↔ fatEntry l img cluster = 0)
  short : 0 < written → written < size → NoneFree l img'

variable {d d' : Driver} {slot e : Nat} {old new clusters : List Nat}

theorem holds_of_chain (isFile : (d.pool slot).kind = .file) (agrees : Agrees d.img e (d.pool slot))
    (chain : FileChain l d.img (firstCluster d.img e) clusters)
    (backed : fileLength d.img e ≤ clusters.length * l.bytesPerCluster) :
    Holds l d slot e ((List.range (fileLength d.img e)).map (chainByte l d.img clusters)) := by
  refine ⟨⟨clusters, chain, rfl⟩, agrees, fun offset size rounds enough => ?_⟩
  have length : (d.pool slot).length = fileLength d.img e := agrees.length isFile
  rw [fat16VfsRead_value (by rwa [agrees.impl]) (by rwa [length]) enough, length]

theorem FileChain.first_eq {first : Nat} (chain : FileChain l img first clusters) :
    first = clusters.headD 0 := by
  rcases chain with ⟨rfl, rfl⟩ | chain
  · rfl
  · obtain ⟨stop, -, linked⟩ := chain.ends
    cases clusters with
    | nil => exact absurd rfl chain.nonempty
    | cons cluster clusters => exact linked.1

theorem Stored.splices {offset size written : Nat} {buffer : Nat → UInt8}
    (stored : Stored l img img' e offset size written buffer old clusters)
    (rewritten : Rewritten l img img' e old new clusters) (above : l.rootStart ≤ e)
    (chain : FileChain l img (firstCluster img e) old)
    (backed : fileLength img e ≤ old.length * l.bytesPerCluster) :
    Splices l img img' e offset size written buffer
      ((List.range (fileLength img e)).map (chainByte l img old))
      ((List.range (fileLength img' e)).map (chainByte l img' clusters)) := by
  have length : fileLength img' e = if written = 0 then fileLength img e
    else max (fileLength img e) (offset + written) := stored.length
  have backed' : fileLength img' e ≤ clusters.length * l.bytesPerCluster := rewritten.length
  have longer : fileLength img e ≤ fileLength img' e := by
    rw [length]
    split <;> omega
  refine ⟨stored.within, by simpa using length, fun k below => ?_, fun p below outside => ?_,
    fun nothing => ?_, stored.short⟩
  · rw [if_neg (by omega)] at length
    rw [List.getElem?_map, List.getElem?_range (by omega), Option.map_some,
      stored.bytes _ (by omega), if_pos (by omega), Nat.add_sub_cancel_left]
  · simp only [List.length_map, List.length_range] at below
    rw [List.getElem?_map, List.getElem?_range (by omega), List.getElem?_map,
      List.getElem?_range below, Option.map_some, Option.map_some, stored.bytes p (by omega),
      if_neg (by omega), if_pos (by omega)]
  · obtain rfl := stored.nothing nothing
    refine ⟨stored.chain.first_eq.trans chain.first_eq.symm, fun cluster usable => ?_⟩
    by_cases inOld : cluster ∈ clusters
    · exact iff_of_false (stored.chain.entry_ne_zero inOld) (chain.entry_ne_zero inOld)
    · by_cases inNew : cluster ∈ new
      · exact iff_of_true (rewritten.freed cluster inNew inOld) (rewritten.free cluster inNew).2
      · rw [fatEntry_of_avoids (fun index below avoids => rewritten.frame index avoids (by omega))
          usable (by simp [inOld, inNew])]

/-- Another file keeps its entry and its bytes. -/
theorem Rewritten.contents_of_other {other : Nat} {data : List UInt8}
    (rewritten : Rewritten l img img' e old new clusters) (wellFormed : WellFormed l img)
    (file : FileAt l img e old) (isOther : Entry l img other) (different : other ≠ e)
    (isFile : ¬ IsDirectory img other) (contents : Contents l img other data) :
    (∀ k < 32, img' (other + k) = img (other + k)) ∧ Contents l img' other data := by
  have update := rewritten.slotUpdate wellFormed file
  obtain ⟨others, owned, rfl⟩ := contents
  refine ⟨fun k below => update.bytes_of_other wellFormed isOther.1 different (by omega) (by omega),
    others, ?_, ?_⟩
  · rw [update.firstCluster_of_other wellFormed isOther.1 different]
    exact update.chain_of_other wellFormed isOther different owned
  · rw [update.fileLength_of_other wellFormed isOther.1 different]
    obtain ⟨others', owned', -, backed⟩ := wellFormed.chains other isOther
    rw [owned'.unique owned] at backed
    refine List.map_congr_left fun p member => ?_
    rw [List.mem_range] at member
    have apart := wellFormed.apart file.entry.1 fun _ => ⟨isOther, isFile, owned⟩
    refine (chainByte_congr (member.trans_le (backed isFile)) fun cluster inside index within => ?_).symm
    have usable := owned.usable cluster inside
    refine rewritten.frame index (fun touched involved => ⟨?_, fun also => ?_⟩) ?_
    · exact not_inTable_of_data (update.usable touched involved) (le_of_inCluster within)
    · rw [inCluster_unique (update.usable touched involved) usable also within] at involved
      exact update.not_mem_of_other wellFormed isOther different owned inside involved
    · by_contra inEntry
      exact apart.apart cluster usable (Or.inl inside) index (by omega) (by omega) within

/-- A file of a sound volume behaves as an array of bytes. -/
theorem fat16VfsWrite_splices (sound : VolumeSound l d) (isFile : (d.pool slot).kind = .file)
    (describes : (d.pool slot).ptr = some e) (live : Live d.img e) (offset size : Nat)
    (buffer : Option (Nat → UInt8)) :
    ∃ data data' written d', (fat16VfsWrite l d slot offset size buffer).value = (written, d') ∧
      Holds l d slot e data ∧ Holds l d' slot e data' ∧
      Splices l d.img d'.img e offset size written (buffer.getD fun _ => 0) data data' ∧
      (∀ i, i ≠ slot → d'.pool i = d.pool i) ∧
      ∀ other others, Entry l d.img other → other ≠ e → ¬ IsDirectory d.img other →
        Contents l d.img other others →
        (∀ k < 32, d'.img (other + k) = d.img (other + k)) ∧ Contents l d'.img other others := by
  obtain ⟨old, file, backed, outcome⟩ := sound.file isFile describes live
  obtain ⟨effect, clusters, stored⟩ := outcome offset size buffer
  generalize (fat16VfsWrite l d slot offset size buffer).value = result at effect stored
  obtain ⟨written, d'⟩ := result
  obtain ⟨new, clusters', rewritten⟩ := effect.file
  obtain rfl := rewritten.chain.unique stored.chain
  have agrees := (sound.pool.agrees slot e describes not_false live).1
  have apart := sound.wellFormed.apart file.entry.1 fun _ => file
  exact ⟨_, _, written, d', rfl, holds_of_chain isFile agrees file.chain backed,
    holds_of_chain (effect.kind.trans isFile) (effect.agrees agrees) stored.chain rewritten.length,
    stored.splices rewritten apart.above file.chain backed, effect.others,
    fun other others => rewritten.contents_of_other sound.wellFormed file⟩

/-- All of 600 bytes at offset 3 of a new file are stored. -/
theorem fat16VfsWrite_splices_newFile :
    ∃ d, runPartial (fatStep smallLayout) (mountedDriver fun _ => 0)
        [.create .root ⟨[0x61], by decide⟩] = some d ∧
      ∃ data data' d',
        (fat16VfsWrite smallLayout d 0 3 600 (some fun _ => 0x78)).value = (600, d') ∧
        Splices smallLayout d.img d'.img 1024 3 600 600 (fun _ => 0x78) data data' := by
  obtain ⟨d, reached, sound, isFile, describes, live, stored⟩ : ∃ d, _ ∧ _ ∧
      (d.pool 0).kind = .file ∧ (d.pool 0).ptr = some 1024 ∧ Live d.img 1024 ∧
      (fat16VfsWrite smallLayout d 0 3 600 (some fun _ => 0x78)).value.1 = 600 :=
    exists_smallRun [.create .root ⟨[0x61], by decide⟩] (by decide +kernel) (by decide +kernel)
  obtain ⟨data, data', written, d', result, -, -, splices, -⟩ :=
    fat16VfsWrite_splices sound isFile describes live 3 600 (some fun _ => 0x78)
  obtain rfl : 600 = written := stored.symm.trans (congrArg Prod.fst result)
  exact ⟨d, reached, data, data', d', result, splices⟩

end MiniOS.Fat16
