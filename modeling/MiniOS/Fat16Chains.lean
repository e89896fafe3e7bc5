import MiniOS.Fat16Image
import MiniOS.LinkedSegments
import MiniOS.RootedChains

/-!
# Cluster chains

A chain of a FAT16 volume is a segment of the links in the file allocation
table that passes distinct usable clusters and arrives at an end marker.  The
lemmas here describe the loops of the driver that allocate, extend, fill and
free chains by their effect on such segments.
-/

namespace MiniOS

namespace Fat16

open LinkedSegments TracedAccess Traced

variable {l : Layout} {img img' : Bytes}

def InTable (l : Layout) (cluster index : Nat) : Prop :=
  l.fatStart + cluster * 2 ≤ index ∧ index < l.fatStart + cluster * 2 + 2

def InCluster (l : Layout) (cluster index : Nat) : Prop :=
  l.clusterStart cluster ≤ index ∧ index < l.clusterStart cluster + l.bytesPerCluster

def Avoids (l : Layout) (clusters : List Nat) (index : Nat) : Prop :=
  ∀ cluster ∈ clusters, ¬ InTable l cluster index ∧ ¬ InCluster l cluster index

variable {cluster index other value first stop : Nat} {clusters : List Nat}

theorem fatEntry_congr (same : ∀ index, InTable l cluster index → img index = img' index) :
    fatEntry l img cluster = fatEntry l img' cluster :=
  field_congr fun k below => same _ ⟨by omega, by omega⟩

theorem inTable_lt (usable : l.Usable cluster)
    (inside : InTable l cluster index) : index < l.rootStart := by
  have entry := usable.fatEntry_le
  have below := inside.2
  omega

theorem rootStart_le_dataStart (l : Layout) : l.rootStart ≤ l.dataStart := by
  have root := l.rootStart_add_le
  omega

theorem le_of_inCluster (inside : InCluster l cluster index) : l.dataStart ≤ index :=
  (l.dataStart_le_clusterStart cluster).trans inside.1

theorem not_inTable_of_data (usable : l.Usable cluster) (data : l.dataStart ≤ index) :
    ¬ InTable l cluster index := by
  intro inside
  have low := inTable_lt usable inside
  have regions := rootStart_le_dataStart l
  omega

theorem not_inCluster_of_inTable (usable : l.Usable cluster)
    (inside : InTable l cluster index) : ¬ InCluster l other index :=
  fun data => not_inTable_of_data usable (le_of_inCluster data) inside

theorem inTable_unique (inside : InTable l cluster index)
    (also : InTable l other index) : cluster = other := by
  have first := inside.1
  have second := inside.2
  have third := also.1
  have fourth := also.2
  omega

theorem inCluster_unique (usable : l.Usable cluster)
    (otherUsable : l.Usable other) (inside : InCluster l cluster index)
    (also : InCluster l other index) : cluster = other := by
  rcases Nat.lt_trichotomy cluster other with less | same | greater
  · have apart := l.clusters_disjoint usable.1 less
    have first := inside.2
    have second := also.1
    omega
  · exact same
  · have apart := l.clusters_disjoint otherUsable.1 greater
    have first := also.2
    have second := inside.1
    omega

/-- Changes that stay within some clusters leave the table entries of the others. -/
theorem fatEntry_of_avoids
    (frame : ∀ index, index < l.rootStart → Avoids l clusters index → img' index = img index)
    (usable : l.Usable cluster) (other : cluster ∉ clusters) :
    fatEntry l img' cluster = fatEntry l img cluster := by
  refine fatEntry_congr fun index inside => frame index (inTable_lt usable inside) ?_
  refine fun touched member => ⟨fun also => ?_, not_inCluster_of_inTable usable inside⟩
  rw [inTable_unique inside also] at other
  exact other member

def setEntry (l : Layout) (img : Bytes) (cluster value : Nat) : Bytes :=
  setField img 2 (l.fatStart + cluster * 2) value

theorem setEntry_of_not_inTable (outside : ¬ InTable l cluster index) :
    setEntry l img cluster value index = img index := by
  refine setField_of_outside ?_
  rw [InTable, not_and_or] at outside
  omega

theorem fatEntry_setEntry (l : Layout) (img : Bytes)
    (small : value < 2 ^ 16) : fatEntry l (setEntry l img cluster value) cluster = value := by
  rw [fatEntry, setEntry, field_setField]
  exact Nat.mod_eq_of_lt small

theorem fatEntry_setEntry_of_ne (different : other ≠ cluster) :
    fatEntry l (setEntry l img cluster value) other = fatEntry l img other :=
  field_setField_of_disjoint (by omega)

def clearCluster (l : Layout) (img : Bytes) (cluster : Nat) : Bytes :=
  overwrite img (l.clusterStart cluster) l.bytesPerCluster fun _ => 0

theorem clearCluster_of_not_inCluster (outside : ¬ InCluster l cluster index) :
    clearCluster l img cluster index = img index := by
  refine overwrite_of_outside ?_
  rw [InCluster, not_and_or] at outside
  omega

def claimCluster (l : Layout) (img : Bytes) (cluster : Nat) : Bytes :=
  clearCluster l (setEntry l img cluster eocMark) cluster

theorem claimCluster_of_avoids (outside : Avoids l [cluster] index) :
    claimCluster l img cluster index = img index := by
  obtain ⟨notTable, notCluster⟩ := outside cluster (by simp)
  rw [claimCluster, clearCluster_of_not_inCluster notCluster, setEntry_of_not_inTable notTable]

theorem fatEntry_claimCluster (usable : l.Usable cluster) :
    fatEntry l (claimCluster l img cluster) cluster = eocMark := by
  have cleared : fatEntry l (claimCluster l img cluster) cluster =
      fatEntry l (setEntry l img cluster eocMark) cluster :=
    fatEntry_congr fun index inside =>
      clearCluster_of_not_inCluster (not_inCluster_of_inTable usable inside)
  rw [cleared]
  exact fatEntry_setEntry l img (by decide)

theorem fatEntry_claimCluster_of_ne (usable : l.Usable other) (different : other ≠ cluster) :
    fatEntry l (claimCluster l img cluster) other = fatEntry l img other :=
  fatEntry_of_avoids (fun _ _ (avoids : Avoids l [cluster] _) => claimCluster_of_avoids avoids) usable (by simpa using different)

def NoneFree (l : Layout) (img : Bytes) : Prop :=
  ∀ cluster, l.Usable cluster → fatEntry l img cluster ≠ 0

inductive Allocated (l : Layout) (img : Bytes) : Nat × Bytes → Prop
  | full (none : NoneFree l img) :
      Allocated l img (0, img)
  | claimed {cluster : Nat} (usable : l.Usable cluster) (free : fatEntry l img cluster = 0) :
      Allocated l img (cluster, claimCluster l img cluster)

theorem allocLoop_value {remaining : Nat} (two : 2 ≤ cluster)
    (bound : cluster + remaining = l.maxCluster ∨ l.maxCluster ≤ cluster ∧ remaining = 0)
    (earlier : ∀ other, l.Usable other → other < cluster → fatEntry l img other ≠ 0) :
    Allocated l img (allocLoop l img remaining cluster).value := by
  induction remaining generalizing cluster with
  | zero =>
    refine .full fun other usable => earlier other usable ?_
    have below := usable.2
    omega
  | succ remaining ih =>
    have usable : l.Usable cluster := ⟨two, by omega⟩
    have entry : (rd16 l.imgSize img (fat16FatOff l cluster)).value = fatEntry l img cluster :=
      fat16NextCluster_usable img usable
    have inside := usable.clusterEnd_le
    have size := l.imgSize_le
    rw [allocLoop]
    simp only [value_bind, value_ite, value_touch, value_pure, entry,
      fat16SetCluster_usable img usable, fat16ClusterOff_usable usable]
    rw [Nat.mod_eq_of_lt (by omega), if_pos inside]
    split
    case isTrue free => exact .claimed usable free
    case isFalse taken =>
      refine ih (by omega) (by omega) fun other otherUsable before => ?_
      rcases Nat.lt_or_ge other cluster with less | notLess
      · exact earlier other otherUsable less
      · rwa [show other = cluster by omega]

theorem fat16AllocCluster_value (l : Layout) (img : Bytes) :
    Allocated l img (fat16AllocCluster l img).value := by
  refine allocLoop_value (by omega) ?_ fun other usable before => ?_
  · omega
  · have two := usable.1
    omega

/-- Following the links from `first` passes the clusters of the list, which are
usable and distinct, and arrives at an end marker. -/
structure Chain (l : Layout) (img : Bytes) (first : Nat) (clusters : List Nat) : Prop where
  nonempty : clusters ≠ []
  usable : ∀ cluster ∈ clusters, l.Usable cluster
  distinct : clusters.Nodup
  ends : ∃ stop, eoc ≤ stop ∧ Segment (fatEntry l img) first clusters stop

def FileChain (l : Layout) (img : Bytes) (first : Nat) (clusters : List Nat) : Prop :=
  first = 0 ∧ clusters = [] ∨ Chain l img first clusters

variable (chain : Chain l img first clusters)

include chain

/-- A chain is its first cluster and the chain that its link leads to, if that is not an
end marker. -/
theorem Chain.cases : ∃ rest, clusters = first :: rest ∧ l.Usable first ∧ first ∉ rest ∧
      (eoc ≤ fatEntry l img first ∧ rest = [] ∨ Chain l img (fatEntry l img first) rest) := by
  obtain ⟨stop, large, linked⟩ := chain.ends
  cases clusters with
  | nil => exact absurd rfl chain.nonempty
  | cons cluster rest =>
    obtain ⟨rfl, following⟩ := linked
    obtain ⟨notLater, distinct⟩ := List.nodup_cons.mp chain.distinct
    refine ⟨rest, rfl, chain.usable first (by simp), notLater, ?_⟩
    by_cases last : rest = []
    · subst last
      exact Or.inl ⟨segment_nil.mp following ▸ large, rfl⟩
    · exact Or.inr ⟨last, fun node member => chain.usable node (by simp [member]), distinct, stop,
        large, following⟩

theorem Chain.first_usable : l.Usable first := by
  obtain ⟨-, -, usable, -⟩ := chain.cases
  exact usable

theorem Chain.congr (same : ∀ cluster ∈ clusters, fatEntry l img' cluster = fatEntry l img cluster) :
    Chain l img' first clusters := by
  obtain ⟨stop, large, linked⟩ := chain.ends
  exact ⟨chain.nonempty, chain.usable, chain.distinct, stop, large, linked.congr same⟩

omit chain

theorem FileChain.congr (chain : FileChain l img first clusters)
    (same : ∀ cluster ∈ clusters, fatEntry l img' cluster = fatEntry l img cluster) :
    FileChain l img' first clusters :=
  chain.imp_right fun chain => chain.congr same

theorem FileChain.usable (chain : FileChain l img first clusters) :
    ∀ cluster ∈ clusters, l.Usable cluster := by
  rcases chain with ⟨-, rfl⟩ | chain
  · simp
  · exact chain.usable

theorem Chain.unique {clusters' : List Nat} (chain : Chain l img first clusters)
    (chain' : Chain l img first clusters') :
    clusters = clusters' := by
  induction clusters generalizing first clusters' with
  | nil => exact absurd rfl chain.nonempty
  | cons cluster clusters ih =>
    obtain ⟨rest, same, -, -, next⟩ := chain.cases
    obtain ⟨rfl, rfl⟩ := List.cons.inj same
    obtain ⟨rest', rfl, -, -, next'⟩ := chain'.cases
    rcases next with ⟨large, rfl⟩ | next
    · rcases next' with ⟨-, rfl⟩ | next'
      · rfl
      · exact absurd next'.first_usable.lt_eoc (Nat.not_lt.mpr large)
    · rcases next' with ⟨large, -⟩ | next'
      · exact absurd next.first_usable.lt_eoc (Nat.not_lt.mpr large)
      · rw [ih next next']

theorem FileChain.unique {clusters' : List Nat} (chain : FileChain l img first clusters)
    (chain' : FileChain l img first clusters') :
    clusters = clusters' := by
  rcases chain with ⟨rfl, rfl⟩ | chain
  · rcases chain' with ⟨-, rfl⟩ | chain'
    · rfl
    · exact absurd chain'.first_usable.1 (by decide)
  · rcases chain' with ⟨rfl, -⟩ | chain'
    · exact absurd chain.first_usable.1 (by decide)
    · exact chain.unique chain'

theorem Chain.entry_ne_zero (chain : Chain l img first clusters) (member : cluster ∈ clusters) :
    fatEntry l img cluster ≠ 0 := by
  induction clusters generalizing first with
  | nil => simp at member
  | cons node clusters ih =>
    obtain ⟨rest, same, -, -, next⟩ := chain.cases
    obtain ⟨rfl, rfl⟩ := List.cons.inj same
    rcases next with ⟨large, rfl⟩ | next
    · rw [List.mem_singleton.mp member]
      rw [eoc] at large
      omega
    · rcases List.mem_cons.mp member with rfl | later
      · have two := next.first_usable.1
        omega
      · exact ih next later

theorem FileChain.entry_ne_zero (chain : FileChain l img first clusters)
    (member : cluster ∈ clusters) :
    fatEntry l img cluster ≠ 0 := by
  rcases chain with ⟨-, rfl⟩ | chain
  · simp at member
  · exact chain.entry_ne_zero member

/-- A chain has no more clusters than the volume. -/
theorem usable_length_le (distinct : clusters.Nodup)
    (usable : ∀ cluster ∈ clusters, l.Usable cluster) : clusters.length ≤ l.maxCluster - 2 := by
  have contained : clusters ⊆ List.range' 2 (l.maxCluster - 2) := by
    intro cluster member
    have two := (usable cluster member).1
    have below := (usable cluster member).2
    rw [List.mem_range'_1]
    omega
  have bound := (List.subperm_of_subset distinct contained).length_le
  rwa [List.length_range'] at bound

theorem length_mul_le {count : Nat} (bound : count ≤ l.maxCluster - 2) :
    count * l.bytesPerCluster ≤ l.imgSize := by
  have clusters : count ≤ (l.imgSize - l.dataStart) / l.bytesPerCluster :=
    bound.trans (Nat.sub_le_iff_le_add'.mpr l.maxCluster_le_data)
  calc count * l.bytesPerCluster
      ≤ (l.imgSize - l.dataStart) / l.bytesPerCluster * l.bytesPerCluster :=
        Nat.mul_le_mul_right _ clusters
    _ ≤ l.imgSize - l.dataStart := Nat.div_mul_le_self _ _
    _ ≤ l.imgSize := Nat.sub_le _ _

theorem Chain.followLinks_value (chain : Chain l img first clusters) (links : Nat) :
    (followLinks l img links first).value = clusters[links]? := by
  induction links generalizing first clusters with
  | zero =>
    obtain ⟨rest, rfl, -⟩ := chain.cases
    rfl
  | succ links ih =>
    obtain ⟨rest, rfl, usable, -, next⟩ := chain.cases
    rw [followLinks, value_bind, value_ite, fat16NextCluster_usable img usable,
      List.getElem?_cons_succ]
    rcases next with ⟨large, rfl⟩ | next
    · rw [if_pos (Or.inr large)]
      rfl
    · have two := next.first_usable.1
      have small := next.first_usable.lt_eoc
      rw [if_neg (by omega)]
      exact ih next

theorem Chain.chainValidLoop_value {steps : Nat} (chain : Chain l img first clusters)
    (enough : clusters.length ≤ steps) : (chainValidLoop l img steps first).value = true := by
  induction steps generalizing first clusters with
  | zero => exact absurd (List.eq_nil_of_length_eq_zero (Nat.le_zero.mp enough)) chain.nonempty
  | succ steps ih =>
    obtain ⟨rest, rfl, usable, -, next⟩ := chain.cases
    rw [chainValidLoop, if_neg (not_not.mpr (l.clusterValid_iff.mpr usable)), value_bind, value_ite,
      fat16NextCluster_usable img usable]
    rcases next with ⟨large, rfl⟩ | next
    · rw [if_pos large]
      rfl
    · have small := next.first_usable.lt_eoc
      rw [if_neg (by omega)]
      exact ih next (by simpa using enough)

/-- The loop accepts only chains: one that came back to a cluster would never end. -/
theorem exists_chain {steps : Nat} (valid : (chainValidLoop l img steps first).value = true) :
    ∃ clusters, Chain l img first clusters := by
  let next (cluster : Nat) : Option Nat :=
    if eoc ≤ fatEntry l img cluster then none else some (fatEntry l img cluster)
  have walked : ∃ clusters stop, RootedChains.Ends next (some first) clusters ∧
      (∀ cluster ∈ clusters, l.Usable cluster) ∧ eoc ≤ stop ∧
      Segment (fatEntry l img) first clusters stop := by
    induction steps generalizing first with
    | zero => exact nomatch valid
    | succ steps ih =>
      rw [chainValidLoop, value_ite] at valid
      split at valid
      · exact nomatch valid
      · next isValid =>
        have usable := l.clusterValid_iff.mp (not_not.mp isValid)
        rw [value_bind, value_ite, fat16NextCluster_usable img usable] at valid
        split at valid
        · next large =>
          exact ⟨[first], _, .step (by simp only [next, large, if_true]; exact .root),
            by simpa using usable, large, rfl, rfl⟩
        · next small =>
          obtain ⟨clusters, stop, ends, all, large, linked⟩ := ih valid
          exact ⟨first :: clusters, stop, .step (by simpa only [next, small, if_false] using ends),
            List.forall_mem_cons.mpr ⟨usable, all⟩, large, rfl, linked⟩
  obtain ⟨clusters, stop, ends, usable, large, linked⟩ := walked
  exact ⟨clusters, (by rintro rfl; cases ends), usable, ends.nodup, stop, large, linked⟩

/-- `fat16_chain_valid` accepts the chains that a file may have, and no others. -/
theorem chainValid_iff :
    (fat16ChainValid l img first).value = true ↔ ∃ clusters, FileChain l img first clusters := by
  rw [fat16ChainValid]
  simp only [value_ite, value_pure]
  constructor
  · split
    · next empty => exact fun _ => ⟨[], Or.inl ⟨empty, rfl⟩⟩
    · exact fun valid => (exists_chain valid).imp fun _ => Or.inr
  · rintro ⟨clusters, ⟨rfl, -⟩ | chain⟩
    · rw [if_pos rfl]
    · have two := chain.first_usable.1
      have below := l.maxCluster_lt
      rw [if_neg (by omega), min_eq_left below.le]
      exact chain.chainValidLoop_value (usable_length_le chain.distinct chain.usable)

end Fat16

end MiniOS
