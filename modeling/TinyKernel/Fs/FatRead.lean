/-
  Reading files at the edges of the FAT: ranges, markers, damaged tables, long chains.

  What `fat_read_entry` and `fat_read_entry_cluster_offset` read is decided by the table alone:
  `fatVisited` lists the clusters that a walk from a starting cluster comes to, up to the only value
  it stops at, 0xffff.  Every cluster of the list is read or stepped over, and each one but the last
  is an index into the table.  With this list:

  * `ranged_read_iff` — `fat_read_entry_offset_size` puts what lies behind the first cluster of a
    range into its own buffer, so a range is read if and only if it lies in one cluster;
  * `marker_never_ends` — a chain that ends in another end-of-chain value than 0xffff is left through
    that value;
  * `reads_within_volume_iff` — reading a file ends, within the table, exactly if the table leads from
    its starting cluster to 0xffff in time;
  * `read_governed_by_size_iff` — the size of the file decides what is read exactly if the chain has
    no cluster more than the size needs.
-/
import TinyKernel.Fs.FatFs

namespace TinyKernel

/-! ## Ranges -/

section Range

variable {disk : Disk} {h : FatHandle} {clusters : List Nat}

/-- `fat_read_entry_offset_size(handle, entry, ptr, offset, size)` stores the bytes of the range at
    `ptr`, and outside of them writes to the `cluster_size` bytes of its buffer only; whatever
    `ptr` and the buffer hold before. -/
def ReadsRange (disk : Disk) (h : FatHandle) (entry : Fat16DirEntry) (clusters : List Nat)
    (offset size : Nat) : Prop :=
  ∀ buffer m ptr, ∃ m' buffer',
    Returns (fun rounds => fatReadEntryOffsetSize rounds disk h entry buffer m ptr offset size)
      (m', buffer') ∧
    (∀ x, m' x = if ptr ≤ x ∧ x < ptr + size then chainByte disk h clusters (offset + (x - ptr))
      else m x) ∧
    ∀ x, fatGetClusterSize h ≤ x → buffer' x = buffer x

/-- A range that leaves its first cluster: at `ptr` only the part in that cluster is stored. -/
theorem fatReadEntryOffsetSize_crossing (hs : h.Sane) {entry : Fat16DirEntry} {offset size : Nat}
    (hoffset : offset < 2147483648) (hpos : 0 < fatGetClusterSize h)
    (hcross : fatGetClusterSize h < offset % fatGetClusterSize h + size) {rounds ptr : Nat}
    {buffer m m' buffer' : Mem}
    (hres : fatReadEntryOffsetSize rounds disk h entry buffer m ptr offset size = .ok (m', buffer')) :
    ∀ x, ptr + (fatGetClusterSize h - offset % fatGetClusterSize h) ≤ x → m' x = m x := by
  have hle := hs.clusterSize_le
  have hmod := Nat.mod_lt offset hpos
  rw [fatReadEntryOffsetSize, if_neg (by omega)] at hres
  obtain ⟨⟨buffer₁, remaining, out, cluster⟩, -, hres⟩ := bind_eq_ok hres
  have hfirst : m' = memcpy m ptr (fatReadCluster disk h (fatWalk h
      (toInt32 (toSize (offset : Int) / fatGetClusterSize h : Nat)).toNat entry.startingCluster)
      (fatGetClusterSize h) buffer 0)
      (toInt32 (toSize (offset : Int) % fatGetClusterSize h : Nat)).toNat
      (toSize (min (size : Int) (toInt32 (fatGetClusterSize h -
        toInt32 (toSize (offset : Int) % fatGetClusterSize h : Nat))))) := by
    simp only at hres
    split at hres
    · exact (Prod.mk.inj (Except.ok.inj hres)).1.symm
    · exact (Prod.mk.inj (Except.ok.inj hres)).1.symm
  have e1 : toSize (offset : Int) = offset := toSize_natCast (by omega)
  have e2 : toInt32 ((offset % fatGetClusterSize h : Nat) : Int)
      = (offset % fatGetClusterSize h : Nat) :=
    toInt32_of_range (by omega) (by omega)
  have e3 : toInt32 ((fatGetClusterSize h : Int) - (offset % fatGetClusterSize h : Nat))
      = (fatGetClusterSize h - offset % fatGetClusterSize h : Nat) := by
    rw [toInt32_of_range (by omega) (by omega)]
    omega
  have e4 : min (size : Int) (fatGetClusterSize h - offset % fatGetClusterSize h : Nat)
      = (fatGetClusterSize h - offset % fatGetClusterSize h : Nat) := min_eq_right (by omega)
  rw [e1, e2, e3, e4, toSize_natCast (by omega)] at hfirst
  intro x hx
  rw [hfirst, memcpy_apply, if_neg (by omega)]

/-- **Ranged reads.**  On a FAT volume with whole sectors in a cluster, for every range inside the
    chain of an entry: the range is read as it should be if and only if it lies in one cluster.  The
    first piece of a range is copied to `ptr`, and all others to `buffer + out_index`: `buffer` is
    the function's own cluster buffer. -/
theorem ranged_read_iff (hs : h.Sane) (hdvd : 512 ∣ fatGetClusterSize h)
    (hpos : 0 < fatGetClusterSize h) {entry : Fat16DirEntry}
    (hchain : ChainFrom h entry.startingCluster clusters) {offset size : Nat}
    (hoffset : offset < 2147483648) (hsize : 1 ≤ size)
    (hin : offset + size ≤ clusters.length * fatGetClusterSize h) :
    ReadsRange disk h entry clusters offset size ↔
      offset % fatGetClusterSize h + size ≤ fatGetClusterSize h := by
  have hsplit : fatGetClusterSize h * (offset / fatGetClusterSize h) + offset % fatGetClusterSize h
      = offset := Nat.div_add_mod _ _
  constructor
  · intro hread
    by_contra hcross
    -- a destination that holds something else behind the first cluster's part
    let wrong : Mem := fun x => chainByte disk h clusters (offset + x) + 1
    obtain ⟨m', buffer', ⟨enough, hret⟩, hbytes, -⟩ := hread (fun _ => 0) wrong 0
    have hkeep := fatReadEntryOffsetSize_crossing hs hoffset hpos (by omega)
      (hret enough (Nat.le_refl _)) _ (Nat.le_refl _)
    have hmod := Nat.mod_lt offset hpos
    rw [Nat.zero_add, hbytes, if_pos (by omega), Nat.sub_zero] at hkeep
    have hbyte : ∀ b : Byte, b ≠ b + 1 := by decide
    exact hbyte _ hkeep
  · intro hone buffer m ptr
    have hk : offset / fatGetClusterSize h < clusters.length :=
      Nat.div_lt_of_lt_mul (by rw [Nat.mul_comm]; omega)
    obtain ⟨m', buffer', hrun, hbytes, hkeep⟩ := fatReadEntryOffsetSize_chain disk hs hdvd hchain hk
      hsize hone (by omega) buffer m ptr
    rw [hsplit] at hrun hbytes
    exact ⟨m', buffer', ⟨1, hrun⟩, hbytes, hkeep⟩

end Range

/-- A table with the given entries. -/
def tableOf (l : List Nat) : Mem := fun x => BitVec.ofNat 8 (l.getD (x / 2) 0 / 256 ^ (x % 2))

/-- The handle of a volume of eight sectors, like `smallVolume`, with this table. -/
def smallHandle (fat : List Nat) : FatHandle where
  header := ⟨512, 1, 1, 1, 16, 8, 1, 0⟩
  sectors := 8
  fatSizeBytes := 16
  fatOffset := 512
  fat := tableOf fat
  dirEntryOffset := 1024
  dirEntrySizeBytes := 512
  entries := fun _ => 0
  dataOffset := 1536

theorem smallHandle_sane (fat : List Nat) : (smallHandle fat).Sane :=
  ⟨by show 512 ≤ 65535; decide, by show 1 ≤ 255; decide, by show 1536 ≤ 4297064414; decide⟩

/-- A file of two clusters, 2 and 3. -/
theorem smallHandle_two :
    ChainFrom (smallHandle [0xfff8, 0xffff, 3, 0xffff]) 2 [2, 3] :=
  ⟨rfl, by decide, by decide, by decide, by decide, by decide, by show _ = _; decide⟩

/-- A range at the end of its first cluster. -/
theorem ranged_read_iff_end :
    ReadsRange (fun _ => 0) (smallHandle [0xfff8, 0xffff, 3, 0xffff]) ⟨2, 1024⟩ [2, 3] 500 12 :=
  (ranged_read_iff (smallHandle_sane _) (by decide) (by decide) smallHandle_two (by decide)
    (by decide) (by decide)).mpr (by decide)

/-- A range over the end of it: what lies behind is not stored. -/
theorem ranged_read_stops : ¬ ReadsRange (fun _ => 0) (smallHandle [0xfff8, 0xffff, 3, 0xffff])
    ⟨2, 1024⟩ [2, 3] 500 13 := by
  intro hread
  obtain ⟨m', buffer', ⟨enough, hret⟩, hbytes, -⟩ := hread (fun _ => 0) (fun _ => 1) 0
  have hkeep := fatReadEntryOffsetSize_crossing (smallHandle_sane _) (by decide) (by decide)
    (by decide) (hret enough (Nat.le_refl _)) 12 (by decide)
  rw [hbytes, if_pos (by decide)] at hkeep
  exact absurd hkeep (by decide)

/-! ## The clusters that are visited -/

/-- The first `n` clusters that the table leads to from `cluster`, up to 0xffff: those that
    `fat_read_entry` reads in its first `n` rounds, and uses as an index into the table. -/
def fatVisited (h : FatHandle) : Nat → Nat → List Nat
  | 0, _ => []
  | n + 1, cluster => if cluster = 0xffff then [] else cluster :: fatVisited h n (h.fatAt cluster)

/-- The loop of `fat_read_entry_cluster_offset`, with `n` steps to go. -/
def fatWalkTo (h : FatHandle) : Nat → Nat → Nat
  | 0, cluster => cluster
  | n + 1, cluster => if cluster = 0xffff then cluster else fatWalkTo h n (h.fatAt cluster)

/-- `fat_read_entry_cluster_offset`.  The table is indexed by the first `cluster_offset` clusters of
    `fatVisited`, and the one behind them is read. -/
def fatReadEntryClusterOffset (disk : Disk) (h : FatHandle) (entry : Fat16DirEntry) (m : Mem)
    (ptr : Nat) (clusterOffset : Int) : Mem :=
  let cluster := fatWalkTo h clusterOffset.toNat entry.startingCluster
  -- "failed, not enought clusters"
  if cluster = 0xffff then m
  else fatReadCluster disk h cluster (fatGetClusterSize h) m ptr

/-- From `c` the table leads through the list to 0xffff. -/
def TableChain (h : FatHandle) : Nat → List Nat → Prop
  | c, [] => c = 0xffff
  | c, d :: l => c = d ∧ d ≠ 0xffff ∧ TableChain h (h.fatAt d) l

/-- The memory after `fat_read_entry` has read the clusters of a list. -/
def fatReadClusters (disk : Disk) (h : FatHandle) (ptr : Nat) : List Nat → Mem → Int → Int → Mem
  | [], m, _, _ => m
  | c :: l, m, bytesLeft, bytesProcessed =>
    let bytes := if fatGetClusterSize h < toSize bytesLeft then (fatGetClusterSize h : Int)
      else bytesLeft
    fatReadClusters disk h ptr l
      (fatReadCluster disk h c bytes m ((ptr : Int) + bytesProcessed).toNat)
      (toInt32 (bytesLeft - fatGetClusterSize h)) (toInt32 (bytesProcessed + fatGetClusterSize h))

section Visited

variable {h : FatHandle}

/-- Along a chain exactly its clusters are visited. -/
theorem TableChain.visited {l : List Nat} {c : Nat} (hc : TableChain h c l) (n : Nat) :
    fatVisited h n c = l.take n := by
  induction n generalizing l c with
  | zero =>
    rw [List.take_zero]
    rfl
  | succ n ih =>
    cases l with
    | nil => rw [fatVisited, if_pos (show c = 0xffff from hc), List.take_nil]
    | cons d l =>
      obtain ⟨rfl, hne, hrest⟩ := hc
      rw [fatVisited, if_neg hne, ih hrest, List.take_succ_cons]

/-- A walk that visits fewer clusters than it was given steps has come to the end of a chain. -/
theorem tableChain_of_visited {n c : Nat} (hlt : (fatVisited h n c).length < n) :
    TableChain h c (fatVisited h n c) := by
  induction n generalizing c with
  | zero => exact absurd hlt (Nat.not_lt_zero _)
  | succ n ih =>
    rw [fatVisited] at hlt ⊢
    by_cases hc : c = 0xffff
    · rw [if_pos hc]
      exact hc
    · rw [if_neg hc] at hlt ⊢
      exact ⟨rfl, hc, ih (Nat.lt_of_succ_lt_succ hlt)⟩

/-- **The loop of `fat_read_entry`** reads the clusters that are visited, one after the other, and
    returns if it comes to the end of the chain in its rounds. -/
theorem fatReadEntryLoop_eq (disk : Disk) (ptr rounds : Nat) (m : Mem) (c : Nat)
    (left done : Int) : fatReadEntryLoop disk h ptr rounds m c left done
      = if (fatVisited h rounds c).length < rounds
        then .ok (fatReadClusters disk h ptr (fatVisited h rounds c) m left done)
        else .error .noReturn := by
  induction rounds generalizing m c left done with
  | zero => rfl
  | succ rounds ih =>
    rw [fatReadEntryLoop, fatVisited]
    by_cases hc : c = 0xffff
    · rw [if_pos hc, if_pos hc, List.length_nil, if_pos (Nat.succ_pos rounds)]
      rfl
    · rw [if_neg hc, if_neg hc, List.length_cons, fatReadClusters]
      simp only [Nat.add_lt_add_iff_right]
      apply ih

/-- `fat_read_entry` returns at the end of a chain. -/
theorem TableChain.returns {entry : Fat16DirEntry} {l : List Nat}
    (hc : TableChain h entry.startingCluster l) (disk : Disk) (m : Mem) (ptr : Nat) :
    Returns (fun rounds => fatReadEntry rounds disk h entry m ptr)
      (fatReadClusters disk h ptr l m (toInt32 entry.filesizeBytes) 0) := by
  refine ⟨l.length + 1, fun rounds hr => ?_⟩
  show fatReadEntryLoop disk h ptr rounds m entry.startingCluster _ 0 = _
  rw [fatReadEntryLoop_eq, hc.visited, List.take_of_length_le (Nat.le_of_succ_le hr),
    if_pos (Nat.lt_of_succ_le hr)]

theorem ChainFrom.tableChain : ∀ {l : List Nat} {c : Nat}, ChainFrom h c l → TableChain h c l := by
  intro l
  induction l with
  | nil =>
    intro c hc
    exact hc
  | cons d l ih =>
    rintro c ⟨hc, _, hmax, hrest⟩
    exact ⟨hc, Nat.ne_of_lt hmax, ih hrest⟩

end Visited

/-! ## End-of-chain markers -/

section Marker

variable {h h' : FatHandle} {entry entry' : Fat16DirEntry} {l : List Nat} {marker : Nat}

/-- From `c` the table leads through data clusters to a marker. -/
def ChainTo (h : FatHandle) (marker : Nat) : Nat → List Nat → Prop
  | c, [] => c = marker
  | c, d :: l => c = d ∧ 2 ≤ d ∧ d < 0xfff8 ∧ ChainTo h marker (h.fatAt d) l

/-- Two images with a file that differ in the marker at the end of its chain: 0xffff in one. -/
structure OtherMarker (h h' : FatHandle) (entry entry' : Fat16DirEntry) (l : List Nat)
    (marker : Nat) : Prop where
  handle : ∃ fat, h' = { h with fat := fat }
  size : entry'.filesizeBytes = entry.filesizeBytes
  chain : ChainTo h 0xffff entry.startingCluster l
  chain' : ChainTo h' marker entry'.startingCluster l

/-- The other marker ends the chain as well: what is read and stored is the same, and no cluster
    from 0xfff8 on is read or used as an index. -/
structure MarkerEnds (h h' : FatHandle) (entry entry' : Fat16DirEntry) : Prop where
  read : ∀ disk m ptr m', Returns (fun rounds => fatReadEntry rounds disk h entry m ptr) m' →
    Returns (fun rounds => fatReadEntry rounds disk h' entry' m ptr) m'
  clusterOffset : ∀ disk m ptr k, fatReadEntryClusterOffset disk h' entry' m ptr k
    = fatReadEntryClusterOffset disk h entry m ptr k
  clusters : ∀ n, ∀ c ∈ fatVisited h' n entry'.startingCluster, c < 0xfff8

/-- The walk along a chain goes on through any marker but 0xffff. -/
theorem ChainTo.visited_marker (hm : marker ≠ 0xffff) {l : List Nat} {c : Nat}
    (hc : ChainTo h marker c l) : marker ∈ fatVisited h (l.length + 1) c := by
  induction l generalizing c with
  | nil =>
    rw [show c = marker from hc, fatVisited, if_neg hm]
    exact List.mem_cons_self
  | cons d l ih =>
    obtain ⟨rfl, -, hmax, hrest⟩ := hc
    rw [fatVisited, if_neg (by omega)]
    exact List.mem_cons_of_mem _ (ih hrest)

/-- **End-of-chain markers.**  No other marker than 0xffff ends a chain: for every file and every
    image of it with one of 0xfff8, .., 0xfffe instead, the cluster with that number is read. -/
theorem marker_never_ends (hother : OtherMarker h h' entry entry' l marker)
    (hlow : 0xfff8 ≤ marker) (hhigh : marker ≤ 0xfffe) : ¬ MarkerEnds h h' entry entry' := by
  intro hends
  have hlt := hends.clusters _ marker (hother.chain'.visited_marker (by omega))
  omega

end Marker

/-- A file of one cluster whose chain ends in 0xfff8. -/
theorem otherMarker_small : OtherMarker (smallHandle [0xfff8, 0xffff, 0xffff])
    (smallHandle [0xfff8, 0xffff, 0xfff8]) ⟨2, 512⟩ ⟨2, 512⟩ [2] 0xfff8 :=
  ⟨⟨_, rfl⟩, rfl, ⟨rfl, by decide, by decide, by show _ = _; decide⟩,
    ⟨rfl, by decide, by decide, by show _ = _; decide⟩⟩

theorem marker_never_ends_small : ¬ MarkerEnds (smallHandle [0xfff8, 0xffff, 0xffff])
    (smallHandle [0xfff8, 0xffff, 0xfff8]) ⟨2, 512⟩ ⟨2, 512⟩ :=
  marker_never_ends otherMarker_small (by decide) (by decide)

/-- Cluster 0xfff8 is read. -/
theorem marker_is_read : OtherMarker (smallHandle [0xfff8, 0xffff, 0xffff])
    (smallHandle [0xfff8, 0xffff, 0xfff8]) ⟨2, 512⟩ ⟨2, 512⟩ [2] 0xfff8 ∧
    ¬ MarkerEnds (smallHandle [0xfff8, 0xffff, 0xffff]) (smallHandle [0xfff8, 0xffff, 0xfff8])
      ⟨2, 512⟩ ⟨2, 512⟩ := by
  refine ⟨otherMarker_small, fun hends => ?_⟩
  have hread : 0xfff8 ∈ fatVisited (smallHandle [0xfff8, 0xffff, 0xfff8]) 2 2 := by decide
  exact absurd (hends.clusters 2 0xfff8 hread) (by decide)

/-! ## Damaged tables -/

/-- The number of clusters of the volume: those between the root directory and its last sector. -/
def FatHandle.clusterCount (h : FatHandle) : Nat :=
  (h.sectors * h.header.bytesPerSector - h.dataOffset) / fatGetClusterSize h

/-- `fat_read_entry` returns after at most as many cluster reads as there are clusters, and stays
    inside the table. -/
structure ReadsWithinVolume (h : FatHandle) (entry : Fat16DirEntry) : Prop where
  returns : ∀ disk m ptr, ∃ m', Returns (fun rounds => fatReadEntry rounds disk h entry m ptr) m'
  reads : ∀ n, (fatVisited h n entry.startingCluster).length ≤ h.clusterCount
  indices : ∀ n, ∀ c ∈ fatVisited h n entry.startingCluster, c < h.sectors

/-- **Reading a file on any disk.**  For every table and every directory entry: reading the file ends
    in time and inside the table, if and only if the table leads from the starting cluster to 0xffff
    through at most as many clusters as the volume has, all with numbers below `sectors`. -/
theorem reads_within_volume_iff (h : FatHandle) (entry : Fat16DirEntry) :
    ReadsWithinVolume h entry ↔ ∃ l, TableChain h entry.startingCluster l ∧
      l.length ≤ h.clusterCount ∧ ∀ c ∈ l, c < h.sectors := by
  constructor
  · intro hreads
    have hlen := hreads.reads (h.clusterCount + 1)
    exact ⟨_, tableChain_of_visited (Nat.lt_succ_of_le hlen), hlen,
      hreads.indices (h.clusterCount + 1)⟩
  · rintro ⟨l, hchain, hlen, hin⟩
    refine ⟨fun disk m ptr => ⟨_, hchain.returns disk m ptr⟩, fun n => ?_, fun n c hc => ?_⟩
    · rw [hchain.visited n]
      exact Nat.le_trans (List.length_take_le' n l) hlen
    · rw [hchain.visited n] at hc
      exact hin c (List.mem_of_mem_take hc)

/-- A table whose entry 2 leads to 2. -/
theorem cyclic_chain_never_ends : ¬ ReadsWithinVolume (smallHandle [0xfff8, 0xffff, 2]) ⟨2, 512⟩ := by
  intro hreads
  have hlen := hreads.reads 6
  exact absurd hlen (by decide)

/-! ## The size of the file -/

/-- The clusters that a file of this size needs. -/
def sizeClusters (h : FatHandle) (entry : Fat16DirEntry) : Nat :=
  (entry.filesizeBytes + fatGetClusterSize h - 1) / fatGetClusterSize h

/-- `fat_read_entry` reads no more clusters than the size needs, and writes nothing behind the last
    sector that the size needs. -/
structure GovernedBySize (h : FatHandle) (entry : Fat16DirEntry) : Prop where
  reads : ∀ n, (fatVisited h n entry.startingCluster).length ≤ sizeClusters h entry
  writes : ∀ disk m ptr, ∃ m', Returns (fun rounds => fatReadEntry rounds disk h entry m ptr) m' ∧
    ∀ x, ptr + 512 * ((entry.filesizeBytes + 511) / 512) ≤ x → m' x = m x

section Size

variable {h : FatHandle}

/-- What is read in a round: the comparison is one of `size_t`, where a count from 2^31 on has become
    a very large number, which does no harm. -/
theorem bytes_eq_min {left cluster : Nat} (hleft : left < 4294967296)
    (hcluster : cluster < 2147483648) :
    (if cluster < toSize (toInt32 (left : Nat)) then (cluster : Int) else toInt32 (left : Nat))
      = (min left cluster : Nat) := by
  by_cases hsmall : left < 2147483648
  · rw [toInt32_of_range (by omega) (by omega), toSize_natCast (by omega)]
    rcases Nat.lt_or_ge cluster left with hlt | hge
    · rw [if_pos hlt, Nat.min_eq_right (Nat.le_of_lt hlt)]
    · rw [if_neg (by omega), Nat.min_eq_left hge]
  · have hwrap : toInt32 (left : Nat) = (left : Int) - 4294967296 := by
      unfold toInt32
      omega
    have hhuge : cluster < toSize (toInt32 (left : Nat)) := by
      rw [hwrap]
      unfold toSize
      omega
    rw [if_pos hhuge, Nat.min_eq_right (by omega)]

theorem toNat_toInt32_le (ptr done : Nat) :
    ((ptr : Int) + toInt32 (done : Nat)).toNat ≤ ptr + done := by
  have := toInt32_natCast_le done
  omega

/-- Along a chain that is just long enough for `left` bytes, nothing is written behind their last
    sector. -/
theorem fatReadClusters_high (disk : Disk) (hs : h.Sane) (hdvd : 512 ∣ fatGetClusterSize h)
    (ptr x : Nat) :
    ∀ {l : List Nat} {c : Nat} (left done : Nat) (m : Mem), ChainFrom h c l →
    left ≤ fatGetClusterSize h * l.length →
    fatGetClusterSize h * l.length < left + fatGetClusterSize h → left < 4294967296 →
    ptr + done + 512 * ((left + 511) / 512) ≤ x →
    fatReadClusters disk h ptr l m (toInt32 (left : Nat)) (toInt32 (done : Nat)) x = m x := by
  intro l
  induction l with
  | nil =>
    intro _ _ _ _ _ _ _ _ _
    rfl
  | cons d l ih =>
    rintro c left done m ⟨hc, h2, hmax, hrest⟩ hcover htight hfit hx
    rw [List.length_cons, Nat.mul_succ] at hcover htight
    have hsize := hs.clusterSize_le
    have hleft : 0 < left := by
      have := Nat.zero_le (fatGetClusterSize h * l.length)
      omega
    obtain ⟨dest, hdest, hle⟩ : ∃ dest, ((ptr : Int) + toInt32 (done : Nat)).toNat = dest ∧
      dest ≤ ptr + done := ⟨_, rfl, toNat_toInt32_le ptr done⟩
    have hmin : 0 < min left (fatGetClusterSize h) := by
      have := Nat.zero_le (fatGetClusterSize h * l.length)
      omega
    have hread := fatReadCluster_apply disk hs h2 (by omega : d < 65536) hmin (Nat.min_le_right _ _) m
      dest x
    rw [if_neg (by omega)] at hread
    rw [fatReadClusters, bytes_eq_min hfit (by omega), hdest]
    cases l with
    | nil => exact hread
    | cons e l =>
      -- a cluster in the middle is full
      have hfull : fatGetClusterSize h ≤ left := by
        rw [List.length_cons, Nat.mul_succ] at htight
        have := Nat.zero_le (fatGetClusterSize h * l.length)
        omega
      have e1 : toInt32 (toInt32 (left : Nat) - fatGetClusterSize h)
          = toInt32 (left - fatGetClusterSize h : Nat) := by
        rw [toInt32_sub, Int.ofNat_sub hfull]
      have e2 : toInt32 (toInt32 (done : Nat) + fatGetClusterSize h)
          = toInt32 (done + fatGetClusterSize h : Nat) := by
        rw [toInt32_add, Int.natCast_add]
      rw [e1, e2, ih _ _ _ hrest (by omega) (by omega) (by omega) (by omega)]
      exact hread

/-- **Bulk reading and the size of the file.**  For every entry whose chain has enough clusters for
    its size, and for the empty file with starting cluster 0: what is read is governed by the size,
    if and only if the entry has a chain with exactly the clusters that the size needs.  The loop of
    `fat_read_entry` copies one whole cluster after the other until it finds 0xffff, and the size of
    the entry has no part in it. -/
theorem read_governed_by_size_iff (hs : h.Sane) (hdvd : 512 ∣ fatGetClusterSize h)
    (hpos : 0 < fatGetClusterSize h) {entry : Fat16DirEntry} (hfit : entry.filesizeBytes < 4294967296)
    (hentry : (∃ l, ChainFrom h entry.startingCluster l ∧ sizeClusters h entry ≤ l.length) ∨
      entry.filesizeBytes = 0 ∧ entry.startingCluster = 0) :
    GovernedBySize h entry ↔
      ∃ l, ChainFrom h entry.startingCluster l ∧ l.length = sizeClusters h entry := by
  constructor
  · intro hgoverned
    rcases hentry with ⟨l, hchain, henough⟩ | ⟨hempty, hzero⟩
    · have hreads := hgoverned.reads l.length
      rw [hchain.tableChain.visited, List.take_length] at hreads
      exact ⟨l, hchain, Nat.le_antisymm hreads henough⟩
    · -- cluster 0 is read
      have hreads := hgoverned.reads 1
      rw [hzero, fatVisited, if_neg (by decide), fatVisited, sizeClusters, hempty, Nat.zero_add,
        Nat.div_eq_of_lt (by omega)] at hreads
      exact absurd hreads (by decide)
  · rintro ⟨l, hchain, hlen⟩
    have hceil : entry.filesizeBytes ≤ fatGetClusterSize h * l.length ∧
        fatGetClusterSize h * l.length < entry.filesizeBytes + fatGetClusterSize h := by
      rw [hlen, sizeClusters]
      have hdiv := Nat.div_add_mod (entry.filesizeBytes + fatGetClusterSize h - 1)
        (fatGetClusterSize h)
      have hmod := Nat.mod_lt (entry.filesizeBytes + fatGetClusterSize h - 1) hpos
      omega
    refine ⟨fun n => ?_, fun disk m ptr => ⟨_, hchain.tableChain.returns disk m ptr, fun x hx => ?_⟩⟩
    · rw [hchain.tableChain.visited, ← hlen]
      exact List.length_take_le' n l
    · have hzero : toInt32 ((0 : Nat) : Int) = 0 := toInt32_of_range (by decide) (by decide)
      have hhigh := fatReadClusters_high disk hs hdvd ptr x entry.filesizeBytes 0 m hchain
        hceil.1 hceil.2 hfit (by omega)
      rwa [hzero] at hhigh

end Size

/-- A file of 600 bytes in two clusters. -/
theorem read_governed_by_size_iff_two :
    GovernedBySize (smallHandle [0xfff8, 0xffff, 3, 0xffff]) ⟨2, 600⟩ :=
  (read_governed_by_size_iff (smallHandle_sane _) (by decide) (by decide) (by decide)
    (Or.inl ⟨[2, 3], smallHandle_two, by decide⟩)).mpr ⟨[2, 3], smallHandle_two, by decide⟩

/-- A file of 512 bytes in the same two clusters: the second one is read too. -/
theorem read_goes_on_behind_size :
    ChainFrom (smallHandle [0xfff8, 0xffff, 3, 0xffff]) 2 [2, 3] ∧
    sizeClusters (smallHandle [0xfff8, 0xffff, 3, 0xffff]) ⟨2, 512⟩ ≤ [2, 3].length ∧
    ¬ GovernedBySize (smallHandle [0xfff8, 0xffff, 3, 0xffff]) ⟨2, 512⟩ := by
  refine ⟨smallHandle_two, by decide, fun hgoverned => ?_⟩
  exact absurd (hgoverned.reads 2) (by decide)

end TinyKernel
