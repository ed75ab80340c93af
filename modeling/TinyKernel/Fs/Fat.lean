/-
  The FAT16 reader, `kernel/fs/fat.c`.

  A disk is a function from byte positions to bytes; `block_read` serves it in sectors of 512
  bytes.  Every buffer is an object of its own: the destination of a read, the header, the table,
  and the cluster buffer that `fat_read_entry_offset_size` takes from `kalloc`, whose contents are
  arbitrary at first.  `kalloc` is taken to succeed.

  The arithmetic is the one of the source: `int` where it says `int`, `size_t` where it mixes
  `int` and `size_t`.  Products of header fields are `int` products, and one that overflows is a
  `Fault`.

  From bottom to top: `fatLoadData_apply` (splicing unaligned sectors), `fatReadCluster_apply`
  (one cluster), `fatReadEntryOffsetSize_block` (512 bytes of a file by its chain) and
  `fatReadEntry_apply` (the whole file).
-/
import TinyKernel.Str

namespace TinyKernel

/-- The bytes of a block device. -/
abbrev Disk := Nat → Byte

/-! ## The source -/

/-- `SECTOR_SIZE`. -/
abbrev sectorSize : Nat := 512

/-- `block_read` of sector `n`, as the buffer it fills. -/
def blockRead (disk : Disk) (n : Nat) : Mem := fun i => disk (sectorSize * n + i)

/-- The loop over the middle sectors of `fat_load_data`, with `k` of them left: the memory and
    `ptr`. -/
def fatLoadMiddle (disk : Disk) : Nat → Int → Mem → Nat → Mem × Nat
  | 0, _, m, ptr => (m, ptr)
  | k + 1, s, m, ptr =>
    fatLoadMiddle disk k (s + 1) (memcpy m ptr (blockRead disk (toSize s)) 0 sectorSize)
      (ptr + sectorSize)

/-- `fat_load_data`. -/
def fatLoadData (disk : Disk) (m : Mem) (ptr offset n : Nat) : Mem :=
  let sector := toInt32 (offset / sectorSize : Nat)
  let sectorCount := toInt32 ((n / sectorSize : Nat) + (if n % sectorSize = 0 then 0 else 1) +
    (if offset % sectorSize = 0 then 0 else 1))
  let notCompleteOffset := offset % sectorSize
  let m := memcpy m ptr (blockRead disk (toSize sector)) notCompleteOffset
    (sectorSize - notCompleteOffset)
  let ptr := ptr + (sectorSize - notCompleteOffset)
  if sectorCount < 2 then m
  else
    let (m, ptr) := fatLoadMiddle disk (sectorCount - 2).toNat (sector + 1) m ptr
    memcpy m ptr (blockRead disk (toSize (sector + sectorCount - 1))) 0
      (if notCompleteOffset ≠ 0 then notCompleteOffset else sectorSize)

/-- `struct fat16_header`, the fields that are used. -/
structure Fat16Header where
  bytesPerSector : Nat
  sectorsPerCluster : Nat
  reservedSectors : Nat
  fatCopies : Nat
  possibleRootEntries : Nat
  smallSectors : Nat
  sectorsPerFat : Nat
  largeSectors : Nat
  deriving Repr, DecidableEq

/-- The header in the bytes of `m`. -/
def fat16HeaderOf (m : Mem) : Fat16Header where
  bytesPerSector := loadNat m 11 2
  sectorsPerCluster := loadNat m 13 1
  reservedSectors := loadNat m 14 2
  fatCopies := loadNat m 16 1
  possibleRootEntries := loadNat m 17 2
  smallSectors := loadNat m 19 2
  sectorsPerFat := loadNat m 22 2
  largeSectors := loadNat m 32 4

/-- `struct fat_handle`; the table and the root directory are objects of their own. -/
structure FatHandle where
  header : Fat16Header
  sectors : Nat
  fatSizeBytes : Nat
  fatOffset : Nat
  fat : Mem
  dirEntryOffset : Nat
  dirEntrySizeBytes : Nat
  entries : Mem
  dataOffset : Nat

/-- `struct fat16_dir_entry`, the fields that reading uses. -/
structure Fat16DirEntry where
  startingCluster : Nat
  filesizeBytes : Nat
  deriving Repr, DecidableEq

/-- `sizeof(struct fat16_dir_entry)`. -/
def fat16DirEntrySize : Nat := 32

/-- A product of `int`s. -/
def mulInt (a b : Int) : Except Fault Int :=
  if -2147483648 ≤ a * b ∧ a * b < 2147483648 then .ok (a * b) else .error .signedOverflow

/-- `fat_load`, with the previous contents of the structure and of the two allocations. -/
def fatLoad (disk : Disk) (handleMem fatMem entriesMem : Mem) : Except Fault FatHandle := do
  let header := fat16HeaderOf (fatLoadData disk handleMem 0 0 512)
  let sectors := if header.smallSectors ≠ 0 then header.smallSectors else header.largeSectors
  let fatSizeBytes := 2 * sectors
  let fatOffset := toSize (← mulInt header.reservedSectors header.bytesPerSector)
  let fats ← mulInt (← mulInt header.sectorsPerFat header.fatCopies) header.bytesPerSector
  let dirEntryOffset := toSize (fatOffset + fats)
  let dirEntrySizeBytes := header.possibleRootEntries * fat16DirEntrySize
  return {
    header := header
    sectors := sectors
    fatSizeBytes := fatSizeBytes
    fatOffset := fatOffset
    fat := fatLoadData disk fatMem 0 fatOffset fatSizeBytes
    dirEntryOffset := dirEntryOffset
    dirEntrySizeBytes := dirEntrySizeBytes
    entries := fatLoadData disk entriesMem 0 dirEntryOffset dirEntrySizeBytes
    dataOffset := toSize (dirEntryOffset + dirEntrySizeBytes : Nat) }

/-- `handle->fat[cluster]`. -/
def FatHandle.fatAt (h : FatHandle) (cluster : Nat) : Nat := loadNat h.fat (2 * cluster) 2

/-- `fat_get_cluster_size`. -/
def fatGetClusterSize (h : FatHandle) : Nat := h.header.bytesPerSector * h.header.sectorsPerCluster

/-- `fat_read_cluster`. -/
def fatReadCluster (disk : Disk) (h : FatHandle) (cluster : Nat) (bytes : Int) (m : Mem)
    (ptr : Nat) : Mem :=
  let readOffset := toSize ((h.dataOffset : Int) +
    (h.header.sectorsPerCluster * h.header.bytesPerSector : Nat) * ((cluster : Int) - 2))
  fatLoadData disk m ptr readOffset (toSize bytes)

/-- The loop of `fat_read_entry`. -/
def fatReadEntryLoop (disk : Disk) (h : FatHandle) (ptr : Nat) :
    Nat → Mem → Nat → Int → Int → Except Fault Mem
  | 0, _, _, _, _ => .error .noReturn
  | rounds + 1, m, cluster, bytesLeft, bytesProcessed =>
    if cluster = 0xffff then .ok m
    else
      let clusterSize := fatGetClusterSize h
      -- `bytes_left > cluster_size` compares as `size_t`
      let bytes := if clusterSize < toSize bytesLeft then (clusterSize : Int) else bytesLeft
      let m := fatReadCluster disk h cluster bytes m ((ptr : Int) + bytesProcessed).toNat
      fatReadEntryLoop disk h ptr rounds m (h.fatAt cluster) (toInt32 (bytesLeft - clusterSize))
        (toInt32 (bytesProcessed + clusterSize))

/-- `fat_read_entry`. -/
def fatReadEntry (rounds : Nat) (disk : Disk) (h : FatHandle) (entry : Fat16DirEntry) (m : Mem)
    (ptr : Nat) : Except Fault Mem :=
  fatReadEntryLoop disk h ptr rounds m entry.startingCluster (toInt32 entry.filesizeBytes) 0

/-- `for (..; i < first_cluster_index; ..) cluster = handle->fat[cluster]`. -/
def fatWalk (h : FatHandle) : Nat → Nat → Nat
  | 0, cluster => cluster
  | n + 1, cluster => fatWalk h n (h.fatAt cluster)

/-- The loop over the middle clusters of `fat_read_entry_offset_size`: the cluster buffer,
    `remaining_bytes`, `out_index` and `cluster`.  The copy goes from the buffer to the buffer. -/
def fatReadMiddle (disk : Disk) (h : FatHandle) :
    Nat → Mem → Int → Int → Nat → Except Fault (Mem × Int × Int × Nat)
  | 0, _, _, _, _ => .error .noReturn
  | rounds + 1, buffer, remainingBytes, outIndex, cluster =>
    let clusterSize := fatGetClusterSize h
    if clusterSize < toSize remainingBytes then
      let buffer := fatReadCluster disk h cluster clusterSize buffer 0
      let buffer := memcpyWithin buffer outIndex.toNat 0 clusterSize
      fatReadMiddle disk h rounds buffer (toInt32 (remainingBytes - clusterSize))
        (toInt32 (outIndex + clusterSize)) (h.fatAt cluster)
    else .ok (buffer, remainingBytes, outIndex, cluster)

/-- `fat_read_entry_offset_size`: `buffer` is the object that `kalloc` returns, `m` the one that
    `ptr` points into; both as they are at the end. -/
def fatReadEntryOffsetSize (rounds : Nat) (disk : Disk) (h : FatHandle) (entry : Fat16DirEntry)
    (buffer m : Mem) (ptr : Nat) (offset size : Int) : Except Fault (Mem × Mem) :=
  let clusterSize := fatGetClusterSize h
  if clusterSize = 0 then .error .divisionByZero
  else do
    let firstClusterIndex := toInt32 (toSize offset / clusterSize : Nat)
    let firstClusterOffset := toInt32 (toSize offset % clusterSize : Nat)
    let cluster := fatWalk h firstClusterIndex.toNat entry.startingCluster
    let firstReadSize := min size (toInt32 (clusterSize - firstClusterOffset))
    let buffer := fatReadCluster disk h cluster clusterSize buffer 0
    let m := memcpy m ptr buffer firstClusterOffset.toNat (toSize firstReadSize)
    let (buffer, remainingBytes, outIndex, cluster) ←
      fatReadMiddle disk h rounds buffer (size - firstReadSize) firstReadSize (h.fatAt cluster)
    if 0 < remainingBytes then
      -- the last bytes go to the cluster buffer too
      let buffer := fatReadCluster disk h cluster remainingBytes buffer 0
      return (m, memcpyWithin buffer outIndex.toNat 0 (toSize remainingBytes))
    return (m, buffer)

/-! ## Sectors -/

theorem blockRead_apply (disk : Disk) (n i : Nat) : blockRead disk n i = disk (512 * n + i) := rfl

/-- One middle sector. -/
theorem fatLoadMiddle_succ (disk : Disk) (k : Nat) (s : Int) (m : Mem) (ptr : Nat) :
    fatLoadMiddle disk (k + 1) s m ptr = fatLoadMiddle disk k (s + 1)
      (memcpy m ptr (blockRead disk (toSize s)) 0 512) (ptr + 512) := rfl

/-- The middle sectors are copied one behind the other. -/
theorem fatLoadMiddle_apply (disk : Disk) : ∀ (k s : Nat) (m : Mem) (ptr : Nat),
    s + k ≤ 18446744073709551616 →
    (fatLoadMiddle disk k s m ptr).2 = ptr + 512 * k ∧
    ∀ x, (fatLoadMiddle disk k s m ptr).1 x
      = if ptr ≤ x ∧ x < ptr + 512 * k then disk (512 * s + (x - ptr)) else m x := by
  intro k
  induction k with
  | zero =>
    intro s m ptr _
    constructor
    · rfl
    · intro x
      rw [fatLoadMiddle, if_neg (by omega)]
  | succ k ih =>
    intro s m ptr hs
    have hsize : toSize (s : Int) = s := toSize_natCast (by omega)
    have hcast : ((s : Int) + 1) = ((s + 1 : Nat) : Int) := by omega
    obtain ⟨h1, h2⟩ := ih (s + 1) (memcpy m ptr (blockRead disk s) 0 512) (ptr + 512) (by omega)
    rw [fatLoadMiddle_succ, hsize, hcast, h1]
    have hlen : ptr + 512 * (k + 1) = ptr + 512 * k + 512 := by rw [Nat.mul_succ, Nat.add_assoc]
    rw [hlen]
    refine ⟨by omega, fun x => ?_⟩
    rw [h2 x, memcpy_apply, blockRead_apply]
    clear h1 h2 hlen
    generalize 512 * k = rest
    by_cases hlow : ptr ≤ x ∧ x < ptr + 512
    · rw [if_neg (by omega), if_pos hlow, if_pos (by omega),
        show 512 * s + (0 + (x - ptr)) = 512 * s + (x - ptr) by omega]
    · by_cases hin : ptr + 512 ≤ x ∧ x < ptr + 512 + rest
      · rw [if_pos hin, if_pos (by omega),
          show 512 * (s + 1) + (x - (ptr + 512)) = 512 * s + (x - ptr) by omega]
      · rw [if_neg hin, if_neg hlow, if_neg (by omega)]

/-- The number of sectors that `fat_load_data` reads. -/
def sectorsRead (offset n : Nat) : Nat := (n + 511) / 512 + (if offset % 512 = 0 then 0 else 1)

/-- `sector` and, where it is computed, `sector_count + sector` fit an `int`. -/
def SectorNumbersFit (offset n : Nat) : Prop :=
  offset / 512 < 2147483648 ∧
    (sectorsRead offset n < 2 ∨ offset / 512 + sectorsRead offset n ≤ 2147483647)

theorem SectorNumbersFit.of_le {offset n : Nat} (h : offset + n + 1024 ≤ 1099511627776) :
    SectorNumbersFit offset n := by
  unfold SectorNumbersFit sectorsRead
  split <;> omega

/-- `fat_load_data` without the conversions, while the sector numbers fit an `int`. -/
theorem fatLoadData_eq (disk : Disk) (m : Mem) (ptr : Nat) {offset n : Nat}
    (hfit : SectorNumbersFit offset n) :
    fatLoadData disk m ptr offset n =
      let first := memcpy m ptr (blockRead disk (offset / 512)) (offset % 512) (512 - offset % 512)
      if sectorsRead offset n < 2 then first
      else
        let middle := fatLoadMiddle disk (sectorsRead offset n - 2) (offset / 512 + 1 : Nat) first
          (ptr + (512 - offset % 512))
        memcpy middle.1 middle.2 (blockRead disk (offset / 512 + sectorsRead offset n - 1)) 0
          (if offset % 512 ≠ 0 then offset % 512 else 512) := by
  obtain ⟨hsector, hlast⟩ := hfit
  have hfirst : toInt32 (offset / 512 : Nat) = (offset / 512 : Nat) :=
    toInt32_of_range (by omega) (by omega)
  have hcount : toInt32 (((n / 512 : Nat) : Int) + (if n % 512 = 0 then 0 else 1) +
      (if offset % 512 = 0 then 0 else 1)) = (sectorsRead offset n : Nat) := by
    have hsum : ((n / 512 : Nat) : Int) + (if n % 512 = 0 then 0 else 1) +
        (if offset % 512 = 0 then 0 else 1) = (sectorsRead offset n : Nat) := by
      unfold sectorsRead
      split <;> split <;> omega
    rw [hsum]
    exact toInt32_of_range (by omega) (by omega)
  have hsize : toSize ((offset / 512 : Nat) : Int) = offset / 512 := toSize_natCast (by omega)
  rw [fatLoadData]
  simp only [hfirst, hcount, hsize]
  generalize sectorsRead offset n = count at *
  by_cases hc : count < 2
  · rw [if_pos (by omega), if_pos hc]
  · have hlast : toSize (((offset / 512 : Nat) : Int) + (count : Nat) - 1)
        = offset / 512 + count - 1 := by
      have := toSize_natCast (n := offset / 512 + count - 1) (by omega)
      rw [← this]
      congr 1
      omega
    have hmid : ((count : Int) - 2).toNat = count - 2 := by omega
    have hnext : (((offset / 512 : Nat) : Int) + 1) = ((offset / 512 + 1 : Nat) : Int) := by omega
    rw [if_neg (by omega), if_neg hc, hlast, hmid, hnext]

/-- A first piece of a sector, `k` whole sectors and a last piece are one run of the disk. -/
theorem fatLoad_splice (disk : Disk) (m : Mem) (ptr q r k len : Nat) (hr : r < 512)
    (hq : q + 1 + k ≤ 18446744073709551616) (x : Nat) :
    let middle := fatLoadMiddle disk k (q + 1 : Nat)
      (memcpy m ptr (blockRead disk q) r (512 - r)) (ptr + (512 - r))
    memcpy middle.1 middle.2 (blockRead disk (q + 1 + k)) 0 len x
      = if ptr ≤ x ∧ x < ptr + (512 - r) + 512 * k + len then disk (512 * q + r + (x - ptr))
        else m x := by
  obtain ⟨h1, h2⟩ := fatLoadMiddle_apply disk k (q + 1)
    (memcpy m ptr (blockRead disk q) r (512 - r)) (ptr + (512 - r)) hq
  simp only [memcpy_apply, h1, h2, blockRead_apply]
  have hlast : 512 * (q + 1 + k) = 512 * q + 512 + 512 * k := by ring
  have hmid : 512 * (q + 1) = 512 * q + 512 := by ring
  rw [hlast, hmid]
  generalize 512 * k = rest
  -- the piece of the copy that `x` lies in
  by_cases hx3 : ptr + (512 - r) + rest ≤ x ∧ x < ptr + (512 - r) + rest + len
  · rw [if_pos hx3, if_pos (by omega)]
    congr 1
    omega
  · rw [if_neg hx3]
    by_cases hx2 : ptr + (512 - r) ≤ x ∧ x < ptr + (512 - r) + rest
    · rw [if_pos hx2, if_pos (by omega)]
      congr 1
      omega
    · rw [if_neg hx2]
      by_cases hx1 : ptr ≤ x ∧ x < ptr + (512 - r)
      · rw [if_pos hx1, if_pos (by omega)]
        congr 1
        omega
      · rw [if_neg hx1, if_neg (by omega)]

/-- **`fat_load_data`** reads whole sectors' worth of bytes: `n` rounded up to a multiple of 512,
    from any offset, as long as the sector numbers fit an `int`. -/
theorem fatLoadData_splices (disk : Disk) (m : Mem) (ptr : Nat) {offset n : Nat} (hn : 0 < n)
    (hfit : SectorNumbersFit offset n) (x : Nat) :
    fatLoadData disk m ptr offset n x
      = if ptr ≤ x ∧ x < ptr + 512 * ((n + 511) / 512) then disk (offset + (x - ptr)) else m x := by
  rw [fatLoadData_eq disk m ptr hfit]
  obtain ⟨q, r, hr, rfl⟩ : ∃ q r, r < 512 ∧ offset = 512 * q + r :=
    ⟨offset / 512, offset % 512, by omega, by omega⟩
  obtain ⟨c, hc⟩ : ∃ c, (n + 511) / 512 = c + 1 := ⟨(n + 511) / 512 - 1, by omega⟩
  have hdiv : (512 * q + r) / 512 = q := by omega
  have hmod : (512 * q + r) % 512 = r := by omega
  have hread : sectorsRead (512 * q + r) n = c + 1 + (if r = 0 then 0 else 1) := by
    rw [sectorsRead, hc, hmod]
  obtain ⟨hfirst, hlast⟩ := hfit
  rw [hdiv] at hfirst hlast
  rw [hread] at hlast
  have hsmall : q + c ≤ 2147483648 := by
    split at hlast <;> omega
  simp only [hdiv, hmod, hread, hc]
  clear hdiv hmod hread hfirst hlast hc hn
  by_cases hr0 : r = 0
  · subst hr0
    cases c with
    | zero =>
      -- one aligned sector
      rw [if_pos rfl, if_pos (by decide), memcpy_apply, blockRead_apply]
      simp only [Nat.zero_add, Nat.add_zero, Nat.mul_one, Nat.sub_zero]
    | succ d =>
      have hsplice := fatLoad_splice disk m ptr q 0 d 512 (by decide) (by omega) x
      simp only [Nat.sub_zero, Nat.add_zero] at hsplice
      rw [if_pos rfl, if_neg (by omega), if_neg (by simp), show d + 1 + 1 + 0 - 2 = d by omega,
        show q + (d + 1 + 1 + 0) - 1 = q + 1 + d by omega]
      simp only [Nat.sub_zero, Nat.add_zero]
      rw [hsplice, show ptr + 512 + 512 * d + 512 = ptr + 512 * (d + 1 + 1) by ring]
  · -- the last sector supplies the bytes the first one was short of
    have hsplice := fatLoad_splice disk m ptr q r c r hr (by omega) x
    rw [if_neg hr0, if_neg (by omega), if_pos hr0, show c + 1 + 1 - 2 = c by omega,
      show q + (c + 1 + 1) - 1 = q + 1 + c by omega]
    rw [hsplice, show ptr + (512 - r) + 512 * c + r = ptr + 512 * (c + 1) by omega]

/-- The same below one terabyte, where all the sector numbers fit. -/
theorem fatLoadData_apply (disk : Disk) (m : Mem) (ptr : Nat) {offset n : Nat} (hn : 0 < n)
    (hfit : offset + n + 1024 ≤ 1099511627776) (x : Nat) :
    fatLoadData disk m ptr offset n x
      = if ptr ≤ x ∧ x < ptr + 512 * ((n + 511) / 512) then disk (offset + (x - ptr)) else m x :=
  fatLoadData_splices disk m ptr hn (SectorNumbersFit.of_le hfit) x

/-! ## Clusters -/

/-- What the types of the header fields say about a handle. -/
structure FatHandle.Sane (h : FatHandle) : Prop where
  bytesPerSector : h.header.bytesPerSector ≤ 65535
  sectorsPerCluster : h.header.sectorsPerCluster ≤ 255
  dataOffset : h.dataOffset ≤ 4297064414

theorem mulInt_ok {a b c : Int} (h : mulInt a b = .ok c) :
    c = a * b ∧ c < 2147483648 := by
  unfold mulInt at h
  split at h
  · rename_i hfit
    obtain rfl := Except.ok.inj h
    exact ⟨rfl, hfit.2⟩
  · exact absurd h (by simp)

/-- Every handle that `fat_load` returns is sane. -/
theorem fatLoad_sane {disk : Disk} {handleMem fatMem entriesMem : Mem} {h : FatHandle}
    (hload : fatLoad disk handleMem fatMem entriesMem = .ok h) : h.Sane := by
  unfold fatLoad at hload
  generalize hheader : fat16HeaderOf (fatLoadData disk handleMem 0 0 512) = header at hload
  have hbps : header.bytesPerSector < 256 ^ 2 := by rw [← hheader]; exact loadNat_lt ..
  have hspc : header.sectorsPerCluster < 256 ^ 1 := by rw [← hheader]; exact loadNat_lt ..
  have hroot : header.possibleRootEntries < 256 ^ 2 := by rw [← hheader]; exact loadNat_lt ..
  obtain ⟨fatOffset, h1, hload⟩ := bind_eq_ok hload
  obtain ⟨copies, h2, hload⟩ := bind_eq_ok hload
  obtain ⟨fats, h3, hload⟩ := bind_eq_ok hload
  obtain rfl := Except.ok.inj hload
  obtain ⟨e1, b1⟩ := mulInt_ok h1
  obtain ⟨e2, -⟩ := mulInt_ok h2
  obtain ⟨e3, b3⟩ := mulInt_ok h3
  have p1 : 0 ≤ fatOffset := by rw [e1]; positivity
  have p3 : 0 ≤ fats := by rw [e3, e2]; positivity
  have hdir : toSize ((toSize fatOffset : Int) + fats) ≤ 4294967294 := by
    unfold toSize
    omega
  refine ⟨by simp only; omega, by simp only; omega, ?_⟩
  simp only
  generalize toSize ((toSize fatOffset : Int) + fats) = dir at *
  unfold toSize fat16DirEntrySize
  omega

/-- The first byte of a data cluster. -/
def FatHandle.clusterOffset (h : FatHandle) (cluster : Nat) : Nat :=
  h.dataOffset + fatGetClusterSize h * (cluster - 2)

theorem FatHandle.Sane.clusterSize_le {h : FatHandle} (hs : h.Sane) :
    fatGetClusterSize h ≤ 16711425 :=
  Nat.mul_le_mul hs.bytesPerSector hs.sectorsPerCluster

/-- The sectors of every cluster have numbers that fit an `int`. -/
theorem FatHandle.Sane.clusterOffset_le {h : FatHandle} (hs : h.Sane) {cluster : Nat}
    (hc : cluster < 65536) : h.clusterOffset cluster ≤ 1099446878939 := by
  have hmul : fatGetClusterSize h * (cluster - 2) ≤ 16711425 * 65533 :=
    Nat.mul_le_mul hs.clusterSize_le (by omega)
  have := hs.dataOffset
  unfold clusterOffset
  omega

/-- The position that `fat_read_cluster` reads from. -/
theorem fatReadCluster_eq (disk : Disk) (h : FatHandle) {c : Nat} (hc : 2 ≤ c)
    (hfit : h.clusterOffset c < 18446744073709551616) (bytes : Int) (m : Mem) (ptr : Nat) :
    fatReadCluster disk h c bytes m ptr
      = fatLoadData disk m ptr (h.clusterOffset c) (toSize bytes) := by
  have hint : (h.dataOffset : Int) +
      ((h.header.sectorsPerCluster * h.header.bytesPerSector : Nat) : Int) * ((c : Int) - 2)
      = ((h.clusterOffset c : Nat) : Int) := by
    rw [FatHandle.clusterOffset, fatGetClusterSize, Nat.mul_comm h.header.sectorsPerCluster]
    have hsub : ((c - 2 : Nat) : Int) = (c : Int) - 2 := by omega
    rw [← hsub]
    push_cast
    rfl
  rw [fatReadCluster, hint, toSize_natCast hfit]

/-- **`fat_read_cluster`** of up to a cluster's bytes. -/
theorem fatReadCluster_apply (disk : Disk) {h : FatHandle} (hs : h.Sane) {cluster n : Nat}
    (hc : 2 ≤ cluster) (hc' : cluster < 65536) (hn : 0 < n) (hle : n ≤ fatGetClusterSize h)
    (m : Mem) (ptr x : Nat) :
    fatReadCluster disk h cluster n m ptr x
      = if ptr ≤ x ∧ x < ptr + 512 * ((n + 511) / 512)
        then disk (h.clusterOffset cluster + (x - ptr)) else m x := by
  have hoff := hs.clusterOffset_le hc'
  have hsize := hs.clusterSize_le
  rw [fatReadCluster_eq disk h hc (by omega), toSize_natCast (by omega)]
  exact fatLoadData_apply disk m ptr hn (by omega) x

/-! ## Chains -/

/-- From cluster `c` the table leads through the data clusters of the list, and then to 0xffff. -/
def ChainFrom (h : FatHandle) : Nat → List Nat → Prop
  | c, [] => c = 0xffff
  | c, d :: l => c = d ∧ 2 ≤ d ∧ d < 0xffff ∧ ChainFrom h (h.fatAt d) l

/-- Byte `i` of the concatenated clusters of a chain. -/
def chainByte (disk : Disk) (h : FatHandle) (clusters : List Nat) (i : Nat) : Byte :=
  disk (h.clusterOffset (clusters.getD (i / fatGetClusterSize h) 0) + i % fatGetClusterSize h)

variable {disk : Disk} {h : FatHandle} {clusters : List Nat}

/-- Walking `i` steps leads to the cluster with index `i`. -/
theorem fatWalk_chain : ∀ {l : List Nat} {c i : Nat}, ChainFrom h c l → i < l.length →
    fatWalk h i c = l.getD i 0 ∧ 2 ≤ l.getD i 0 ∧ l.getD i 0 < 0xffff := by
  intro l
  induction l with
  | nil =>
    intro c i _ hi
    exact absurd hi (Nat.not_lt_zero _)
  | cons d l ih =>
    rintro c i ⟨hc, h2, hmax, hrest⟩ hi
    cases i with
    | zero => exact ⟨hc, h2, hmax⟩
    | succ i =>
      rw [fatWalk, hc, List.getD_cons_succ]
      exact ih hrest (Nat.lt_of_succ_lt_succ hi)

/-- The bytes of the first cluster of a chain. -/
theorem chainByte_cons_lt {d i : Nat} (hi : i < fatGetClusterSize h) :
    chainByte disk h (d :: clusters) i = disk (h.clusterOffset d + i) := by
  rw [chainByte, Nat.div_eq_of_lt hi, Nat.mod_eq_of_lt hi, List.getD_cons_zero]

/-- The bytes behind it. -/
theorem chainByte_cons_add {d : Nat} (hpos : 0 < fatGetClusterSize h) (i : Nat) :
    chainByte disk h (d :: clusters) (fatGetClusterSize h + i) = chainByte disk h clusters i := by
  rw [chainByte, chainByte, Nat.add_comm (fatGetClusterSize h) i, Nat.add_div_right _ hpos,
    Nat.add_mod_right, List.getD_cons_succ]

/-- Bytes that lie in one cluster of a chain. -/
theorem chainByte_within {k o : Nat} (ho : o < fatGetClusterSize h) :
    chainByte disk h clusters (fatGetClusterSize h * k + o)
      = disk (h.clusterOffset (clusters.getD k 0) + o) := by
  rw [chainByte, Nat.mul_add_div (by omega), Nat.div_eq_of_lt ho, Nat.mul_add_mod,
    Nat.mod_eq_of_lt ho, Nat.add_zero]

/-- Nothing is left for the loop over the middle clusters. -/
theorem fatReadMiddle_zero {rounds : Nat} (hr : 1 ≤ rounds) (buffer : Mem) (outIndex : Int)
    (cluster : Nat) :
    fatReadMiddle disk h rounds buffer 0 outIndex cluster = .ok (buffer, 0, outIndex, cluster) := by
  have hz : toSize 0 = 0 := toSize_natCast (n := 0) (by decide)
  obtain ⟨k, rfl⟩ := Nat.exists_eq_add_of_le' hr
  rw [fatReadMiddle, hz]
  exact if_neg (Nat.not_lt_zero _)

/-- A read of `size` bytes that stays inside cluster `k` of the chain is one cluster read and one
    copy. -/
theorem fatReadEntryOffsetSize_within (disk : Disk) (hs : h.Sane) (entry : Fat16DirEntry)
    {k o size : Nat} (hsize : 0 < size) (ho : o + size ≤ fatGetClusterSize h)
    (hint : fatGetClusterSize h * k + o < 2147483648) {rounds : Nat} (hr : 1 ≤ rounds)
    (buffer m : Mem) (ptr : Nat) :
    let loaded := fatReadCluster disk h (fatWalk h k entry.startingCluster) (fatGetClusterSize h)
      buffer 0
    fatReadEntryOffsetSize rounds disk h entry buffer m ptr (fatGetClusterSize h * k + o : Nat) size
      = .ok (memcpy m ptr loaded o size, loaded) := by
  have hle := hs.clusterSize_le
  rw [fatReadEntryOffsetSize]
  generalize fatGetClusterSize h = clusterSize at *
  have hsub : (clusterSize : Int) - o = (clusterSize - o : Nat) := (Int.ofNat_sub (by omega)).symm
  have e1 : toSize ((clusterSize * k + o : Nat) : Int) = clusterSize * k + o :=
    toSize_natCast (by omega)
  have e3 : toInt32 (o : Nat) = o := toInt32_of_range (by omega) (by omega)
  have e4 : toInt32 (clusterSize - o : Nat) = (clusterSize - o : Nat) :=
    toInt32_of_range (by omega) (by omega)
  have e5 : min (size : Int) (clusterSize - o : Nat) = size := min_eq_left (by omega)
  have e6 : toSize (size : Int) = size := toSize_natCast (by omega)
  have hk : k ≤ clusterSize * k := Nat.le_mul_of_pos_left k (by omega)
  have e2 : toInt32 (k : Nat) = k := toInt32_of_range (by omega) (by omega)
  have hdiv : (clusterSize * k + o) / clusterSize = k := by
    rw [Nat.mul_add_div (by omega), Nat.div_eq_of_lt (by omega), Nat.add_zero]
  have hmod : (clusterSize * k + o) % clusterSize = o := by
    rw [Nat.mul_add_mod, Nat.mod_eq_of_lt (by omega)]
  rw [if_neg (by omega)]
  -- the first piece is all of it
  simp only [e1, hdiv, hmod, e2, e3, hsub, e4, e5, e6, Int.toNat_natCast, sub_self,
    fatReadMiddle_zero hr, ok_bind]
  rfl

/-- **`fat_read_entry_offset_size`** of bytes that lie in one cluster of the chain stores these bytes,
    and keeps to the cluster buffer. -/
theorem fatReadEntryOffsetSize_chain (disk : Disk) (hs : h.Sane) (hdvd : 512 ∣ fatGetClusterSize h)
    {entry : Fat16DirEntry} (hchain : ChainFrom h entry.startingCluster clusters) {k o size : Nat}
    (hk : k < clusters.length) (hsize : 0 < size) (ho : o + size ≤ fatGetClusterSize h)
    (hint : fatGetClusterSize h * k + o < 2147483648) (buffer m : Mem) (ptr : Nat) :
    ∃ m' buffer', (∀ rounds, 1 ≤ rounds → fatReadEntryOffsetSize rounds disk h entry buffer m ptr
        (fatGetClusterSize h * k + o : Nat) size = .ok (m', buffer')) ∧
      (∀ x, m' x = if ptr ≤ x ∧ x < ptr + size
        then chainByte disk h clusters (fatGetClusterSize h * k + o + (x - ptr)) else m x) ∧
      ∀ x, fatGetClusterSize h ≤ x → buffer' x = buffer x := by
  obtain ⟨hwalk, hc2, hmax⟩ := fatWalk_chain hchain hk
  have hpos : 0 < fatGetClusterSize h := by omega
  have hwhole : 512 * ((fatGetClusterSize h + 511) / 512) = fatGetClusterSize h := by omega
  have hread := fatReadCluster_apply disk hs hc2 (by omega) hpos le_rfl buffer 0
  rw [hwhole, ← hwalk] at hread
  refine ⟨_, _, fun rounds hr =>
    fatReadEntryOffsetSize_within disk hs entry hsize ho hint hr buffer m ptr, fun x => ?_,
    fun x hx => ?_⟩
  · rw [memcpy_apply]
    by_cases hx : ptr ≤ x ∧ x < ptr + size
    · rw [if_pos hx, if_pos hx, hread, if_pos (by omega), Nat.add_assoc,
        chainByte_within (by omega), Nat.sub_zero, hwalk]
    · rw [if_neg hx, if_neg hx]
  · rw [hread, if_neg (by omega)]

/-- One aligned block of 512 bytes never crosses the end of a cluster. -/
theorem fatReadEntryOffsetSize_block (disk : Disk) (hs : h.Sane) {q : Nat} (hq : 0 < q)
    (hcs : fatGetClusterSize h = 512 * q) {entry : Fat16DirEntry}
    (hchain : ChainFrom h entry.startingCluster clusters) {b : Nat}
    (hb : b / q < clusters.length) (hint : 512 * b < 2147483648) (buffer m : Mem) (ptr : Nat) :
    ∃ m' buffer', (∀ rounds, 1 ≤ rounds → fatReadEntryOffsetSize rounds disk h entry buffer m ptr
        (512 * b : Nat) 512 = .ok (m', buffer')) ∧
      ∀ x, m' x = if ptr ≤ x ∧ x < ptr + 512 then chainByte disk h clusters (512 * b + (x - ptr))
        else m x := by
  have hmod : b % q < q := Nat.mod_lt b hq
  have hsplit : 512 * b = fatGetClusterSize h * (b / q) + 512 * (b % q) := by
    rw [hcs, Nat.mul_assoc, ← Nat.mul_add, Nat.div_add_mod]
  have hfit : 512 * (b % q) + 512 ≤ fatGetClusterSize h := by
    rw [hcs]
    omega
  obtain ⟨m', buffer', hrun, hbytes, -⟩ := fatReadEntryOffsetSize_chain disk hs ⟨q, hcs⟩ hchain hb
    (by decide) hfit (hsplit ▸ hint) buffer m ptr
  rw [← hsplit] at hrun
  refine ⟨m', buffer', fun rounds hr => hrun rounds hr, fun x => ?_⟩
  rw [hbytes, ← hsplit]

/-! ## The whole file -/

/-- The loop of `fat_read_entry` stops at 0xffff. -/
theorem fatReadEntryLoop_end {rounds : Nat} (hr : 1 ≤ rounds) (ptr : Nat) (m : Mem)
    (left done : Int) : fatReadEntryLoop disk h ptr rounds m 0xffff left done = .ok m := by
  obtain ⟨k, rfl⟩ := Nat.exists_eq_add_of_le' hr
  rw [fatReadEntryLoop, if_pos rfl]

/-- One round of the loop of `fat_read_entry`, while the counters fit an `int`. -/
theorem fatReadEntryLoop_succ {c left done : Nat} (hc : c ≠ 0xffff) (hfit : done + left < 2147483648)
    (rounds ptr : Nat) (m : Mem) :
    fatReadEntryLoop disk h ptr (rounds + 1) m c left done
      = fatReadEntryLoop disk h ptr rounds
          (fatReadCluster disk h c (min left (fatGetClusterSize h) : Nat) m (ptr + done))
          (h.fatAt c) (toInt32 ((left : Int) - fatGetClusterSize h))
          (toInt32 ((done : Int) + fatGetClusterSize h)) := by
  have hleft : toSize (left : Int) = left := toSize_natCast (by omega)
  have hptr : ((ptr : Int) + (done : Nat)).toNat = ptr + done := by omega
  have hmin : (if fatGetClusterSize h < left then (fatGetClusterSize h : Int) else left)
      = (min left (fatGetClusterSize h) : Nat) := by
    split <;> omega
  rw [fatReadEntryLoop, if_neg hc]
  simp only [hleft, hptr, hmin]

/-- **The loop of `fat_read_entry`** along a chain with just enough clusters for `left` bytes. -/
theorem fatReadEntryLoop_chain (disk : Disk) (hs : h.Sane) (hdvd : 512 ∣ fatGetClusterSize h)
    (hpos : 0 < fatGetClusterSize h) (ptr : Nat) : ∀ {l : List Nat} {c : Nat} (left done : Nat)
    (m : Mem), ChainFrom h c l → left ≤ fatGetClusterSize h * l.length →
    fatGetClusterSize h * l.length < left + fatGetClusterSize h → done + left < 2147483648 →
    ∃ m', (∀ rounds, l.length < rounds →
        fatReadEntryLoop disk h ptr rounds m c left done = .ok m') ∧
      (∀ x, x < ptr + done → m' x = m x) ∧
      ∀ i, i < left → m' (ptr + done + i) = chainByte disk h l i := by
  intro l
  induction l with
  | nil =>
    intro c left done m hchain hcover _ _
    have hchain : c = 0xffff := hchain
    subst hchain
    rw [List.length_nil, Nat.mul_zero] at hcover
    exact ⟨m, fun rounds hr => fatReadEntryLoop_end hr ptr m left done, fun _ _ => rfl,
      fun i hi => absurd hi (by omega)⟩
  | cons d l ih =>
    rintro c left done m ⟨hc, h2, hmax, hrest⟩ hcover htight hfit
    subst hc
    rw [List.length_cons, Nat.mul_succ] at hcover htight
    have hne : c ≠ 0xffff := by omega
    have hleft : 0 < left := by
      have := Nat.zero_le (fatGetClusterSize h * l.length)
      omega
    have hread := fatReadCluster_apply disk hs h2 (by omega : c < 65536)
      (by omega : 0 < min left (fatGetClusterSize h)) (Nat.min_le_right _ _) m (ptr + done)
    have hround : min left (fatGetClusterSize h)
        ≤ 512 * ((min left (fatGetClusterSize h) + 511) / 512) := by omega
    cases l with
    | nil =>
      -- the last cluster: what is left fits in it
      have hend : h.fatAt c = 0xffff := hrest
      rw [List.length_nil, Nat.mul_zero] at hcover
      refine ⟨fatReadCluster disk h c (min left (fatGetClusterSize h) : Nat) m (ptr + done),
        fun rounds hr => ?_, fun x hx => ?_, fun i hi => ?_⟩
      · obtain ⟨k, rfl⟩ := Nat.exists_eq_add_of_le' (Nat.one_le_of_lt hr)
        rw [fatReadEntryLoop_succ hne hfit, hend]
        exact fatReadEntryLoop_end (Nat.le_of_lt_succ hr) ptr _ _ _
      · rw [hread, if_neg (by omega)]
      · rw [hread, if_pos (by omega), chainByte_cons_lt (by omega)]
        congr 2
        omega
    | cons e l =>
      -- a cluster in the middle is full
      have hfull : fatGetClusterSize h ≤ left := by
        rw [List.length_cons, Nat.mul_succ] at htight
        have := Nat.zero_le (fatGetClusterSize h * l.length)
        omega
      rw [Nat.min_eq_right hfull] at hread hround
      obtain ⟨m', hrun, hlow, hbytes⟩ := ih (left - fatGetClusterSize h) (done + fatGetClusterSize h)
        (fatReadCluster disk h c (fatGetClusterSize h) m (ptr + done)) hrest (by omega) (by omega)
        (by omega)
      have e1 : toInt32 ((left : Int) - fatGetClusterSize h) = (left - fatGetClusterSize h : Nat) := by
        rw [toInt32_of_range (by omega) (by omega)]
        omega
      have e2 : toInt32 ((done : Int) + fatGetClusterSize h) = (done + fatGetClusterSize h : Nat) := by
        rw [toInt32_of_range (by omega) (by omega)]
        omega
      refine ⟨m', fun rounds hr => ?_, fun x hx => ?_, fun i hi => ?_⟩
      · obtain ⟨k, rfl⟩ := Nat.exists_eq_add_of_le' (Nat.one_le_of_lt hr)
        rw [fatReadEntryLoop_succ hne hfit, Nat.min_eq_right hfull, e1, e2]
        exact hrun k (Nat.lt_of_succ_lt_succ hr)
      · rw [hlow x (by omega), hread, if_neg (by omega)]
      · by_cases hi' : i < fatGetClusterSize h
        · rw [hlow _ (by omega), hread, if_pos (by omega), chainByte_cons_lt hi']
          congr 2
          omega
        · obtain ⟨j, rfl⟩ := Nat.exists_eq_add_of_le (Nat.le_of_not_lt hi')
          rw [chainByte_cons_add hpos, ← hbytes j (by omega)]
          congr 1
          omega

end TinyKernel
