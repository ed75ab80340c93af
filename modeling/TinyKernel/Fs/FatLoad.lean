/-
  What `fat_load_data` writes, and what `fat_load` finds on a volume.

  `fat_load_data` is asked for `n` bytes and copies sectors.  It counts them right, but what it
  stores is always a whole number of sectors, and at least one (`fatLoadData_stores`): a request
  for anything but a positive multiple of 512 bytes runs over the end of its buffer
  (`fat_load_data_frame_iff`).

  `fat_load` takes the geometry of the volume from the first sector.  The table is loaded with two
  bytes per SECTOR, whatever the header says about the size of a table.  That is enough for every
  data cluster, because the two tables and the sectors before them are not data
  (`fat_geometry_consistent`).
-/
import TinyKernel.Fs.FatFs

namespace TinyKernel

/-! ## The bytes that are stored -/

/-- `sector` of `fat_load_data`. -/
def loadSector (offset : Nat) : Int := toInt32 (offset / 512 : Nat)

/-- `sector_count` of `fat_load_data`. -/
def loadSectorCount (offset n : Nat) : Int := toInt32 (sectorsRead offset n : Nat)

/-- How many bytes `fat_load_data` stores. -/
def bytesStored (offset n : Nat) : Nat :=
  if loadSectorCount offset n < 2 then 512 - offset % 512
  else 512 - offset % 512 + 512 * (loadSectorCount offset n - 2).toNat
    + (if offset % 512 ≠ 0 then offset % 512 else 512)

/-- The middle sectors, from whatever sector number: bytes of the disk, one behind the other. -/
theorem fatLoadMiddle_stores : ∀ (k : Nat) (s : Int), ∃ pos : Nat → Nat, ∀ disk m ptr,
    (fatLoadMiddle disk k s m ptr).2 = ptr + 512 * k ∧
    ∀ x, (fatLoadMiddle disk k s m ptr).1 x
      = if ptr ≤ x ∧ x < ptr + 512 * k then disk (pos (x - ptr)) else m x := by
  intro k
  induction k with
  | zero =>
    intro s
    refine ⟨id, fun disk m ptr => ⟨rfl, fun x => ?_⟩⟩
    rw [fatLoadMiddle, if_neg (by omega)]
  | succ k ih =>
    intro s
    obtain ⟨pos, hpos⟩ := ih (s + 1)
    refine ⟨fun i => if i < 512 then 512 * toSize s + i else pos (i - 512), fun disk m ptr => ?_⟩
    obtain ⟨h1, h2⟩ := hpos disk (memcpy m ptr (blockRead disk (toSize s)) 0 512) (ptr + 512)
    have hlen : ptr + 512 * (k + 1) = ptr + 512 * k + 512 := by rw [Nat.mul_succ, Nat.add_assoc]
    rw [fatLoadMiddle_succ, h1, hlen]
    refine ⟨by omega, fun x => ?_⟩
    beta_reduce
    rw [h2 x, memcpy_apply, blockRead_apply]
    generalize 512 * k = rest
    by_cases hlow : ptr ≤ x ∧ x < ptr + 512
    · have hi : x - ptr < 512 := by omega
      rw [if_neg (by omega), if_pos hlow, if_pos (by omega), if_pos hi, Nat.zero_add]
    · by_cases hin : ptr + 512 ≤ x ∧ x < ptr + 512 + rest
      · have hi : ¬ x - ptr < 512 := by omega
        rw [if_pos hin, if_pos (by omega), if_neg hi, Nat.sub_sub]
      · rw [if_neg hin, if_neg hlow, if_neg (by omega)]

/-- The number of sectors, as the source computes it. -/
theorem sectorCount_eq (offset n : Nat) :
    ((n / 512 : Nat) : Int) + (if n % 512 = 0 then 0 else 1) + (if offset % 512 = 0 then 0 else 1)
      = (sectorsRead offset n : Nat) := by
  unfold sectorsRead
  split <;> split <;> omega

/-- A first piece of a sector, `k` sectors and a last piece, wherever they come from. -/
theorem loadPieces_stores (first last r k len : Nat) (s : Int) : ∃ pos : Nat → Nat,
    ∀ (disk : Disk) (m : Mem) (ptr x : Nat),
    let middle := fatLoadMiddle disk k s (memcpy m ptr (blockRead disk first) r (512 - r))
      (ptr + (512 - r))
    memcpy middle.1 middle.2 (blockRead disk last) 0 len x
      = if ptr ≤ x ∧ x < ptr + (512 - r + 512 * k + len) then disk (pos (x - ptr)) else m x := by
  obtain ⟨pos, hpos⟩ := fatLoadMiddle_stores k s
  refine ⟨fun i => if i < 512 - r then 512 * first + (r + i)
    else if i < 512 - r + 512 * k then pos (i - (512 - r))
    else 512 * last + (i - (512 - r + 512 * k)), fun disk m ptr x => ?_⟩
  obtain ⟨h1, h2⟩ := hpos disk (memcpy m ptr (blockRead disk first) r (512 - r)) (ptr + (512 - r))
  beta_reduce
  simp only [memcpy_apply, h1, h2, blockRead_apply]
  generalize 512 * k = rest
  generalize 512 - r = head
  -- the piece that `x` lies in
  by_cases hlast : ptr + head + rest ≤ x ∧ x < ptr + head + rest + len
  · have hi : ¬ x - ptr < head ∧ ¬ x - ptr < head + rest := by omega
    rw [if_pos hlast, if_pos (by omega), if_neg hi.1, if_neg hi.2]
    congr 1
    omega
  · rw [if_neg hlast]
    by_cases hmid : ptr + head ≤ x ∧ x < ptr + head + rest
    · have hi : ¬ x - ptr < head ∧ x - ptr < head + rest := by omega
      rw [if_pos hmid, if_pos (by omega), if_neg hi.1, if_pos hi.2, Nat.sub_sub]
    · rw [if_neg hmid]
      by_cases hfirst : ptr ≤ x ∧ x < ptr + head
      · have hi : x - ptr < head := by omega
        rw [if_pos hfirst, if_pos (by omega), if_pos hi]
      · rw [if_neg hfirst, if_neg (by omega)]

/-- **`fat_load_data` stores `bytesStored` bytes of the disk**, for every offset and every `n`, and
    touches no other. -/
theorem fatLoadData_stores (offset n : Nat) : ∃ pos : Nat → Nat, ∀ disk m ptr x,
    fatLoadData disk m ptr offset n x
      = if ptr ≤ x ∧ x < ptr + bytesStored offset n then disk (pos (x - ptr)) else m x := by
  have hcount : toInt32 (((n / 512 : Nat) : Int) + (if n % 512 = 0 then 0 else 1)
      + (if offset % 512 = 0 then 0 else 1)) = loadSectorCount offset n := by
    rw [sectorCount_eq, loadSectorCount]
  by_cases hfew : loadSectorCount offset n < 2
  · have hstored : bytesStored offset n = 512 - offset % 512 := if_pos hfew
    refine ⟨fun i => 512 * toSize (loadSector offset) + (offset % 512 + i),
      fun disk m ptr x => ?_⟩
    simp only [fatLoadData, hcount, hstored]
    rw [if_pos hfew, memcpy_apply, blockRead_apply]
    rfl
  · obtain ⟨pos, hpos⟩ := loadPieces_stores (toSize (loadSector offset))
      (toSize (loadSector offset + loadSectorCount offset n - 1)) (offset % 512)
      (loadSectorCount offset n - 2).toNat (if offset % 512 ≠ 0 then offset % 512 else 512)
      (loadSector offset + 1)
    have hstored : bytesStored offset n = 512 - offset % 512
        + 512 * (loadSectorCount offset n - 2).toNat
        + (if offset % 512 ≠ 0 then offset % 512 else 512) := if_neg hfew
    refine ⟨pos, fun disk m ptr x => ?_⟩
    simp only [fatLoadData, hcount, hstored]
    rw [if_neg hfew]
    exact hpos disk m ptr x

/-! ## What was asked for -/

/-- No `int` of `fat_load_data` overflows: `sector_count + sector` is computed when there is a
    second sector to read. -/
def SectorsFitInt (offset n : Nat) : Prop :=
  loadSectorCount offset n < 2 ∨ loadSector offset + loadSectorCount offset n ≤ 2147483647

/-- `fat_load_data(handle, ptr, offset, n)` is defined and, whatever the disk and the memory hold,
    changes no byte outside of `ptr[0..n)`. -/
structure WritesOnlyAsked (offset n : Nat) : Prop where
  defined : SectorsFitInt offset n
  frame : ∀ (disk : Disk) (m : Mem) (ptr x : Nat), x < ptr ∨ ptr + n ≤ x →
    fatLoadData disk m ptr offset n x = m x

/-- The request is for whole sectors, at least one, or for so many that their number does not fit an
    `int` and most of them are not read. -/
def AsksForSectors (offset n : Nat) : Prop :=
  0 < n ∧ 512 ∣ n ∨ 2147483648 ≤ sectorsRead offset n

/-- What is stored fits the request. -/
theorem bytesStored_le_iff (offset n : Nat) : bytesStored offset n ≤ n ↔ AsksForSectors offset n := by
  have hmod : offset % 512 < 512 := Nat.mod_lt _ (by decide)
  have hread : sectorsRead offset n = (n + 511) / 512 + (if offset % 512 = 0 then 0 else 1) := rfl
  rcases Nat.lt_or_ge (sectorsRead offset n) 2147483648 with hsmall | hlarge
  · -- the number of sectors is the one that the source means
    have hcount : loadSectorCount offset n = (sectorsRead offset n : Nat) :=
      toInt32_of_range (by omega) (by omega)
    unfold AsksForSectors bytesStored
    rw [hcount]
    generalize offset % 512 = r at *
    by_cases hr : r = 0
    · rw [if_pos hr] at hread
      rw [if_neg (not_not.mpr hr)]
      split <;> omega
    · rw [if_neg hr] at hread
      rw [if_pos hr]
      split <;> omega
  · refine ⟨fun _ => Or.inr hlarge, fun _ => ?_⟩
    have hcount : loadSectorCount offset n ≤ 2147483647 ∧
        (2 ≤ loadSectorCount offset n → 4294967298 ≤ sectorsRead offset n) := by
      unfold loadSectorCount toInt32
      omega
    have hfew : sectorsRead offset n ≤ (n + 511) / 512 + 1 := by
      rw [hread]
      split <;> omega
    unfold bytesStored
    generalize offset % 512 = r at *
    split
    · omega
    · split <;> omega

/-- **What `fat_load_data` writes.**  For every offset and every `n`, the call writes only what was
    asked for if and only if the request is for whole sectors and the numbers of the sectors fit.  A
    sector is always copied to its end, so the bytes behind the range that are in its last sector
    are written too. -/
theorem fat_load_data_frame_iff (offset n : Nat) :
    WritesOnlyAsked offset n ↔ AsksForSectors offset n ∧ SectorsFitInt offset n := by
  obtain ⟨pos, hpos⟩ := fatLoadData_stores offset n
  constructor
  · rintro ⟨hdef, hframe⟩
    refine ⟨(bytesStored_le_iff offset n).mp ?_, hdef⟩
    by_contra hover
    -- a disk of ones and a memory of zeros: the first byte behind the request is stored
    have hsame := hframe (fun _ => 1) (fun _ => 0) 0 n (Or.inr (by omega))
    rw [hpos, if_pos (by omega)] at hsame
    exact absurd hsame (by decide)
  · rintro ⟨hwhole, hdef⟩
    have hle := (bytesStored_le_iff offset n).mpr hwhole
    refine ⟨hdef, fun disk m ptr x hx => ?_⟩
    rw [hpos, if_neg (by omega)]

/-- The file of three bytes on `smallVolume` is read to a buffer of three bytes, and the byte behind
    the buffer is overwritten. -/
theorem fat_load_data_overruns : ¬ WritesOnlyAsked 1536 3 ∧
    fatLoadData smallVolume (fun _ => 1) 0 1536 3 3 = 0 := by
  constructor
  · rintro ⟨-, hframe⟩
    have hsame := hframe smallVolume (fun _ => 1) 0 3 (Or.inr (by decide))
    revert hsame
    decide +kernel
  · decide +kernel

/-! ## The geometry of a volume -/

namespace Fat16Header

/-- The number of sectors of the volume. -/
def sectors (hd : Fat16Header) : Nat :=
  if hd.smallSectors ≠ 0 then hd.smallSectors else hd.largeSectors

/-- The first byte of the first table. -/
def tableStart (hd : Fat16Header) : Nat := hd.reservedSectors * hd.bytesPerSector

/-- The first byte behind the tables and the root directory. -/
def dataStart (hd : Fat16Header) : Nat :=
  hd.tableStart + hd.sectorsPerFat * hd.fatCopies * hd.bytesPerSector
    + hd.possibleRootEntries * fat16DirEntrySize

/-- The header of a volume on a disk of `size` bytes. -/
structure Fits (hd : Fat16Header) (size : Nat) : Prop where
  bytesPerSector : 1 ≤ hd.bytesPerSector
  sectorsPerCluster : 1 ≤ hd.sectorsPerCluster
  reservedSectors : 1 ≤ hd.reservedSectors
  fatCopies : 1 ≤ hd.fatCopies
  sectorsPerFat : 1 ≤ hd.sectorsPerFat
  /-- The products that the source computes with `int`s. -/
  reserved : hd.reservedSectors * hd.bytesPerSector ≤ 2147483647
  fats : hd.sectorsPerFat * hd.fatCopies * hd.bytesPerSector ≤ 2147483647
  data : hd.dataStart ≤ hd.sectors * hd.bytesPerSector
  volume : hd.sectors * hd.bytesPerSector ≤ size
  table : 2 * hd.sectors + hd.tableStart ≤ size

end Fat16Header

/-- What the handle `h` says about the data cluster `c`, on a disk of `size` bytes. -/
structure ClusterConsistent (disk : Disk) (size : Nat) (h : FatHandle) (c : Nat) : Prop where
  /-- It is an index of the table that was loaded. -/
  index : c < h.fatSizeBytes / 2
  /-- Its entry is the one on the disk. -/
  entry : h.fatAt c = loadNat disk (h.header.tableStart + 2 * c) 2
  onDisk : h.header.tableStart + 2 * c + 2 ≤ size
  /-- `fat_read_cluster` asks for the bytes from `clusterOffset c` on .. -/
  request : ∀ (bytes : Int) (m : Mem) (ptr : Nat), fatReadCluster disk h c bytes m ptr
    = fatLoadData disk m ptr (h.clusterOffset c) (toSize bytes)
  /-- .. and gets them, as long as the numbers of all sectors fit an `int`. -/
  delivered : h.header.sectors * h.header.bytesPerSector + 1024 ≤ 1099511627776 →
    ∀ (n : Nat) (m : Mem) (ptr i : Nat), n ≤ fatGetClusterSize h → i < n →
      fatReadCluster disk h c n m ptr (ptr + i) = disk (h.clusterOffset c + i)
  /-- They lie in the data region. -/
  inside : h.dataOffset ≤ h.clusterOffset c ∧
    h.clusterOffset c + fatGetClusterSize h ≤ h.header.sectors * h.header.bytesPerSector
  /-- No other cluster has any of them. -/
  apart : ∀ c', 2 ≤ c' → c' ≠ c → h.clusterOffset c' + fatGetClusterSize h ≤ h.clusterOffset c ∨
    h.clusterOffset c + fatGetClusterSize h ≤ h.clusterOffset c'

/-- The header is the one in the first sector. -/
theorem fat16HeaderOf_loaded (disk : Disk) (m : Mem) :
    fat16HeaderOf (fatLoadData disk m 0 0 512) = fat16HeaderOf disk := by
  have hbyte : ∀ x, x < 512 → fatLoadData disk m 0 0 512 x = disk x := by
    intro x hx
    rw [fatLoadData_apply disk m 0 (by decide) (by decide), if_pos (by omega)]
    congr 1
    omega
  have hfield : ∀ a n, a + n ≤ 512 →
      loadNat (fatLoadData disk m 0 0 512) a n = loadNat disk a n := by
    intro a n hn
    apply loadNat_congr
    intro i hi
    exact hbyte (a + i) (by omega)
  unfold fat16HeaderOf
  congr 1 <;> exact hfield _ _ (by decide)

theorem mulInt_natCast {a b : Nat} (h : a * b ≤ 2147483647) :
    mulInt a b = .ok ((a * b : Nat) : Int) := by
  have hcast : (a : Int) * b = ((a * b : Nat) : Int) := (Int.natCast_mul a b).symm
  rw [mulInt, hcast, if_pos (by omega)]

section Geometry

variable {disk : Disk} {size : Nat}

theorem Fat16Header.sectors_lt (disk : Disk) : (fat16HeaderOf disk).sectors < 4294967296 := by
  have hsmall : (fat16HeaderOf disk).smallSectors < 256 ^ 2 := loadNat_lt ..
  have hlarge : (fat16HeaderOf disk).largeSectors < 256 ^ 4 := loadNat_lt ..
  unfold sectors
  split <;> omega

/-- The sectors before the data. -/
theorem Fat16Header.Fits.two_mul_le {hd : Fat16Header} (hf : hd.Fits size) :
    2 * hd.bytesPerSector ≤ hd.dataStart := by
  have h1 : 1 * hd.bytesPerSector ≤ hd.reservedSectors * hd.bytesPerSector :=
    Nat.mul_le_mul_right _ hf.reservedSectors
  have h2 : 1 * hd.bytesPerSector ≤ hd.sectorsPerFat * hd.fatCopies * hd.bytesPerSector :=
    Nat.mul_le_mul_right _ (Nat.mul_pos hf.sectorsPerFat hf.fatCopies)
  unfold dataStart tableStart
  omega

/-- The three positions that `fat_load` computes are the ones of the header. -/
theorem Fat16Header.Fits.positions {hd : Fat16Header} (hf : hd.Fits size)
    (hroot : hd.possibleRootEntries < 65536) :
    toSize ((hd.reservedSectors * hd.bytesPerSector : Nat) : Int) = hd.tableStart ∧
    toSize ((hd.tableStart : Int) + (hd.sectorsPerFat * hd.fatCopies * hd.bytesPerSector : Nat))
      = hd.tableStart + hd.sectorsPerFat * hd.fatCopies * hd.bytesPerSector ∧
    toSize ((hd.tableStart + hd.sectorsPerFat * hd.fatCopies * hd.bytesPerSector
      + hd.possibleRootEntries * fat16DirEntrySize : Nat) : Int) = hd.dataStart := by
  have hreserved : hd.tableStart ≤ 2147483647 := hf.reserved
  have hfats := hf.fats
  have hdir : hd.possibleRootEntries * fat16DirEntrySize ≤ 65536 * 32 :=
    Nat.mul_le_mul_right _ (Nat.le_of_lt hroot)
  constructor
  · exact toSize_natCast (by unfold tableStart at hreserved; omega)
  constructor
  · rw [← Int.natCast_add]
    exact toSize_natCast (by omega)
  · exact toSize_natCast (by omega)

/-- **`fat_load`** of such a volume returns. -/
theorem fatLoad_returns (hf : (fat16HeaderOf disk).Fits size) (handleMem fatMem entriesMem : Mem) :
    ∃ h, fatLoad disk handleMem fatMem entriesMem = .ok h ∧ h.header = fat16HeaderOf disk ∧
      h.fatSizeBytes = 2 * (fat16HeaderOf disk).sectors ∧
      h.fat = fatLoadData disk fatMem 0 (fat16HeaderOf disk).tableStart
        (2 * (fat16HeaderOf disk).sectors) ∧
      h.dataOffset = (fat16HeaderOf disk).dataStart := by
  have hroot : (fat16HeaderOf disk).possibleRootEntries < 256 ^ 2 := loadNat_lt ..
  have hreserved := hf.reserved
  have hfats := hf.fats
  have hcopies : (fat16HeaderOf disk).sectorsPerFat * (fat16HeaderOf disk).fatCopies ≤ 2147483647 :=
    Nat.le_trans (Nat.le_mul_of_pos_right _ hf.bytesPerSector) hfats
  obtain ⟨htable, hdir, hdata⟩ := hf.positions hroot
  unfold fatLoad
  rw [fat16HeaderOf_loaded]
  generalize fat16HeaderOf disk = hd at *
  dsimp only
  rw [mulInt_natCast hreserved, mulInt_natCast hcopies, ok_bind, ok_bind, mulInt_natCast hfats,
    ok_bind, htable, hdir, hdata]
  exact ⟨_, rfl, rfl, rfl, rfl, rfl⟩

/-- A data cluster lies between the start of the data and the end of the volume. -/
theorem cluster_le {start cs volume c : Nat} (hc : 2 ≤ c)
    (hlt : c < 2 + (volume - start) / cs) : start + cs * (c - 2) + cs ≤ volume := by
  have hmul : cs * (c - 2 + 1) ≤ cs * ((volume - start) / cs) :=
    Nat.mul_le_mul_left _ (by omega)
  have hdiv := Nat.mul_div_le (volume - start) cs
  have hpos : 0 < (volume - start) / cs := by omega
  have hroom : 0 < volume - start := by
    by_contra hzero
    rw [show volume - start = 0 by omega, Nat.zero_div] at hpos
    exact absurd hpos (by decide)
  rw [Nat.mul_succ] at hmul
  omega

/-- **The number of a data cluster is less than the number of sectors**: a cluster has a sector, and
    the first two numbers stand for the sectors before the data. -/
theorem Fat16Header.Fits.cluster_lt {hd : Fat16Header} (hf : hd.Fits size) {c : Nat} (hc : 2 ≤ c)
    (hlt : c < 2 + (hd.sectors * hd.bytesPerSector - hd.dataStart)
      / (hd.bytesPerSector * hd.sectorsPerCluster)) : c < hd.sectors := by
  have hbps := hf.bytesPerSector
  have hcs : hd.bytesPerSector * 1 ≤ hd.bytesPerSector * hd.sectorsPerCluster :=
    Nat.mul_le_mul_left _ hf.sectorsPerCluster
  have hend := cluster_le hc hlt
  have hbefore := hf.two_mul_le
  have hsteps : hd.bytesPerSector * (c - 2)
      ≤ hd.bytesPerSector * hd.sectorsPerCluster * (c - 2) := Nat.mul_le_mul_right _ (by omega)
  have hmul : hd.bytesPerSector * (c + 1) ≤ hd.bytesPerSector * hd.sectors := by
    have hsum : hd.bytesPerSector * (c + 1)
        = 2 * hd.bytesPerSector + hd.bytesPerSector * (c - 2) + hd.bytesPerSector := by
      obtain ⟨d, rfl⟩ : ∃ d, c = d + 2 := ⟨c - 2, by omega⟩
      rw [Nat.add_sub_cancel]
      ring
    rw [hsum, Nat.mul_comm hd.bytesPerSector hd.sectors]
    omega
  exact Nat.le_of_mul_le_mul_left hmul hbps

/-- Two clusters have no byte in common. -/
theorem clusterOffset_apart (h : FatHandle) {c c' : Nat} (hc : 2 ≤ c) (hlt : c < c') :
    h.clusterOffset c + fatGetClusterSize h ≤ h.clusterOffset c' := by
  have hmul : fatGetClusterSize h * (c - 2 + 1) ≤ fatGetClusterSize h * (c' - 2) :=
    Nat.mul_le_mul_left _ (by omega)
  rw [Nat.mul_succ] at hmul
  unfold FatHandle.clusterOffset
  omega

/-- **The geometry of a volume.**  On every disk whose header fits it, `fat_load` returns a handle
    with which every data cluster has its entry in the table and its bytes in the data region. -/
theorem fat_geometry_consistent (hf : (fat16HeaderOf disk).Fits size)
    (handleMem fatMem entriesMem : Mem) :
    ∃ h, fatLoad disk handleMem fatMem entriesMem = .ok h ∧ h.header = fat16HeaderOf disk ∧
      ∀ c, 2 ≤ c →
        c < 2 + (h.header.sectors * h.header.bytesPerSector - h.dataOffset) / fatGetClusterSize h →
        ClusterConsistent disk size h c := by
  obtain ⟨h, hload, hheader, hbytes, hfat, hdata⟩ := fatLoad_returns hf handleMem fatMem entriesMem
  refine ⟨h, hload, hheader, fun c hc hlt => ?_⟩
  have hsectors := Fat16Header.sectors_lt disk
  have hbps : (fat16HeaderOf disk).bytesPerSector < 256 ^ 2 := loadNat_lt ..
  have hreserved := hf.reserved
  rw [← hheader] at hf hbytes hfat hdata hsectors hbps hreserved
  have hend : h.clusterOffset c + fatGetClusterSize h ≤ h.header.sectors * h.header.bytesPerSector :=
    cluster_le hc hlt
  rw [hdata] at hlt
  have hindex := hf.cluster_lt hc hlt
  have hvolume : h.header.sectors * h.header.bytesPerSector ≤ 4294967296 * 65536 :=
    Nat.mul_le_mul (Nat.le_of_lt hsectors) (by omega)
  have hsize : fatGetClusterSize h ≤ h.header.sectors * h.header.bytesPerSector := by omega
  have hrequest := fatReadCluster_eq disk h hc (by omega)
  have hstart : h.header.tableStart = h.header.reservedSectors * h.header.bytesPerSector := rfl
  have htable := hf.table
  refine ⟨?_, ?_, by omega, hrequest, ?_, ⟨?_, hend⟩, ?_⟩
  · rw [hbytes, Nat.mul_div_cancel_left _ (by decide)]
    exact hindex
  · -- the two bytes are among those that were loaded
    unfold FatHandle.fatAt
    rw [hfat]
    apply loadNat_congr
    intro i hi
    rw [fatLoadData_apply disk fatMem 0 (by omega) (by omega), if_pos (by omega)]
    exact congrArg disk (by omega)
  · intro hfit n m ptr i hn hi
    rw [hrequest, toSize_natCast (by omega),
      fatLoadData_apply disk m ptr (by omega) (by omega), if_pos (by omega), Nat.add_sub_cancel_left]
  · exact Nat.le_add_right _ _
  · intro c' hc' hne
    rcases Nat.lt_or_gt_of_ne hne with hless | hmore
    · exact Or.inl (clusterOffset_apart h hc' hless)
    · exact Or.inr (clusterOffset_apart h hc hmore)

/-- `smallVolume` is such a volume: five data clusters, and the first one is the file's. -/
theorem smallVolume_geometry : (fat16HeaderOf smallVolume).Fits 4096 ∧
    ∃ h, fatLoad smallVolume (fun _ => 0) (fun _ => 0) (fun _ => 0) = .ok h ∧
      h.fatAt 2 = 0xffff ∧ ∀ c, 2 ≤ c → c < 7 → ClusterConsistent smallVolume 4096 h c := by
  have hf : (fat16HeaderOf smallVolume).Fits 4096 := by
    constructor <;> decide +kernel
  obtain ⟨h, hload, hheader, hall⟩ :=
    fat_geometry_consistent hf (fun _ => 0) (fun _ => 0) (fun _ => 0)
  obtain ⟨h', hload', hsize, -, hlast⟩ := smallVolume_load
  have hsame : h = h' := Except.ok.inj (hload.symm.trans hload')
  subst hsame
  have hclusters : 2 + (h.header.sectors * h.header.bytesPerSector - h.dataOffset)
      / fatGetClusterSize h = 7 := by
    obtain ⟨k, hk, -, -, -, hdata⟩ := fatLoad_returns hf (fun _ => 0) (fun _ => 0) (fun _ => 0)
    have hkeep : h = k := Except.ok.inj (hload.symm.trans hk)
    rw [hsize, hheader, hkeep, hdata]
    decide +kernel
  refine ⟨hf, h, hload, hlast, fun c hc hlt => hall c hc ?_⟩
  rw [hclusters]
  exact hlt

end Geometry

end TinyKernel
