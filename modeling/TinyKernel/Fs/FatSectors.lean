/-
  The sectors that `fat_load_data` reads.

  They are read off the calls that it makes (`fatLoadDataCalls` of `Fs.FatOnDisk`), for a caller
  that is alone on a disk with the given bytes.  They are the sectors from the first byte to the
  last, in order and each once (`fatLoadDataCalls_calls`), and their bytes end up one behind the
  other (`fatLoadData_splices`).

  The sector numbers and their count are `int`s, which is one too narrow: with the last sector at
  2^31 - 1 the end of the range does not fit, and a range of 2^31 sectors is taken for an empty one,
  of which only the first sector is read (`fat_load_data_splices_iff`).  The callers in `fat.c` stay
  below that; nothing in `fat_load_data` asks them to, and its parameters are of type `size_t`.
-/
import TinyKernel.Fs.FatLoad
import TinyKernel.Fs.FatOnDisk

namespace TinyKernel

/-! ## The calls -/

section Calls

variable {A : Type} {disk : Disk}

theorem blockReadCall_calls (n : Nat) (next : Mem → DiskClient A) :
    (blockReadCall n next).calls (cells Nat (List Byte)) (sectorBytes disk)
      = .get n :: (next (bufferOf (some (sectorBytes disk n)))).calls (cells Nat (List Byte))
        (sectorBytes disk) := by
  rw [blockReadCall, Client.calls]
  simp only [cells]

/-- The middle sectors, one after the other, and then what comes next. -/
theorem fatLoadMiddleCalls_calls : ∀ (k s : Nat) (m : Mem) (ptr : Nat)
    (next : Mem × Nat → DiskClient A), s + k ≤ 18446744073709551616 → ∃ r,
    (fatLoadMiddleCalls k s m ptr next).calls (cells Nat (List Byte)) (sectorBytes disk)
      = (List.range' s k).map .get
        ++ (next r).calls (cells Nat (List Byte)) (sectorBytes disk) := by
  intro k
  induction k with
  | zero =>
    intro s m ptr next _
    exact ⟨(m, ptr), rfl⟩
  | succ k ih =>
    intro s m ptr next hs
    have hsize : toSize (s : Int) = s := toSize_natCast (by omega)
    have hnext : (s : Int) + 1 = ((s + 1 : Nat) : Int) := by omega
    obtain ⟨r, hr⟩ := ih (s + 1) (memcpy m ptr (bufferOf (some (sectorBytes disk s))) 0 sectorSize)
      (ptr + sectorSize) next (by omega)
    refine ⟨r, ?_⟩
    rw [fatLoadMiddleCalls, blockReadCall_calls, hsize, hnext, hr, List.range'_succ, List.map_cons,
      List.cons_append]

/-- **The sectors that are read**: each one from the first to the last, once and in order. -/
theorem fatLoadDataCalls_calls (m : Mem) (ptr : Nat) {offset n : Nat} (hn : 0 < n)
    (hfit : SectorNumbersFit offset n) :
    (fatLoadDataCalls m ptr offset n).calls (cells Nat (List Byte)) (sectorBytes disk)
      = (List.range' (offset / 512) (sectorsRead offset n)).map .get := by
  obtain ⟨hsector, hend⟩ := hfit
  have hpos : 0 < sectorsRead offset n := by
    unfold sectorsRead
    omega
  have hfirst : toInt32 (offset / 512 : Nat) = (offset / 512 : Nat) :=
    toInt32_of_range (by omega) (by omega)
  have hcount : toInt32 (sectorsRead offset n : Nat) = (sectorsRead offset n : Nat) :=
    toInt32_of_range (by omega) (by omega)
  have hsize : toSize ((offset / 512 : Nat) : Int) = offset / 512 := toSize_natCast (by omega)
  have hnext : (((offset / 512 : Nat) : Int) + 1) = ((offset / 512 + 1 : Nat) : Int) := by omega
  unfold fatLoadDataCalls
  simp only [sectorCount_eq, hcount, hfirst, hsize, hnext]
  rw [blockReadCall_calls]
  generalize sectorsRead offset n = count at *
  generalize offset / 512 = sector at *
  rcases Nat.lt_or_ge count 2 with hone | hmore
  · rw [if_pos (by omega), show count = 1 by omega, List.range'_one]
    rfl
  · obtain ⟨k, rfl⟩ : ∃ k, count = k + 2 := ⟨count - 2, by omega⟩
    have hlast : toSize ((sector : Int) + ((k + 2 : Nat) : Int) - 1) = sector + 1 + k := by
      rw [show (sector : Int) + ((k + 2 : Nat) : Int) - 1 = ((sector + 1 + k : Nat) : Int) by omega]
      exact toSize_natCast (by omega)
    have hmid : (((k + 2 : Nat) : Int) - 2).toNat = k := by omega
    rw [if_neg (by omega), hmid, hlast]
    obtain ⟨r, hr⟩ := fatLoadMiddleCalls_calls k (sector + 1) _ _ _ (by omega)
    rw [hr, blockReadCall_calls, Client.calls, List.range'_succ, List.range'_1_concat, List.map_cons,
      List.map_append]
    rfl

end Calls

/-! ## What was asked for -/

/-- The sector of the last byte, of `n` bytes rounded up to whole sectors. -/
def lastSector (offset n : Nat) : Nat := (offset + 512 * ((n + 511) / 512) - 1) / 512

/-- `fat_load_data(handle, ptr, offset, n)` is defined, puts the `n` bytes of the disk from `offset`
    on at `ptr`, whatever the disk and the memory hold, and reads no other sectors than theirs. -/
structure LoadsSpliced (offset n : Nat) : Prop where
  defined : SectorsFitInt offset n
  bytes : ∀ (disk : Disk) (m : Mem) (ptr i : Nat), i < n →
    fatLoadData disk m ptr offset n (ptr + i) = disk (offset + i)
  reads : ∀ (disk : Disk) (m : Mem) (ptr : Nat) (op : CellOp Nat (List Byte)),
    op ∈ (fatLoadDataCalls m ptr offset n).calls (cells Nat (List Byte)) (sectorBytes disk) →
    ∃ s, op = .get s ∧ offset / 512 ≤ s ∧ s ≤ lastSector offset n

/-- The last sector is the first one plus the others. -/
theorem lastSector_eq {offset n : Nat} (hn : 0 < n) :
    lastSector offset n + 1 = offset / 512 + sectorsRead offset n := by
  obtain ⟨c, hc⟩ : ∃ c, (n + 511) / 512 = c + 1 := ⟨(n + 511) / 512 - 1, by omega⟩
  unfold lastSector sectorsRead
  rw [hc]
  split <;> omega

/-- The sectors of a range of more than one sector that ends at the last `int`. -/
theorem not_loadsSpliced {offset n : Nat} (hmore : 2 ≤ sectorsRead offset n)
    (hend : offset / 512 + sectorsRead offset n = 2147483648) : ¬ LoadsSpliced offset n := by
  intro h
  rcases Nat.eq_zero_or_pos (offset / 512) with hzero | hpos
  · -- the count does not fit: only the first sector is stored
    have hcount : loadSectorCount offset n < 2 := by
      unfold loadSectorCount toInt32
      omega
    have hstored : bytesStored offset n = 512 - offset % 512 := if_pos hcount
    have hlong : 512 < n := by
      unfold sectorsRead at hmore hend
      split at hend <;> omega
    obtain ⟨pos, hpos⟩ := fatLoadData_stores offset n
    have hbyte := h.bytes (fun _ => 1) (fun _ => 0) 0 512 hlong
    rw [hpos, if_neg (by omega)] at hbyte
    exact absurd hbyte (by decide)
  · -- the count fits, its sum with the first sector does not
    have hcount : loadSectorCount offset n = (sectorsRead offset n : Nat) :=
      toInt32_of_range (by omega) (by omega)
    have hsector : loadSector offset = (offset / 512 : Nat) :=
      toInt32_of_range (by omega) (by omega)
    have hdef := h.defined
    unfold SectorsFitInt at hdef
    rw [hcount, hsector] at hdef
    omega

/-- **Sector splicing.**  For every offset and every positive `n` with sector numbers below 2^31,
    `fat_load_data` delivers the bytes and reads only their sectors if and only if it reads a single
    sector or the number behind the last one is an `int` too.  No caller of the kernel reaches
    the other case, a range that ends in the last `int` sector, at 2^40 - 512 bytes: the largest
    offset is that of a cluster, less than 2^31 + 255 * 65535 * 65533. -/
theorem fat_load_data_splices_iff (offset n : Nat) (hn : 1 ≤ n)
    (hsectors : lastSector offset n < 2147483648) :
    LoadsSpliced offset n ↔ sectorsRead offset n < 2 ∨ lastSector offset n < 2147483647 := by
  have hlast : lastSector offset n + 1 = _ := lastSector_eq hn
  constructor
  · intro h
    by_contra hcond
    exact not_loadsSpliced (by omega) (by omega) h
  · intro hcond
    have hpos : 0 < sectorsRead offset n := by
      unfold sectorsRead
      omega
    have hfit : SectorNumbersFit offset n := ⟨by omega, by omega⟩
    constructor
    · have hsector : loadSector offset = (offset / 512 : Nat) :=
        toInt32_of_range (by omega) (by omega)
      have hcount : loadSectorCount offset n = (sectorsRead offset n : Nat) :=
        toInt32_of_range (by omega) (by omega)
      unfold SectorsFitInt
      omega
    · intro disk m ptr i hi
      rw [fatLoadData_splices disk m ptr hn hfit, if_pos (by omega), Nat.add_sub_cancel_left]
    · intro disk m ptr op hop
      rw [fatLoadDataCalls_calls m ptr hn hfit] at hop
      obtain ⟨s, hs, rfl⟩ := List.mem_map.mp hop
      rw [List.mem_range'_1] at hs
      exact ⟨s, rfl, by omega, by omega⟩

/-- 1000 bytes from the middle of a sector: three sectors. -/
theorem fat_load_data_splices_thousand :
    (LoadsSpliced 700 1000 ↔ sectorsRead 700 1000 < 2 ∨ lastSector 700 1000 < 2147483647) ∧
      LoadsSpliced 700 1000 ∧ lastSector 700 1000 = 3 :=
  ⟨fat_load_data_splices_iff 700 1000 (by decide) (by decide),
    (fat_load_data_splices_iff 700 1000 (by decide) (by decide)).mpr (Or.inr (by decide)), by decide⟩

/-- A terabyte from the start of the disk: the last sector number is 2^31 - 1, but the number of
    sectors is negative as an `int`, and the second sector is not read. -/
theorem fat_load_data_short_read : lastSector 0 1099511627776 < 2147483648 ∧
    ¬ LoadsSpliced 0 1099511627776 := by
  have hread : sectorsRead 0 1099511627776 = 2147483648 := by
    rw [sectorsRead, if_pos (Nat.zero_mod 512)]
  constructor
  · unfold lastSector
    omega
  · exact not_loadsSpliced (by omega) (by omega)

end TinyKernel
