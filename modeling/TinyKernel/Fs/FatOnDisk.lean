/-
  `fat_load_data` on the driver.

  `Fs.Fat` reads from a `Disk`, a function that does not change.  Here the same function makes its
  calls of `block_read` one by one, and copies what it finds in the buffer (`fatLoadDataCalls`).  In
  a run of the driver with the device whose last calls are these, it leaves the bytes of the disk in
  memory, whatever was read and written before: `fatLoadData`, on the disk as it is now.

  The step from one to the other is that every call takes effect once (`disk_replay`), and that a
  read leaves the sectors as they are.
-/
import TinyKernel.Device.DiskService

namespace TinyKernel

/-! ## The source -/

/-- The buffer after a `block_read`. -/
def bufferOf (answer : Option (List Byte)) : Mem := fun i => (answer.getD []).getD i 0

/-- A client of the disk. -/
abbrev DiskClient (A : Type) := Client (CellOp Nat (List Byte)) (Option (List Byte)) A

/-- `block_read` of sector `n`. -/
def blockReadCall {A : Type} (n : Nat) (next : Mem → DiskClient A) : DiskClient A :=
  .call (.get n) fun answer => next (bufferOf answer)

/-- The loop over the middle sectors of `fat_load_data`. -/
def fatLoadMiddleCalls {A : Type} :
    Nat → Int → Mem → Nat → (Mem × Nat → DiskClient A) → DiskClient A
  | 0, _, m, ptr, next => next (m, ptr)
  | k + 1, s, m, ptr, next =>
    blockReadCall (toSize s) fun buffer =>
      fatLoadMiddleCalls k (s + 1) (memcpy m ptr buffer 0 sectorSize) (ptr + sectorSize) next

/-- `fat_load_data`. -/
def fatLoadDataCalls (m : Mem) (ptr offset n : Nat) : DiskClient Mem :=
  let sector := toInt32 (offset / sectorSize : Nat)
  let sectorCount := toInt32 ((n / sectorSize : Nat) + (if n % sectorSize = 0 then 0 else 1) +
    (if offset % sectorSize = 0 then 0 else 1))
  let notCompleteOffset := offset % sectorSize
  blockReadCall (toSize sector) fun buffer =>
    let m := memcpy m ptr buffer notCompleteOffset (sectorSize - notCompleteOffset)
    let ptr := ptr + (sectorSize - notCompleteOffset)
    if sectorCount < 2 then .done m
    else
      fatLoadMiddleCalls (sectorCount - 2).toNat (sector + 1) m ptr fun (m, ptr) =>
        blockReadCall (toSize (sector + sectorCount - 1)) fun buffer =>
          .done (memcpy m ptr buffer 0
            (if notCompleteOffset ≠ 0 then notCompleteOffset else sectorSize))

/-! ## Alone on the disk -/

theorem memcpy_congr {m src src' : Mem} {d s : Nat} : ∀ {n : Nat},
    (∀ i, i < n → src (s + i) = src' (s + i)) → memcpy m d src s n = memcpy m d src' s n := by
  intro n
  induction n with
  | zero =>
    intro _
    rfl
  | succ n ih =>
    intro h
    rw [memcpy, memcpy, ih fun i hi => h i (by omega), h n (by omega)]

/-- The buffer holds the sector. -/
theorem bufferOf_sectorBytes (image : Mem) (n : Nat) {i : Nat} (hi : i < sectorSize) :
    bufferOf (some (sectorBytes image n)) i = blockRead image n i := by
  unfold bufferOf sectorBytes
  rw [Option.getD_some, List.getD_eq_getElem?_getD, List.getElem?_map, List.getElem?_range hi,
    Option.map_some, Option.getD_some]

section Alone

variable {A : Type} {image : Mem}

theorem blockReadCall_run (n : Nat) (next : Mem → DiskClient A) :
    (blockReadCall n next).run (cells Nat (List Byte)) (sectorBytes image)
      = (next (bufferOf (some (sectorBytes image n)))).run (cells Nat (List Byte))
        (sectorBytes image) := by
  rw [blockReadCall, Client.run]
  simp only [cells]

theorem fatLoadMiddleCalls_run : ∀ (k : Nat) (s : Int) (m : Mem) (ptr : Nat)
    (next : Mem × Nat → DiskClient A),
    (fatLoadMiddleCalls k s m ptr next).run (cells Nat (List Byte)) (sectorBytes image)
      = (next (fatLoadMiddle image k s m ptr)).run (cells Nat (List Byte)) (sectorBytes image) := by
  intro k
  induction k with
  | zero =>
    intro s m ptr next
    rfl
  | succ k ih =>
    intro s m ptr next
    have hcopy : memcpy m ptr (bufferOf (some (sectorBytes image (toSize s)))) 0 sectorSize
        = memcpy m ptr (blockRead image (toSize s)) 0 sectorSize :=
      memcpy_congr fun i hi => bufferOf_sectorBytes image _ (by omega)
    rw [fatLoadMiddleCalls, blockReadCall_run, hcopy, ih, fatLoadMiddle]

/-- `fat_load_data` alone on the disk. -/
theorem fatLoadDataCalls_run (m : Mem) (ptr offset n : Nat) :
    (fatLoadDataCalls m ptr offset n).run (cells Nat (List Byte)) (sectorBytes image)
      = (fatLoadData image m ptr offset n, sectorBytes image) := by
  have hsize : sectorSize = 512 := rfl
  have hmod : offset % sectorSize < sectorSize := Nat.mod_lt _ (by decide)
  have hfirst : ∀ k, memcpy m ptr (bufferOf (some (sectorBytes image k))) (offset % sectorSize)
      (sectorSize - offset % sectorSize) = memcpy m ptr (blockRead image k) (offset % sectorSize)
      (sectorSize - offset % sectorSize) := fun k =>
    memcpy_congr fun i hi => bufferOf_sectorBytes image k (by omega)
  have hlast : ∀ (m : Mem) ptr k, memcpy m ptr (bufferOf (some (sectorBytes image k))) 0
      (if offset % sectorSize ≠ 0 then offset % sectorSize else sectorSize)
      = memcpy m ptr (blockRead image k) 0
        (if offset % sectorSize ≠ 0 then offset % sectorSize else sectorSize) := by
    intro m ptr k
    refine memcpy_congr fun i hi => bufferOf_sectorBytes image k ?_
    split at hi <;> omega
  unfold fatLoadDataCalls fatLoadData
  dsimp only
  rw [blockReadCall_run, hfirst]
  generalize toInt32 ((n / sectorSize : Nat) + _ + _) = sectorCount
  by_cases hcount : sectorCount < 2
  · rw [if_pos hcount, if_pos hcount, Client.run]
  · rw [if_neg hcount, if_neg hcount, fatLoadMiddleCalls_run,
      blockReadCall_run, hlast, Client.run]

end Alone

/-! ## It only reads -/

theorem blockReadCall_reads {A : Type} {n : Nat} {next : Mem → DiskClient A}
    (h : ∀ buffer, (next buffer).Reads) : (blockReadCall n next).Reads :=
  fun answer => h (bufferOf answer)

theorem fatLoadMiddleCalls_reads {A : Type} : ∀ (k : Nat) {s : Int} {m : Mem} {ptr : Nat}
    {next : Mem × Nat → DiskClient A}, (∀ r, (next r).Reads) →
    (fatLoadMiddleCalls k s m ptr next).Reads := by
  intro k
  induction k with
  | zero => exact fun h => h _
  | succ k ih => exact fun h => blockReadCall_reads fun buffer => ih h

theorem fatLoadDataCalls_reads (m : Mem) (ptr offset n : Nat) :
    (fatLoadDataCalls m ptr offset n).Reads := by
  unfold fatLoadDataCalls
  refine blockReadCall_reads fun buffer => ?_
  dsimp only
  generalize toInt32 ((n / sectorSize : Nat) + _ + _) = sectorCount
  by_cases hcount : sectorCount < 2
  · rw [if_pos hcount]
    trivial
  · rw [if_neg hcount]
    exact fatLoadMiddleCalls_reads _ fun r => blockReadCall_reads fun buffer => trivial

/-! ## On the driver -/

/-- **`fat_load_data` on the driver.**  When the last calls of a run are those of `fat_load_data`,
    it leaves the memory that `fatLoadData` says, for the disk as it is then; so it finds the bytes
    that the disk has from `offset` on.  The calls only read, so the sectors are the same before and
    after them, and each call has answered what `fatLoadData` reads. -/
theorem fat_load_data_on_disk {sectors : Nat} {st st' : DiskSystem}
    {tr : List (DiskSystem × DiskSystemEvent × DiskSystem)}
    {before calls : List (CellOp Nat (List Byte) × Option (List Byte))}
    {m m' : Mem} {ptr offset n : Nat} (h0 : (diskSystemMachine sectors).start st)
    (hr : (diskSystemMachine sectors).Run st tr st')
    (hok : ∀ a e b, (a, e, b) ∈ tr → CallInRange sectors a e b) (hidle : st'.call = none)
    (hhistory : diskHistory tr = before ++ calls)
    (hcalls : (fatLoadDataCalls m ptr offset n).Performs calls m') :
    m' = fatLoadData st'.image m ptr offset n ∧
    (0 < n → SectorNumbersFit offset n → ∀ i, i < n → m' (ptr + i) = st'.image (offset + i)) := by
  obtain ⟨-, -, values, hreplay, hafter⟩ := disk_replay h0 hr hok
  rw [hhistory] at hreplay
  obtain ⟨values', -, hlast⟩ := hreplay.append
  have hrun := hcalls.run hlast
  -- the calls only read: the sectors are the same before and after them
  have hsame : values = values' := by
    have hreads := (fatLoadDataCalls_reads m ptr offset n).run (s := values')
    rwa [hrun] at hreads
  rw [← hsame, ← hafter hidle, fatLoadDataCalls_run] at hrun
  have hmem : m' = fatLoadData st'.image m ptr offset n := (Prod.mk.inj hrun).1.symm
  refine ⟨hmem, fun hn hfit i hi => ?_⟩
  rw [hmem, fatLoadData_splices st'.image m ptr hn hfit, if_pos (by omega), Nat.add_sub_cancel_left]

/-- One sector, as the only call. -/
theorem fatLoadDataCalls_sector (m : Mem) (ptr : Nat) (r : Option (List Byte)) :
    ∃ m', (fatLoadDataCalls m ptr 2560 512).Performs [(.get 5, r)] m' := by
  unfold fatLoadDataCalls blockReadCall
  dsimp only
  rw [show toSize (toInt32 (2560 / sectorSize : Nat)) = 5 by decide +kernel]
  refine ⟨memcpy m ptr (bufferOf r) (2560 % sectorSize) (sectorSize - 2560 % sectorSize), .call ?_⟩
  rw [if_pos (by decide +kernel)]
  exact .done _

/-- The 512 bytes from position 2560 on are loaded. -/
theorem fat_load_data_on_disk_first : ∃ tr st m',
    (diskSystemMachine 8).Run (readyDiskSystem fun _ => 7) tr st ∧
    (fatLoadDataCalls (fun _ => 0) 0x40200000 2560 512).Performs (diskHistory tr) m' ∧
    m' = fatLoadData st.image (fun _ => 0) 0x40200000 2560 512 := by
  obtain ⟨tr, st, r, hrun, hidle, hhistory, hrange⟩ := readyDiskSystem_read fun _ => 7
  obtain ⟨m', hcalls⟩ := fatLoadDataCalls_sector (fun _ => 0) 0x40200000 r
  refine ⟨tr, st, m', hrun, ?_, (fat_load_data_on_disk (readyDiskSystem_start 8 _) hrun hrange hidle
    (hhistory.trans (List.nil_append _).symm) hcalls).1⟩
  rw [hhistory]
  exact hcalls

end TinyKernel
