/-
  Open files on a FAT volume, `kernel/fs/fat_fs.c`.

  A `fat_inode` caches one block of 512 bytes of its file.  `fatfs_get` delivers the file byte by
  byte through that cache, `fatfs_read` reads all of it in one go along the cluster chain.

  `fatFsMachine` opens root entries, any of them and as often as one likes, and calls `fatfs_get`
  on the open files in any order; the ghost `reads` holds the bytes a file has delivered.  The
  invariant ties the position to the number of bytes delivered and says that the cache, once it
  is loaded, holds the block it claims to hold (`ReadsFile`).  Both ways of reading are compared
  with the concatenated clusters of the file's chain, `chainByte`.
-/
import TinyKernel.Lib.Machine
import TinyKernel.Fs.Fat

namespace TinyKernel

/-! ## The source -/

/-- `BUFFERSIZE`. -/
abbrev bufferSize : Nat := 512

/-- `struct fat_inode`, with the entry that `fat16_dir_entry` points to; `none` is `NULL`. -/
structure FatInode where
  fat16DirEntry : Option Fat16DirEntry
  buffer : Mem
  position : Int
  loadedBufferIndex : Int

/-- `handle->entries[index]`. -/
def FatHandle.entryAt (h : FatHandle) (index : Nat) : Fat16DirEntry where
  startingCluster := loadNat h.entries (fat16DirEntrySize * index + 26) 2
  filesizeBytes := loadNat h.entries (fat16DirEntrySize * index + 28) 4

/-- The `fat_inode` that `fatfs_open` sets up for an entry, in memory with the given contents. -/
def fatfsInode (entry : Option Fat16DirEntry) (buffer : Mem) : FatInode where
  fat16DirEntry := entry
  buffer := buffer
  position := 0
  loadedBufferIndex := -1

/-- `fatfs_read`. -/
def fatfsRead (rounds : Nat) (disk : Disk) (h : FatHandle) (inode : FatInode) (m : Mem)
    (ptr : Nat) : Except Fault Mem :=
  match inode.fat16DirEntry with
  | none => .error .nullPointer
  | some entry => fatReadEntry rounds disk h entry m ptr

/-- The part of `fatfs_get` that loads a block into the cache. -/
def fatfsLoad (rounds : Nat) (disk : Disk) (h : FatHandle) (scratch : Mem) (inode : FatInode)
    (entry : Fat16DirEntry) (reqBufferIndex : Int) : Except Fault FatInode :=
  if reqBufferIndex ≠ inode.loadedBufferIndex then do
    let (buffer, _) ← fatReadEntryOffsetSize rounds disk h entry scratch inode.buffer 0
      (bufferSize * reqBufferIndex) bufferSize
    return { inode with buffer := buffer, loadedBufferIndex := reqBufferIndex }
  else return inode

/-- `fatfs_get`: `some c` is the result 1 with `*ptr = c`, `none` is the result 0.  `scratch` is
    what the cluster buffer from `kalloc` holds. -/
def fatfsGet (rounds : Nat) (disk : Disk) (h : FatHandle) (scratch : Mem) (inode : FatInode) :
    Except Fault (Option Byte × FatInode) :=
  match inode.fat16DirEntry with
  | none => .error .nullPointer
  | some entry =>
    -- `int >= uint32_t` compares as `uint32_t`
    if entry.filesizeBytes ≤ toUint32 inode.position then .ok (none, inode)
    else do
      let reqBufferIndex := inode.position.tdiv bufferSize
      let reqBufferOffset := inode.position.tmod bufferSize
      let inode ← fatfsLoad rounds disk h scratch inode entry reqBufferIndex
      if 2147483647 ≤ inode.position then throw .signedOverflow
      return (some (inode.buffer reqBufferOffset.toNat),
        { inode with position := inode.position + 1 })

/-- `fatfs_left`. -/
def fatfsLeft (inode : FatInode) : Except Fault Int :=
  match inode.fat16DirEntry with
  | none => .error .nullPointer
  | some entry => .ok (toInt32 ((entry.filesizeBytes : Int) - inode.position))

/-! ## Open files -/

/-- An open file and the bytes it has delivered so far. -/
structure FatFile where
  inode : FatInode
  reads : List Byte

inductive FatFsEvent
  /-- Open the root entry `index`; `buffer` is what the memory for the inode holds. -/
  | open (index : Nat) (buffer : Mem)
  /-- `fatfs_get` on the file with number `i`. -/
  | get (i : Nat) (scratch : Mem)

/-- One call. -/
def FatFsStep (disk : Disk) (h : FatHandle) (st : List FatFile) :
    FatFsEvent → List FatFile → Prop
  | .open index buffer, st' => st' = st ++ [⟨fatfsInode (some (h.entryAt index)) buffer, []⟩]
  | .get i scratch, st' => ∃ f c inode, st[i]? = some f ∧
      Returns (fun rounds => fatfsGet rounds disk h scratch f.inode) (c, inode) ∧
      st' = st.set i ⟨inode, f.reads ++ c.toList⟩

/-- Files opened and read on a volume. -/
def fatFsMachine (disk : Disk) (h : FatHandle) : Machine (List FatFile) FatFsEvent where
  start st := st = []
  step := FatFsStep disk h

/-! ## The invariant -/

/-- The entry's chain has just enough clusters for the file. -/
structure FileChain (h : FatHandle) (entry : Fat16DirEntry) (clusters : List Nat) : Prop where
  size : entry.filesizeBytes < 2147483648
  chain : ChainFrom h entry.startingCluster clusters
  length : clusters.length
    = (entry.filesizeBytes + fatGetClusterSize h - 1) / fatGetClusterSize h

/-- The cache is empty, or holds the block of the file that it says it holds. -/
def CacheOk (disk : Disk) (h : FatHandle) (clusters : List Nat) (inode : FatInode) : Prop :=
  inode.loadedBufferIndex = -1 ∨ ∃ b : Nat, inode.loadedBufferIndex = b ∧
    ∀ j, j < 512 → inode.buffer j = chainByte disk h clusters (512 * b + j)

/-- The file has delivered a first part of its bytes, and is positioned behind it. -/
structure ReadsFile (disk : Disk) (h : FatHandle) (entry : Fat16DirEntry) (clusters : List Nat)
    (f : FatFile) : Prop where
  file : f.inode.fat16DirEntry = some entry
  position : f.inode.position = (f.reads.length : Int)
  bound : f.reads.length ≤ entry.filesizeBytes
  bytes : ∀ i c, f.reads[i]? = some c → c = chainByte disk h clusters i
  cache : CacheOk disk h clusters f.inode

variable {disk : Disk} {h : FatHandle} {entry : Fat16DirEntry} {clusters : List Nat}
  {f : FatFile} {st st' : List FatFile}

/-- A file that has just been opened. -/
theorem ReadsFile.opened (disk : Disk) (h : FatHandle) (entry : Fat16DirEntry)
    (clusters : List Nat) (buffer : Mem) :
    ReadsFile disk h entry clusters ⟨fatfsInode (some entry) buffer, []⟩ where
  file := rfl
  position := rfl
  bound := Nat.zero_le _
  bytes := fun i c hc => absurd hc (by simp)
  cache := Or.inl rfl

/-- The clusters cover the file, and the last one is not empty. -/
theorem FileChain.cover (hf : FileChain h entry clusters) (hpos : 0 < fatGetClusterSize h) :
    entry.filesizeBytes ≤ fatGetClusterSize h * clusters.length ∧
      fatGetClusterSize h * clusters.length < entry.filesizeBytes + fatGetClusterSize h := by
  have hdiv := Nat.div_add_mod (entry.filesizeBytes + fatGetClusterSize h - 1) (fatGetClusterSize h)
  have hmod := Nat.mod_lt (entry.filesizeBytes + fatGetClusterSize h - 1) hpos
  rw [← hf.length] at hdiv
  omega

/-- **Loading the cache** with a block that begins inside the file. -/
theorem fatfsLoad_spec (hs : h.Sane) (hpos : 0 < fatGetClusterSize h)
    (hdvd : 512 ∣ fatGetClusterSize h) (hf : FileChain h entry clusters) {inode : FatInode}
    (hc : CacheOk disk h clusters inode) {b : Nat} (hb : 512 * b < entry.filesizeBytes)
    (scratch : Mem) :
    ∃ buffer, (∀ rounds, 1 ≤ rounds → fatfsLoad rounds disk h scratch inode entry b
        = .ok { inode with buffer := buffer, loadedBufferIndex := b }) ∧
      ∀ j, j < 512 → buffer j = chainByte disk h clusters (512 * b + j) := by
  by_cases hload : (b : Int) ≠ inode.loadedBufferIndex
  · obtain ⟨q, hq⟩ := hdvd
    have hq0 : 0 < q := by omega
    have hsize := hf.size
    have hlt : b / q < clusters.length := by
      obtain ⟨hcover, -⟩ := hf.cover hpos
      rw [hq, Nat.mul_assoc] at hcover
      exact (Nat.div_lt_iff_lt_mul hq0).mpr (by rw [Nat.mul_comm]; omega)
    obtain ⟨m', buffer', hrun, hbytes⟩ := fatReadEntryOffsetSize_block disk hs hq0 hq
      hf.chain hlt (by omega) scratch inode.buffer 0
    refine ⟨m', fun rounds hr => ?_, fun j hj => ?_⟩
    · rw [fatfsLoad, if_pos hload]
      have hargs : (bufferSize : Int) * (b : Int) = ((512 * b : Nat) : Int) := by push_cast; rfl
      rw [hargs, show ((bufferSize : Nat) : Int) = 512 from rfl, hrun rounds hr]
      rfl
    · rw [hbytes, if_pos (by omega), Nat.sub_zero]
  · -- the cache holds the block already
    have hload : (b : Int) = inode.loadedBufferIndex := not_not.mp hload
    rcases hc with hnone | ⟨b', hb', hbytes⟩
    · omega
    · have hbb : b' = b := by omega
      subst hbb
      refine ⟨inode.buffer, fun rounds _ => ?_, hbytes⟩
      rw [fatfsLoad, if_neg (not_not.mpr hload), hload]
      rfl

/-- **`fatfs_get` before the end of the file** delivers the next byte. -/
theorem ReadsFile.get_next (hs : h.Sane) (hpos : 0 < fatGetClusterSize h)
    (hdvd : 512 ∣ fatGetClusterSize h) (hf : FileChain h entry clusters)
    (hr : ReadsFile disk h entry clusters f) (hlt : f.reads.length < entry.filesizeBytes)
    (scratch : Mem) :
    ∃ inode, (∀ rounds, 1 ≤ rounds → fatfsGet rounds disk h scratch f.inode
        = .ok (some (chainByte disk h clusters f.reads.length), inode)) ∧
      ReadsFile disk h entry clusters
        ⟨inode, f.reads ++ [chainByte disk h clusters f.reads.length]⟩ := by
  have hsize := hf.size
  obtain ⟨buffer, hload, hbytes⟩ := fatfsLoad_spec hs hpos hdvd hf hr.cache
    (b := f.reads.length / 512) (by omega) scratch
  refine ⟨⟨some entry, buffer, f.reads.length + 1, (f.reads.length / 512 : Nat)⟩,
    fun rounds hrounds => ?_, ?_⟩
  · have hsmall : toUint32 (f.reads.length : Int) = f.reads.length := toUint32_natCast (by omega)
    have hindex : (f.reads.length : Int).tdiv (512 : Nat) = (f.reads.length / 512 : Nat) := rfl
    have hoffset : ((f.reads.length : Int).tmod (512 : Nat)).toNat = f.reads.length % 512 := rfl
    have hbyte := hbytes (f.reads.length % 512) (Nat.mod_lt _ (by decide))
    rw [Nat.div_add_mod] at hbyte
    rw [fatfsGet, hr.file]
    simp only [hr.position, hsmall, hindex, hoffset, hload rounds hrounds, ok_bind]
    rw [if_neg (by omega), if_neg (by omega), hbyte, hr.file]
    rfl
  · refine ⟨rfl, ?_, ?_, ?_, Or.inr ⟨_, rfl, hbytes⟩⟩
    · rw [List.length_append]
      rfl
    · rw [List.length_append]
      exact hlt
    · intro i c hc
      rcases Nat.lt_or_ge i f.reads.length with hi | hi
      · rw [List.getElem?_append_left hi] at hc
        exact hr.bytes i c hc
      · rw [List.getElem?_append_right hi] at hc
        -- the new byte is the only one behind the old ones
        have hlast : i - f.reads.length = 0 := by
          have := (List.getElem?_eq_some_iff.mp hc).1
          simp only [List.length_singleton] at this
          omega
        rw [hlast, List.getElem?_cons_zero, Option.some.injEq] at hc
        rw [← hc, show i = f.reads.length by omega]

/-- **`fatfs_get` at the end of the file** returns 0 and changes nothing. -/
theorem ReadsFile.get_end (hf : FileChain h entry clusters)
    (hr : ReadsFile disk h entry clusters f) (hend : f.reads.length = entry.filesizeBytes)
    (rounds : Nat) (scratch : Mem) :
    fatfsGet rounds disk h scratch f.inode = .ok (none, f.inode) := by
  have hsize := hf.size
  have hsmall : toUint32 (f.reads.length : Int) = f.reads.length := toUint32_natCast (by omega)
  rw [fatfsGet, hr.file]
  simp only [hr.position, hsmall]
  rw [if_pos (by omega)]

/-- Loading the cache changes neither the entry nor the position. -/
theorem fatfsLoad_ok {rounds : Nat} {scratch : Mem} {inode inode' : FatInode} {index : Int}
    (hload : fatfsLoad rounds disk h scratch inode entry index = .ok inode') :
    inode'.fat16DirEntry = inode.fat16DirEntry ∧ inode'.position = inode.position := by
  unfold fatfsLoad at hload
  split at hload
  · obtain ⟨res, -, hload⟩ := bind_eq_ok hload
    obtain rfl := Except.ok.inj hload
    exact ⟨rfl, rfl⟩
  · obtain rfl := Except.ok.inj hload
    exact ⟨rfl, rfl⟩

/-- What a `fatfs_get` that returns has done, on any file. -/
theorem fatfsGet_ok {rounds : Nat} {scratch : Mem} {inode inode' : FatInode} {c : Option Byte}
    (hget : fatfsGet rounds disk h scratch inode = .ok (c, inode')) :
    ∃ entry, inode.fat16DirEntry = some entry ∧ inode'.fat16DirEntry = some entry ∧
      ((c = none ∧ entry.filesizeBytes ≤ toUint32 inode.position) ∨
        ∃ b, c = some b ∧ toUint32 inode.position < entry.filesizeBytes ∧
          inode.position < 2147483647 ∧ inode'.position = inode.position + 1) := by
  unfold fatfsGet at hget
  split at hget
  · cases hget
  · rename_i entry hentry
    refine ⟨entry, hentry, ?_⟩
    split at hget
    · rename_i hend
      obtain ⟨rfl, rfl⟩ := Prod.mk.inj (Except.ok.inj hget)
      exact ⟨hentry, Or.inl ⟨rfl, hend⟩⟩
    · rename_i hmore
      obtain ⟨loaded, hload, hget⟩ := bind_eq_ok hget
      obtain ⟨hsame, hposition⟩ := fatfsLoad_ok hload
      obtain ⟨hsmall, hget⟩ := guard_eq_ok hget
      obtain ⟨rfl, rfl⟩ := Prod.mk.inj (Except.ok.inj hget)
      refine ⟨hsame.trans hentry, Or.inr ⟨_, rfl, Nat.lt_of_not_le hmore, ?_, ?_⟩⟩
      · rw [← hposition]
        exact Int.not_le.mp hsmall
      · simp only [hposition]

/-- **Reading on**: as many calls as bytes are left, on the file with number `i`.  The induction is on
    the calls; the other files stay as they are. -/
theorem ReadsFile.gets (hs : h.Sane) (hpos : 0 < fatGetClusterSize h)
    (hdvd : 512 ∣ fatGetClusterSize h) (hf : FileChain h entry clusters) (scratch : Mem) {i : Nat} :
    ∀ (n : Nat) {st : List FatFile} {f : FatFile}, (fatFsMachine disk h).Reach st →
      st[i]? = some f → ReadsFile disk h entry clusters f →
      f.reads.length + n ≤ entry.filesizeBytes →
      ∃ f', (fatFsMachine disk h).Reach (st.set i f') ∧ ReadsFile disk h entry clusters f' ∧
        f'.reads.length = f.reads.length + n := by
  intro n
  induction n with
  | zero =>
    intro st f hreach hget hr _
    have hsame : st.set i f = st := by
      obtain ⟨hlt, rfl⟩ := List.getElem?_eq_some_iff.mp hget
      exact List.set_getElem_self hlt
    exact ⟨f, hsame.symm ▸ hreach, hr, rfl⟩
  | succ n ih =>
    intro st f hreach hget hr hle
    obtain ⟨inode, hrun, hr'⟩ := hr.get_next hs hpos hdvd hf (by omega) scratch
    have hstep : FatFsStep disk h st (.get i scratch)
        (st.set i ⟨inode, f.reads ++ [chainByte disk h clusters f.reads.length]⟩) :=
      ⟨f, some _, inode, hget, ⟨1, hrun⟩, rfl⟩
    have hlt : i < st.length := (List.getElem?_eq_some_iff.mp hget).1
    obtain ⟨f', hreach', hr'', hlen⟩ := ih (hreach.step (e := .get i scratch) hstep)
      (List.getElem?_set_self hlt) hr' (by simp only [List.length_append, List.length_singleton]; omega)
    rw [List.set_set] at hreach'
    rw [List.length_append, List.length_singleton] at hlen
    exact ⟨f', hreach', hr'', by omega⟩

/-- Every open file with a proper chain has delivered a first part of its bytes. -/
def FilesRead (disk : Disk) (h : FatHandle) (st : List FatFile) : Prop :=
  ∀ f ∈ st, ∀ entry clusters, f.inode.fat16DirEntry = some entry →
    FileChain h entry clusters → ReadsFile disk h entry clusters f

/-- One call keeps the invariant. -/
theorem FilesRead.step (hs : h.Sane) (hpos : 0 < fatGetClusterSize h)
    (hdvd : 512 ∣ fatGetClusterSize h) (hi : FilesRead disk h st) {e : FatFsEvent}
    (hstep : FatFsStep disk h st e st') : FilesRead disk h st' := by
  cases e with
  | «open» index buffer =>
    obtain rfl := hstep
    intro f hmem entry clusters hentry hf
    rcases List.mem_append.mp hmem with hold | hnew
    · exact hi f hold entry clusters hentry hf
    · obtain rfl := List.mem_singleton.mp hnew
      obtain rfl := Option.some.inj hentry
      exact ReadsFile.opened disk h _ clusters buffer
  | get i scratch =>
    obtain ⟨f, c, inode, hget, hret, rfl⟩ := hstep
    intro f' hmem entry clusters hentry hf
    rcases List.mem_or_eq_of_mem_set hmem with hold | rfl
    · exact hi f' hold entry clusters hentry hf
    · -- the entry of an inode never changes
      have hsame : f.inode.fat16DirEntry = some entry := by
        obtain ⟨enough, hres⟩ := hret
        obtain ⟨e, he, he', -⟩ := fatfsGet_ok (hres enough (Nat.le_refl _))
        rw [he, ← he', hentry]
      have hread := hi f (List.mem_of_getElem? hget) entry clusters hsame hf
      rcases Nat.lt_or_ge f.reads.length entry.filesizeBytes with hlt | hge
      · obtain ⟨inode', hrun, hread'⟩ := hread.get_next hs hpos hdvd hf hlt scratch
        obtain ⟨rfl, rfl⟩ := Prod.mk.inj (hret.unique ⟨1, hrun⟩)
        exact hread'
      · have hend := Nat.le_antisymm hread.bound hge
        obtain ⟨rfl, rfl⟩ := Prod.mk.inj
          (hret.unique ⟨0, fun rounds _ => hread.get_end hf hend rounds scratch⟩)
        rw [Option.toList_none, List.append_nil]
        exact hread

/-! ## The file is what its chain says -/

/-- What the calls on an open file deliver, byte by byte and in one go. -/
structure FileServed (disk : Disk) (h : FatHandle) (entry : Fat16DirEntry) (clusters : List Nat)
    (f : FatFile) : Prop where
  /-- The successes so far delivered the first bytes of the chain. -/
  delivered : ∀ i c, f.reads[i]? = some c → c = chainByte disk h clusters i
  bound : f.reads.length ≤ entry.filesizeBytes
  left : fatfsLeft f.inode = .ok ((entry.filesizeBytes : Int) - f.reads.length)
  /-- Before the end of the file `fatfs_get` returns 1 and the next byte. -/
  next : f.reads.length < entry.filesizeBytes → ∀ scratch, ∃ inode,
    Returns (fun rounds => fatfsGet rounds disk h scratch f.inode)
      (some (chainByte disk h clusters f.reads.length), inode)
  /-- At the end it returns 0, and the file stays as it is. -/
  finished : f.reads.length = entry.filesizeBytes → ∀ scratch,
    Returns (fun rounds => fatfsGet rounds disk h scratch f.inode) (none, f.inode)
  /-- `fatfs_read` stores the same bytes. -/
  bulk : 0 < entry.filesizeBytes → ∀ m ptr, ∃ m',
    Returns (fun rounds => fatfsRead rounds disk h f.inode m ptr) m' ∧
      ∀ i, i < entry.filesizeBytes → m' (ptr + i) = chainByte disk h clusters i

theorem ReadsFile.served (hs : h.Sane) (hpos : 0 < fatGetClusterSize h)
    (hdvd : 512 ∣ fatGetClusterSize h) (hf : FileChain h entry clusters)
    (hr : ReadsFile disk h entry clusters f) : FileServed disk h entry clusters f where
  delivered := hr.bytes
  bound := hr.bound
  left := by
    have hsize := hf.size
    have hbound := hr.bound
    rw [fatfsLeft, hr.file, hr.position]
    simp only
    rw [toInt32_of_range (by omega) (by omega)]
  next := by
    intro hlt scratch
    obtain ⟨inode, hrun, -⟩ := hr.get_next hs hpos hdvd hf hlt scratch
    exact ⟨inode, 1, hrun⟩
  finished := fun hend scratch => ⟨0, fun rounds _ => hr.get_end hf hend rounds scratch⟩
  bulk := by
    intro _ m ptr
    obtain ⟨hcover, htight⟩ := hf.cover hpos
    obtain ⟨m', hrun, -, hbytes⟩ := fatReadEntryLoop_chain disk hs hdvd hpos ptr
      entry.filesizeBytes 0 m hf.chain hcover htight (by rw [Nat.zero_add]; exact hf.size)
    have hsize : toInt32 (entry.filesizeBytes : Int) = entry.filesizeBytes :=
      toInt32_of_range (by omega) (by have := hf.size; omega)
    refine ⟨m', ⟨clusters.length + 1, fun rounds hrounds => ?_⟩, fun i hi => hbytes i hi⟩
    simp only [fatfsRead, hr.file]
    rw [fatReadEntry, hsize]
    exact hrun rounds hrounds

/-- **Reading a FAT file returns the file.**  On every volume that `fat_load` reads, with clusters
    of whole sectors, in every state that any interleaving of `fatfs_get` calls on any number of
    open files reaches, every open file whose chain fits its size has delivered, and goes on to
    deliver, the bytes of its clusters, one by one and in one go. -/
theorem fat_file_reading {disk : Disk} {handleMem fatMem entriesMem : Mem} {h : FatHandle}
    (hload : fatLoad disk handleMem fatMem entriesMem = .ok h) (hpos : 0 < fatGetClusterSize h)
    (hdvd : 512 ∣ fatGetClusterSize h) {st : List FatFile}
    (hr : (fatFsMachine disk h).Reach st) {f : FatFile} (hf : f ∈ st) {entry : Fat16DirEntry}
    (hentry : f.inode.fat16DirEntry = some entry) {clusters : List Nat}
    (hchain : FileChain h entry clusters) : FileServed disk h entry clusters f := by
  have hs := fatLoad_sane hload
  have hinv : FilesRead disk h st := by
    refine hr.invariant (I := FilesRead disk h) ?_ ?_
    · rintro st rfl f hf
      exact absurd hf List.not_mem_nil
    · exact fun st e st' hi hstep => hi.step hs hpos hdvd hstep
  exact (hinv f hf entry clusters hentry hchain).served hs hpos hdvd hchain

/-- A volume of eight sectors: the header, one table, a root directory of 16 entries, and a file
    of three bytes in cluster 2. -/
def smallVolume : Disk := fun x =>
  if x = 12 then 2 else if x = 13 then 1 else if x = 14 then 1 else if x = 16 then 1
  else if x = 17 then 16 else if x = 19 then 8 else if x = 22 then 1
  else if x = 516 then 0xff else if x = 517 then 0xff
  else if x = 1050 then 2 else if x = 1052 then 3
  else if x = 1536 then 0x61 else if x = 1537 then 0x62 else if x = 1538 then 0x63 else 0

/-- What `fat_load` finds on it. -/
theorem smallVolume_load : ∃ h,
    fatLoad smallVolume (fun _ => 0) (fun _ => 0) (fun _ => 0) = .ok h ∧
      fatGetClusterSize h = 512 ∧ h.entryAt 0 = ⟨2, 3⟩ ∧ h.fatAt 2 = 0xffff := by
  have hcheck : (fatLoad smallVolume (fun _ => 0) (fun _ => 0) (fun _ => 0)).map (fun h =>
      (fatGetClusterSize h, h.entryAt 0, h.fatAt 2)) = .ok (512, ⟨2, 3⟩, 0xffff) := by
    decide +kernel
  cases hload : fatLoad smallVolume (fun _ => 0) (fun _ => 0) (fun _ => 0) with
  | ok h =>
    rw [hload] at hcheck
    obtain ⟨hsize, hrest⟩ := Prod.mk.inj (Except.ok.inj hcheck)
    obtain ⟨hentry, hfat⟩ := Prod.mk.inj hrest
    exact ⟨h, rfl, hsize, hentry, hfat⟩
  | error e =>
    rw [hload] at hcheck
    exact absurd hcheck (by simp [Except.map])

/-- A volume with a file of 600 bytes in clusters 2 and 3 and one of three bytes in cluster 4. -/
def twoFileVolume : Disk := fun x =>
  ([(12, 2), (13, 1), (14, 1), (16, 1), (17, 16), (19, 8), (22, 1), (516, 3), (518, 0xff),
    (519, 0xff), (520, 0xff), (521, 0xff), (1050, 2), (1052, 0x58), (1053, 2), (1082, 4), (1084, 3),
    -- the bytes on both sides of the end of cluster 2, and the second file
    (2047, 0x61), (2048, 0x62), (2560, 0x63), (2561, 0x64)].lookup x).getD 0

theorem twoFileVolume_load : ∃ h,
    fatLoad twoFileVolume (fun _ => 0) (fun _ => 0) (fun _ => 0) = .ok h ∧
      fatGetClusterSize h = 512 ∧ h.entryAt 0 = ⟨2, 600⟩ ∧ h.entryAt 1 = ⟨4, 3⟩ ∧
      h.fatAt 2 = 3 ∧ h.fatAt 3 = 0xffff ∧ h.fatAt 4 = 0xffff := by
  have hcheck : (fatLoad twoFileVolume (fun _ => 0) (fun _ => 0) (fun _ => 0)).map (fun h =>
      (fatGetClusterSize h, h.entryAt 0, h.entryAt 1, h.fatAt 2, h.fatAt 3, h.fatAt 4))
      = .ok (512, ⟨2, 600⟩, ⟨4, 3⟩, 3, 0xffff, 0xffff) := by
    decide +kernel
  cases hload : fatLoad twoFileVolume (fun _ => 0) (fun _ => 0) (fun _ => 0) with
  | ok h =>
    rw [hload] at hcheck
    simp only [Except.map, Except.ok.injEq, Prod.mk.injEq] at hcheck
    exact ⟨h, rfl, hcheck⟩
  | error e =>
    rw [hload] at hcheck
    exact absurd hcheck (by simp [Except.map])

/-- The first file is read to one byte before the end of its first cluster, then the second is
    opened and read, and then the first is read on over the end of the cluster. -/
theorem fat_file_reading_two : ∃ h f g,
    fatLoad twoFileVolume (fun _ => 0) (fun _ => 0) (fun _ => 0) = .ok h ∧
      (fatFsMachine twoFileVolume h).Reach [f, g] ∧ f.reads.length = 520 ∧ g.reads.length = 2 ∧
      FileServed twoFileVolume h ⟨2, 600⟩ [2, 3] f ∧ FileServed twoFileVolume h ⟨4, 3⟩ [4] g := by
  obtain ⟨h, hload, hsize, hentry, hentry', hfat2, hfat3, hfat4⟩ := twoFileVolume_load
  have hs := fatLoad_sane hload
  have hpos : 0 < fatGetClusterSize h := by rw [hsize]; decide
  have hdvd : 512 ∣ fatGetClusterSize h := by rw [hsize]
  have hchain : FileChain h ⟨2, 600⟩ [2, 3] :=
    ⟨by decide, ⟨rfl, by decide, by decide, hfat2.symm ▸ ⟨rfl, by decide, by decide, hfat3⟩⟩,
      by rw [hsize]; rfl⟩
  have hchain' : FileChain h ⟨4, 3⟩ [4] :=
    ⟨by decide, ⟨rfl, by decide, by decide, hfat4⟩, by rw [hsize]; rfl⟩
  have hopened : (fatFsMachine twoFileVolume h).Reach
      [⟨fatfsInode (some (h.entryAt 0)) fun _ => 0, []⟩] :=
    .step (e := .open 0 fun _ => 0) (.start rfl) rfl
  rw [hentry] at hopened
  obtain ⟨f₁, hreach₁, hr₁, hlen₁⟩ := ReadsFile.gets hs hpos hdvd hchain (fun _ => 0) (i := 0) 511
    hopened rfl (ReadsFile.opened ..) (by decide)
  have hreach₂ : (fatFsMachine twoFileVolume h).Reach
      [f₁, ⟨fatfsInode (some (h.entryAt 1)) fun _ => 1, []⟩] :=
    hreach₁.step (e := .open 1 fun _ => 1) rfl
  rw [hentry'] at hreach₂
  obtain ⟨g, hreach₃, hr₃, hlen₃⟩ := ReadsFile.gets hs hpos hdvd hchain' (fun _ => 0) (i := 1) 2
    hreach₂ rfl (ReadsFile.opened ..) (by decide)
  obtain ⟨f, hreach, hr, hlen⟩ := ReadsFile.gets hs hpos hdvd hchain (fun _ => 2) (i := 0) 9
    hreach₃ rfl hr₁ (by rw [hlen₁]; decide)
  have hserved := fat_file_reading hload hpos hdvd hreach (f := f) (by simp) hr.file hchain
  have hserved' := fat_file_reading hload hpos hdvd hreach (f := g) (by simp) hr₃.file hchain'
  exact ⟨h, f, g, hload, hreach, by rw [hlen, hlen₁]; rfl, hlen₃, hserved, hserved'⟩

end TinyKernel
