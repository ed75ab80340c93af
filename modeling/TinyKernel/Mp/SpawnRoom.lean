/-
  When there is room for a program.

  `SpawnFits` asks for every allocation of `job_create_from_file` in turn.  They all succeed when the
  last blocks of the heap are free and the file has section names: `FreeFrom` follows the heap
  through the call.  Then no `kalloc` is refused, so the call is a step of `systemMachine`
  (`jobCreateFromFile_refusals`).

  The second half is a kernel for which all of this is true: `programDisk` is a volume of eight
  sectors with an ELF file of 188 bytes on it, `bootedSystem` the kernel on a heap with the three
  slabs of the boot.  It starts the program (`programVolume_starts`), and as long as there is room
  (`ProgramRoom`) the program can spawn its own file (`ProgramRoom.spawn`).  The witnesses of the
  results about whole runs are runs of this kernel.

  How much is left matters for that, not only that there is enough: the heap is followed by
  `FreeFrom`, which says from which block on it is free (`jobCreateFromFile_room`), frames and tables
  by the number of free slots (`jobCreateFromFile_slots` of `Mp.SpawnImage`).  Both bounds are
  generous, since neither the blocks nor the tables of a file are counted exactly.
-/
import TinyKernel.Fs.FatLookup
import TinyKernel.Mp.SpawnImage

namespace TinyKernel

/-- The size of the section names. -/
def namesSize (file : Mem) : Nat := shSize file (eShoff file + sizeofShdr * eShstrndx file)

/-- The file has sections, and names for them. -/
structure HasNames (file : Mem) : Prop where
  index : eShstrndx file < eShnum file
  size : namesSize file ≠ 0

/-- The blocks of the parser's buffers. -/
def parserBlocks (file : Mem) : Nat :=
  allocBlocks (sizeofShdr * eShnum file) + allocBlocks (sizeofPhdr * ePhnum file)
    + allocBlocks (namesSize file)

section Room

variable {volume : Volume} {garbage : Garbage} {st st₁ : SystemState} {inode : Nat}
  {fatInode : FatInode} {entry : Fat16DirEntry} {clusters : List Nat} {b : Nat}

/-- The heap when the file has been read. -/
theorem loadFile_room (hv : volume.Loaded) (hready : CallReady garbage st inode fatInode)
    (hentry : fatInode.fat16DirEntry = some entry)
    (hchain : FileChain volume.handle entry clusters)
    (hroom : (st.kalloc entry.filesizeBytes).1 ≠ 0)
    (hfree : (st.heap.kalloc entry.filesizeBytes).2.FreeFrom b) {rounds initMem : Nat}
    (hload : st.loadFile volume garbage rounds inode fatInode = .ok (initMem, st₁)) :
    KernelHeapInv st₁.heap ∧ st₁.heap.FreeFrom b ∧ initMem ≠ 0 ∧
      (initMem, entry.filesizeBytes) ∈ st₁.heap.live ∧
      st₁.refusals = st.refusals ∧
      ∀ i, i < entry.filesizeBytes → st₁.mem (initMem + i) = volume.file clusters i := by
  obtain ⟨l, hl, rfl⟩ := hready.opened
  obtain ⟨entry', rfl⟩ := hready.file
  obtain rfl : entry' = some entry := hentry
  obtain ⟨st₂, hspec, hlive, hbytes⟩ := loadFile_spec hv hchain hready.fs hl hroom garbage.inode
  obtain ⟨size, bytes, fs, hleft, hget, hinit, -, hclose, hst₁⟩ := loadFile_ok hload
  have hrounds : entry.filesizeBytes < rounds := by
    obtain ⟨hlength, -, hfuel⟩ := fatfsGetAll_length rfl (Int.le_refl 0)
      (show (0 : Int) < 2147483648 by decide) (Int.natCast_nonneg _) hget
    simp only [fatfsInode, Int.zero_add] at hlength
    omega
  obtain ⟨rfl, rfl⟩ := Prod.mk.inj (Except.ok.inj (hload.symm.trans (hspec rounds hrounds)))
  have hsize : toSize size = entry.filesizeBytes := by
    have hlen := hchain.size
    obtain rfl := Except.ok.inj hleft
    rw [fatfsInode]
    simp only [Int.sub_zero]
    rw [toInt32_of_range (by omega) (by omega)]
    exact toSize_natCast (by omega)
  have hfs : InodeInv st₁.fs := by
    rw [hst₁]
    exact (hready.fs.kalloc (toSize size)).close hl hclose
  refine ⟨hfs.heap, ?_, hroom, hlive, ?_, hbytes⟩
  · obtain ⟨r, mem, -, rfl⟩ := closeInode_ok hclose
    have hheap : KernelHeapInv (st.heap.kalloc entry.filesizeBytes).2 :=
      hready.fs.heap.kalloc_inv _
    have hdata : (l.implInode, l.filesystem.implSize)
        ∈ (st.heap.kalloc entry.filesizeBytes).2.live :=
      HeapState.mem_kalloc_live (hready.fs.data l hl) _
    have hafter := hheap.kfree_room hfree hdata
    rw [← hready.fs.implInode l hl] at hafter
    rw [hst₁, hsize]
    exact hafter
  · rw [hst₁, hsize]
    exact SystemState.kalloc_refusals hroom

/-- The state when it has been parsed, for a file with names. -/
theorem parseElf_room {file : Mem} {len initMem : Nat} {elf : Elf} {st' : SystemState}
    (helf : Elf64 file len) (hnames : HasNames file) (h : KernelHeapInv st.heap)
    (hfile : (initMem, len) ∈ st.heap.live) (hm : ∀ i, i < len → st.mem (initMem + i) = file i)
    (hfree : st.heap.FreeFrom b) (hroom : b + parserBlocks file ≤ 0x10000)
    (hparse : st.parseElf initMem = .ok (elf, st')) :
    KernelHeapInv st'.heap ∧ st'.heap.FreeFrom (b + parserBlocks file) ∧
      st'.refusals = st.refusals := by
  obtain ⟨-, parsed, hparsed, -, rfl, rfl⟩ := parseElf_ok hparse
  rw [parserBlocks, ← Nat.add_assoc, ← Nat.add_assoc] at hroom ⊢
  obtain ⟨hs, hp, hstr, hfree'⟩ :=
    helf.parse_room h hfile hm hnames.index hnames.size hfree hroom hparsed
  refine ⟨(elfAllocAndParse_live h hparsed).1, hfree', ?_⟩
  have hcount : [parsed.elf.sectionHeaders, parsed.elf.programHeaders,
      parsed.elf.stringsSection].count 0 = 0 := by
    refine List.count_eq_zero.mpr ?_
    simp [Ne.symm hs, Ne.symm hp, Ne.symm hstr]
  exact congrArg (st.refusals + ·) hcount

/-- **Room for a program** that has section names: what the call asks of the heap is there. -/
theorem buffers_of_room (hv : volume.Loaded) (hready : CallReady garbage st inode fatInode)
    (hentry : fatInode.fat16DirEntry = some entry)
    (hchain : FileChain volume.handle entry clusters)
    (helf : Elf64 (volume.file clusters) entry.filesizeBytes)
    (hnames : HasNames (volume.file clusters)) (hfree : st.heap.FreeFrom b)
    (hroom : b + allocBlocks entry.filesizeBytes + parserBlocks (volume.file clusters)
      + allocBlocks sizeofPagingManager ≤ 0x10000) :
    (st.kalloc entry.filesizeBytes).1 ≠ 0 ∧
    ∀ rounds initMem st₁, st.loadFile volume garbage rounds inode fatInode = .ok (initMem, st₁) →
      (programsBuffer st₁.heap (volume.file clusters)).1 ≠ 0 ∧
      ∀ elf st₂, st₁.parseElf initMem = .ok (elf, st₂) →
        (st₂.kalloc sizeofPagingManager).1 ≠ 0 := by
  have hlen : 64 ≤ entry.filesizeBytes := helf.header
  obtain ⟨hbuffer, hfree₁⟩ := hready.fs.heap.kalloc_room hfree
    (show entry.filesizeBytes ≠ 0 by omega) (by omega)
  refine ⟨hbuffer, fun rounds initMem st₁ hload => ?_⟩
  obtain ⟨hheap, hfree₂, -, hlive, -, hbytes⟩ :=
    loadFile_room hv hready hentry hchain hbuffer hfree₁ hload
  constructor
  · rw [parserBlocks] at hroom
    have hindex := hnames.index
    obtain ⟨-, hfree₃⟩ := hheap.kalloc_room hfree₂
      (Nat.ne_of_gt (Nat.mul_pos (by decide : 0 < sizeofShdr) (Nat.zero_lt_of_lt hindex)))
      (by omega)
    exact ((hheap.kalloc_inv _).kalloc_room hfree₃
      (Nat.ne_of_gt (Nat.mul_pos (by decide : 0 < sizeofPhdr) helf.phnum)) (by omega)).1
  · intro elf st₂ hparse
    obtain ⟨hheap₂, hfree₃, -⟩ :=
      parseElf_room helf hnames hheap hlive hbytes hfree₂ (by omega) hparse
    exact (hheap₂.kalloc_room hfree₃ (by decide) (by omega)).1

/-- With frames, tables and a slot for the job, all allocations of the call succeed. -/
theorem SpawnFits.of_room (hv : volume.Loaded) (hready : CallReady garbage st inode fatInode)
    (hentry : fatInode.fat16DirEntry = some entry)
    (hchain : FileChain volume.handle entry clusters)
    (helf : Elf64 (volume.file clusters) entry.filesizeBytes)
    (hnames : HasNames (volume.file clusters)) (hfree : st.heap.FreeFrom b)
    (hroom : b + allocBlocks entry.filesizeBytes + parserBlocks (volume.file clusters)
      + allocBlocks sizeofPagingManager ≤ 0x10000)
    (hspace : JobFits st.tables (pMemsz (volume.file clusters) (ePhoff (volume.file clusters)))
      st.mem)
    (hslot : ∃ k, k < st.table.jobSlab.maxStore ∧ st.table.jobSlab.used st.table.mem k = false) :
    SpawnFits volume garbage st inode fatInode (volume.file clusters) entry.filesizeBytes := by
  obtain ⟨hbuffer, hafter⟩ := buffers_of_room hv hready hentry hchain helf hnames hfree hroom
  exact ⟨hbuffer, fun rounds initMem st₁ hload => (hafter rounds initMem st₁ hload).1,
    fun rounds initMem st₁ elf st₂ hload => (hafter rounds initMem st₁ hload).2 elf st₂,
    hspace, hslot⟩

/-- And none of them is refused. -/
theorem jobCreateFromFile_refusals (hv : volume.Loaded)
    (hready : CallReady garbage st inode fatInode) (hentry : fatInode.fat16DirEntry = some entry)
    (hchain : FileChain volume.handle entry clusters)
    (helf : Elf64 (volume.file clusters) entry.filesizeBytes)
    (hnames : HasNames (volume.file clusters)) (hfree : st.heap.FreeFrom b)
    (hroom : b + allocBlocks entry.filesizeBytes + parserBlocks (volume.file clusters)
      + allocBlocks sizeofPagingManager ≤ 0x10000) {rounds name job : Nat} {st' : SystemState}
    (hres : jobCreateFromFile volume garbage rounds st inode fatInode name = .ok (job, st')) :
    st'.refusals = st.refusals := by
  have hlen : 64 ≤ entry.filesizeBytes := helf.header
  obtain ⟨hbuffer, hfree₁⟩ := hready.fs.heap.kalloc_room hfree
    (show entry.filesizeBytes ≠ 0 by omega) (by omega)
  obtain ⟨initMem, st₁, elf, st₂, pm, size, st₃, table, hload, hparse, hprogram, -, rfl⟩ :=
    jobCreateFromFile_ok hres
  obtain ⟨hheap, hfree₂, -, hlive, hrefuse₁, hbytes⟩ :=
    loadFile_room hv hready hentry hchain hbuffer hfree₁ hload
  obtain ⟨-, -, hrefuse₂⟩ := parseElf_room helf hnames hheap hlive hbytes hfree₂ (by omega) hparse
  obtain ⟨-, hpm, hpm0, _, _, _, _, _, -, -, -, rfl⟩ := loadProgram_ok hprogram
  have hrefuse₃ := SystemState.kalloc_refusals (hpm ▸ hpm0)
  exact hrefuse₃.trans (hrefuse₂.trans hrefuse₁)

/-- `elf_free` leaves the end of the heap free. -/
theorem elfFree_room {heap : HeapState} (h : KernelHeapInv heap) {elf : Elf} {a b c n : Nat}
    {x : Nat × Nat} {l : List (Nat × Nat)} (hlive : heap.live = x :: (elf.stringsSection, c) ::
      (elf.programHeaders, b) :: (elf.sectionHeaders, a) :: l) (hfree : heap.FreeFrom n) :
    (elfFree heap elf).FreeFrom n := by
  obtain ⟨hlive₁, h₁⟩ := h.kfree_append (l := [x, (elf.stringsSection, c), (elf.programHeaders, b)])
    hlive
  obtain ⟨hlive₂, h₂⟩ := h₁.kfree_append (l := [x, (elf.stringsSection, c)]) hlive₁
  have hfree₁ := h.kfree_room hfree (a := (elf.sectionHeaders, a)) (by rw [hlive]; simp)
  have hfree₂ := h₁.kfree_room hfree₁ (a := (elf.programHeaders, b)) (by rw [hlive₁]; simp)
  exact h₂.kfree_room hfree₂ (a := (elf.stringsSection, c)) (by rw [hlive₂]; simp)

/-- The end of the heap behind `job_create_from_file`. -/
theorem jobCreateFromFile_room (hv : volume.Loaded)
    (hready : CallReady garbage st inode fatInode) (hentry : fatInode.fat16DirEntry = some entry)
    (hchain : FileChain volume.handle entry clusters)
    (helf : Elf64 (volume.file clusters) entry.filesizeBytes)
    (hnames : HasNames (volume.file clusters)) (hfree : st.heap.FreeFrom b)
    (hroom : b + allocBlocks entry.filesizeBytes + parserBlocks (volume.file clusters)
      + allocBlocks sizeofPagingManager ≤ 0x10000) {rounds name job : Nat} {st' : SystemState}
    (hres : jobCreateFromFile volume garbage rounds st inode fatInode name = .ok (job, st')) :
    st'.heap.FreeFrom (b + allocBlocks entry.filesizeBytes + parserBlocks (volume.file clusters)
      + allocBlocks sizeofPagingManager) := by
  have hlen : 64 ≤ entry.filesizeBytes := helf.header
  obtain ⟨hbuffer, hfree₁⟩ := hready.fs.heap.kalloc_room hfree
    (show entry.filesizeBytes ≠ 0 by omega) (by omega)
  obtain ⟨initMem, st₁, elf, st₂, pm, size, st₃, table, hload, hparse, hprogram, -, rfl⟩ :=
    jobCreateFromFile_ok hres
  obtain ⟨hheap, hfree₂, -, hlive, -, hbytes⟩ :=
    loadFile_room hv hready hentry hchain hbuffer hfree₁ hload
  obtain ⟨hheap₂, hfree₃, hrefuse⟩ :=
    parseElf_room helf hnames hheap hlive hbytes hfree₂ (by omega) hparse
  obtain ⟨-, x, y, z, hlive₂⟩ := parseElf_heap hparse hheap hrefuse
  obtain ⟨-, hpm, hpm0, _, _, _, _, _, -, -, -, rfl⟩ := loadProgram_ok hprogram
  obtain ⟨-, hfree₄⟩ := hheap₂.kalloc_room hfree₃ (by decide) hroom
  have hlive₃ : (st₂.heap.kalloc sizeofPagingManager).2.live
      = (pm, sizeofPagingManager) :: st₂.heap.live := by
    rw [hpm]
    exact (HeapState.kalloc_live _ _).trans (if_neg (hpm ▸ hpm0))
  rw [hlive₂] at hlive₃
  exact elfFree_room (hheap₂.kalloc_inv _) hlive₃ hfree₄

end Room

/-! ## A kernel with a program on its disk -/

/-- A volume of eight sectors with one file, `A.B` of 188 bytes in cluster 2: an ELF header, a
    program header, a section header and a segment of four bytes.  `memsz` is the segment's
    `p_memsz`. -/
def programDisk (memsz : Byte) : Disk := fun x =>
  ([(12, 2), (13, 1), (14, 1), (16, 1), (17, 16), (19, 8), (22, 1), (516, 0xff), (517, 0xff),
    -- the directory entry
    (1024, 0x41), (1025, 0x20), (1026, 0x20), (1027, 0x20), (1028, 0x20), (1029, 0x20),
    (1030, 0x20), (1031, 0x20), (1032, 0x42), (1033, 0x20), (1034, 0x20), (1050, 2), (1052, 188),
    -- `e_entry`, `e_phoff`, `e_shoff` and the sizes of the tables
    (1536, 0x7f), (1563, 0x80), (1568, 64), (1576, 120), (1590, 56), (1592, 1), (1594, 64),
    (1596, 1),
    -- `p_type`, `p_offset`, `p_vaddr`, `p_filesz` and `p_memsz`
    (1600, 1), (1608, 184), (1619, 0x80), (1632, 4), (1640, memsz),
    -- `sh_offset` and `sh_size`, and the segment
    (1680, 184), (1688, 4), (1720, 1), (1721, 2), (1722, 3), (1723, 4)].lookup x).getD 0

/-- What `fat_load` finds on it. -/
@[irreducible] def programHandle (memsz : Byte) : FatHandle :=
  (fatLoad (programDisk memsz) (fun _ => 0) (fun _ => 0) (fun _ => 0)).toOption.getD
    ⟨⟨0, 0, 0, 0, 0, 0, 0, 0⟩, 0, 0, 0, fun _ => 0, 0, 0, fun _ => 0, 0⟩

/-- The disk with what `fat_load` has read of it. -/
def programVolume (memsz : Byte) : Volume := ⟨programDisk memsz, programHandle memsz⟩

/-- The bytes of the file, and where they are on the disk. -/
def programFile (memsz : Byte) : Mem := (programVolume memsz).file [2]

def programBytes (memsz : Byte) : Mem := fun i =>
  programDisk memsz (1536 + 512 * ([2].getD (i / 512) 0 - 2) + i % 512)

/-- A volume with the layout of these disks, as `fat_load` finds it: clusters of one sector from
    1536 on, and the file `A.B` of 188 bytes in cluster 2. -/
structure ProgramLayout (volume : Volume) : Prop where
  load : fatLoad volume.disk (fun _ => 0) (fun _ => 0) (fun _ => 0) = .ok volume.handle
  size : fatGetClusterSize volume.handle = 512
  data : volume.handle.dataOffset = 1536
  fat : volume.handle.fatAt 2 = 0xffff
  found : (fatGetEntryByFile volume.handle [] [] [0x61] [0x62]).map volume.handle.entryAt
    = some ⟨2, 188⟩

namespace ProgramLayout

variable {volume : Volume}

/-- The kernel's handle is the one that `fat_load` makes. -/
theorem loaded (h : ProgramLayout volume) : volume.Loaded :=
  ⟨⟨_, _, _, h.load⟩, by rw [h.size]; decide, by rw [h.size]⟩

/-- The file is one cluster long. -/
theorem chain (h : ProgramLayout volume) : FileChain volume.handle ⟨2, 188⟩ [2] := by
  refine ⟨by decide, ⟨rfl, by decide, by decide, h.fat⟩, ?_⟩
  rw [h.size]
  rfl

/-- Its bytes start at sector 3. -/
theorem file_eq (h : ProgramLayout volume) : volume.file [2] = fun i =>
    volume.disk (1536 + 512 * ([2].getD (i / 512) 0 - 2) + i % 512) := by
  funext i
  rw [Volume.file, chainByte, FatHandle.clusterOffset, h.data, h.size]

end ProgramLayout

/-- What `fat_load` finds, if it finds something. -/
theorem fatLoad_getD {disk : Disk} {default : FatHandle}
    (hok : (fatLoad disk (fun _ => 0) (fun _ => 0) (fun _ => 0)).isOk = true) :
    fatLoad disk (fun _ => 0) (fun _ => 0) (fun _ => 0)
      = .ok ((fatLoad disk (fun _ => 0) (fun _ => 0) (fun _ => 0)).toOption.getD default) := by
  cases hres : fatLoad disk (fun _ => 0) (fun _ => 0) (fun _ => 0) with
  | ok h => rfl
  | error e =>
    rw [hres] at hok
    cases hok

/-- What an evaluation of `fat_load` and of the handle has to show of the disk, .. -/
abbrev LayoutChecks (disk : Disk) (handle : FatHandle) : Prop :=
  (fatLoad disk (fun _ => 0) (fun _ => 0) (fun _ => 0)).isOk = true ∧
  fatGetClusterSize handle = 512 ∧ handle.dataOffset = 1536 ∧ handle.fatAt 2 = 0xffff ∧
  (fatGetEntryByFile handle [] [] [0x61] [0x62]).map handle.entryAt = some ⟨2, 188⟩

/-- .. and one of the bytes of the file, for its tables. -/
abbrev TableChecks (bytes : Mem) : Prop :=
  bytes 0 = elfMagicNumber ∧ 0 < ePhnum bytes ∧ ePhentsize bytes = sizeofPhdr ∧
  ePhoff bytes + sizeofPhdr * ePhnum bytes ≤ 188 ∧
  (eShentsize bytes = sizeofShdr ∧ eShoff bytes + sizeofShdr * eShnum bytes ≤ 188) ∧
  shOffset bytes (eShoff bytes + sizeofShdr * eShstrndx bytes)
    + shSize bytes (eShoff bytes + sizeofShdr * eShstrndx bytes) ≤ 188

theorem LayoutChecks.layout {disk : Disk} {handle : FatHandle} (h : LayoutChecks disk handle)
    (hhandle : (fatLoad disk (fun _ => 0) (fun _ => 0) (fun _ => 0)).isOk = true →
      fatLoad disk (fun _ => 0) (fun _ => 0) (fun _ => 0) = .ok handle) :
    ProgramLayout ⟨disk, handle⟩ := by
  obtain ⟨hok, hsize, hoffset, hlast, hfound⟩ := h
  exact ⟨hhandle hok, hsize, hoffset, hlast, hfound⟩

theorem TableChecks.elf64 {bytes : Mem} (h : TableChecks bytes) : Elf64 bytes 188 := by
  obtain ⟨h1, h2, h3, h4, h5, h6⟩ := h
  exact ⟨by decide, h1, h2, h3, h4, fun _ => h5, fun _ => h6⟩

/-- A program without and one with zero-initialised data. -/
def programSizes : List Byte := [4, 8]

/-- All that is asked of the volume and of the file, evaluated at once. -/
theorem programVolume_checks : ∀ memsz ∈ programSizes,
    LayoutChecks (programDisk memsz) (programHandle memsz) ∧ TableChecks (programBytes memsz) ∧
    -- the segment
    (pType (programBytes memsz) (ePhoff (programBytes memsz)) = ptLoad ∧
      pVaddr (programBytes memsz) (ePhoff (programBytes memsz)) = jobBaseUser ∧
      pFilesz (programBytes memsz) (ePhoff (programBytes memsz))
        ≤ pMemsz (programBytes memsz) (ePhoff (programBytes memsz)) ∧
      pMemsz (programBytes memsz) (ePhoff (programBytes memsz)) = memsz.toNat ∧
      pOffset (programBytes memsz) (ePhoff (programBytes memsz))
        + pFilesz (programBytes memsz) (ePhoff (programBytes memsz)) ≤ 188) ∧
    -- the names
    (eShstrndx (programBytes memsz) < eShnum (programBytes memsz) ∧
      namesSize (programBytes memsz) ≠ 0) ∧
    -- what it takes to load it
    (allocBlocks 188 + parserBlocks (programBytes memsz) + allocBlocks sizeofPagingManager ≤ 0x1000 ∧
      jobPages (pMemsz (programBytes memsz) (ePhoff (programBytes memsz))) = 2) := by
  decide +kernel

/-- The volume is laid out as its header says. -/
theorem programVolume_layout : ∀ memsz ∈ programSizes, ProgramLayout (programVolume memsz) := by
  intro memsz hm
  refine (programVolume_checks memsz hm).1.layout fun hok => ?_
  unfold programHandle
  exact fatLoad_getD hok

theorem programFile_eq : ∀ memsz ∈ programSizes, programFile memsz = programBytes memsz :=
  fun memsz hm => (programVolume_layout memsz hm).file_eq

theorem programVolume_loaded : ∀ memsz ∈ programSizes, (programVolume memsz).Loaded :=
  fun memsz hm => (programVolume_layout memsz hm).loaded

theorem programVolume_chain :
    ∀ memsz ∈ programSizes, FileChain (programVolume memsz).handle ⟨2, 188⟩ [2] :=
  fun memsz hm => (programVolume_layout memsz hm).chain

/-- The file is an ELF64 file whose tables lie inside of it, .. -/
theorem programFile_elf64 : ∀ memsz ∈ programSizes, Elf64 (programFile memsz) 188 := by
  intro memsz hm
  rw [programFile_eq memsz hm]
  exact (programVolume_checks memsz hm).2.1.elf64

/-- .. with a segment that is to be loaded at `JOB_BASE_USER`, .. -/
theorem programFile_segment : ∀ memsz ∈ programSizes, LoadSegment (programFile memsz) 188 := by
  intro memsz hm
  rw [programFile_eq memsz hm]
  obtain ⟨h1, h2, h3, h4, h5⟩ := (programVolume_checks memsz hm).2.2.1
  have hsmall := memsz.isLt
  exact ⟨h1, h2, h3, by omega, h5⟩

/-- .. and with section names. -/
theorem programFile_names : ∀ memsz ∈ programSizes, HasNames (programFile memsz) := by
  intro memsz hm
  rw [programFile_eq memsz hm]
  obtain ⟨h1, h2⟩ := (programVolume_checks memsz hm).2.2.2.1
  exact ⟨h1, h2⟩

/-- It needs a few blocks of the heap and two pages. -/
theorem programFile_room : ∀ memsz ∈ programSizes,
    allocBlocks 188 + parserBlocks (programFile memsz) + allocBlocks sizeofPagingManager ≤ 0x1000 ∧
    jobPages (pMemsz (programFile memsz) (ePhoff (programFile memsz))) = 2 := by
  intro memsz hm
  rw [programFile_eq memsz hm]
  exact (programVolume_checks memsz hm).2.2.2.2

/-- So it fits on the heap behind the slabs of the boot. -/
theorem programFile_fits : ∀ memsz ∈ programSizes,
    4112 + allocBlocks 188 + parserBlocks (programFile memsz) + allocBlocks sizeofPagingManager
      ≤ 0x10000 := by
  intro memsz hm
  have hblocks := (programFile_room memsz hm).1
  omega

/-- A heap on which the boot has put the inode, job and table slabs.  The blocks behind them are
    free. -/
structure BootHeap (heap : HeapState) (inodes jobs tables : Nat) : Prop where
  reach : kernelHeapMachine.Reach heap
  free : heap.FreeFrom 4111
  inodes_live : (inodes, slabGetNeededSize sizeofInode fsInodeMax) ∈ heap.live
  jobs_live : (jobs, slabGetNeededSize jobStructSize maxJobs) ∈ heap.live
  tables_live : (tables, slabGetNeededSize sizeofPageTable pagingMaxTables) ∈ heap.live

/-- There is one, when memory was clear. -/
theorem bootHeap_exists : ∃ heap inodes jobs tables, BootHeap heap inodes jobs tables := by
  have h₀ : kernelHeapMachine.Reach ⟨kernelHeap, fun _ => 0, []⟩ :=
    .start ⟨⟨_, setupHeap_clear⟩, rfl⟩
  have hclear : (⟨kernelHeap, fun _ => 0, []⟩ : HeapState).FreeFrom 0 :=
    fun _ _ _ => not_taken_zero
  have hstep : ∀ {heap : HeapState} {b size : Nat}, kernelHeapMachine.Reach heap →
      heap.FreeFrom b → size ≠ 0 → b + allocBlocks size ≤ 0x10000 →
      (heap.kalloc size).1 ≠ 0 ∧ kernelHeapMachine.Reach (heap.kalloc size).2 ∧
        (heap.kalloc size).2.FreeFrom (b + allocBlocks size) := by
    intro heap b size hr hfree hsize hroom
    obtain ⟨hp, hfree'⟩ := (KernelHeapInv.reach hr).kalloc_room hfree hsize hroom
    exact ⟨hp, hr.step (e := .alloc size) (heap.kalloc_step size), hfree'⟩
  have hneeded : slabGetNeededSize sizeofInode fsInodeMax ≠ 0 ∧
      slabGetNeededSize jobStructSize maxJobs ≠ 0 ∧
      slabGetNeededSize sizeofPageTable pagingMaxTables ≠ 0 := by
    decide +kernel
  have hblocks : 0 + allocBlocks (slabGetNeededSize sizeofInode fsInodeMax)
      + allocBlocks (slabGetNeededSize jobStructSize maxJobs)
      + allocBlocks (slabGetNeededSize sizeofPageTable pagingMaxTables) = 4111 := by
    decide +kernel
  obtain ⟨hp₁, hr₁, hfree₁⟩ := hstep h₀ hclear hneeded.1 (by omega)
  obtain ⟨hp₂, hr₂, hfree₂⟩ := hstep hr₁ hfree₁ hneeded.2.1 (by omega)
  obtain ⟨hp₃, hr₃, hfree₃⟩ := hstep hr₂ hfree₂ hneeded.2.2 (by omega)
  rw [hblocks] at hfree₃
  exact ⟨_, _, _, _, hr₃, hfree₃,
    HeapState.mem_kalloc_live (HeapState.mem_kalloc_live (HeapState.kalloc_mem hp₁) _) _,
    HeapState.mem_kalloc_live (HeapState.kalloc_mem hp₂) _, HeapState.kalloc_mem hp₃⟩

/-- The kernel when `start` calls `usermode`, with clear memory. -/
def bootedSystem (heap : HeapState) (inodes jobs tables : Nat) : SystemState where
  fs :=
    { zone := inodes
      slabMem := (slabCreate sizeofInode fsInodeMax inodes fun _ => 0).2
      inodes := fun _ => ⟨0, fun _ => .null, fun _ => false⟩
      heap := heap
      opened := [] }
  mem := fun _ => 0
  tables := createdSlab sizeofPageTable pagingMaxTables tables
  managers := fun _ => ⟨0, createdSlab sizeofPageTable pagingMaxTables tables⟩
  table :=
    { jobSlab := (jobInitSlab maxJobs jobs fun _ => 0).1
      mem := (jobInitSlab maxJobs jobs fun _ => 0).2
      jobs := fun _ => ⟨fun _ => 0, .running, fun _ => 0, 0, 0, 0, fun _ => 0, 0, 0⟩
      currentJob := 0
      log := [] }
  currentPagingManager := 0
  ttbr0 := 0
  refusals := 0
  fileReads := []

/-- The uninitialised memory of the filesystem code, when it is clear. -/
def noGarbage : Garbage := ⟨[], [], fun _ => 0, fun _ _ => 0⟩

/-- The string `a.b`. -/
def programName : Mem := fun i => [0x61, 0x2e, 0x62].getD i 0

section Booted

variable {heap : HeapState} {inodes jobs tables : Nat}

/-- The kernel on such a heap is one that the boot can leave. -/
theorem BootHeap.booted (h : BootHeap heap inodes jobs tables) :
    SystemBooted (bootedSystem heap inodes jobs tables) where
  fs := ⟨h.reach, h.inodes_live, ⟨_, rfl⟩, rfl⟩
  jobs := ⟨_, h.jobs_live, ⟨_, Prod.mk.eta, rfl, rfl⟩⟩
  tables := ⟨_, h.tables_live, rfl⟩

/-- There are an inode and room for its data. -/
theorem BootHeap.inode_room (h : BootHeap heap inodes jobs tables) :
    (bootedSystem heap inodes jobs tables).fs.HasSlot ∧ (heap.kalloc sizeofFatInode).1 ≠ 0 := by
  exact ⟨(InodeInv.start h.booted.fs).hasSlot (show 0 < fsInodeMax by decide), ((KernelHeapInv.reach h.reach).kalloc_room
    h.free (show sizeofFatInode ≠ 0 by decide) (by decide)).1⟩

/-- The kernel opens a file of its root directory: it is ready for `job_create_from_file`. -/
theorem BootHeap.openedFile (h : BootHeap heap inodes jobs tables) {volume : Volume}
    {entry : Fat16DirEntry} (hfound : (fatGetEntryByFile volume.handle [] [] [0x61] [0x62]).map
      volume.handle.entryAt = some entry) : ∃ inode st,
    (bootedSystem heap inodes jobs tables).fatfsOpen volume noGarbage programName
      = .ok (inode, fatfsInode (some entry) (fun _ => 0), st) ∧
    st.heap.FreeFrom 4112 ∧ st.mem = (fun _ => 0) ∧
    st.tables = (bootedSystem heap inodes jobs tables).tables ∧
    st.table = (bootedSystem heap inodes jobs tables).table ∧ st.refusals = 0 := by
  have hsplit : fatfsSplit programName 0 = .ok ([0x61], [0x62]) := by rfl
  obtain ⟨-, hfree⟩ := (KernelHeapInv.reach h.reach).kalloc_room h.free
    (show sizeofFatInode ≠ 0 by decide) (by decide)
  obtain ⟨fs, hopen⟩ := fatfsOpen_returns_iff.mpr h.inode_room
  refine ⟨(fs.opened.head?.map (·.inode)).getD 0,
    { bootedSystem heap inodes jobs tables with fs := fs }, ?_, ?_, rfl, rfl, rfl, rfl⟩
  · rw [SystemState.fatfsOpen, hopen, ok_bind, hsplit, ok_bind]
    show Except.ok (_, fatfsInode ((fatGetEntryByFile volume.handle [] [] [0x61]
      [0x62]).map volume.handle.entryAt) _, _) = _
    rw [hfound]
    rfl
  · obtain ⟨_, _, _, heap', _, -, hkalloc, -, -, -, rfl⟩ := fatfsOpen_ok hopen
    have hsame : heap' = (heap.kalloc sizeofFatInode).2 := (congrArg Prod.snd hkalloc).symm
    show heap'.FreeFrom 4112
    rw [hsame]
    exact hfree

/-- The program's file is one of them. -/
theorem BootHeap.opened (h : BootHeap heap inodes jobs tables) : ∀ memsz ∈ programSizes, ∃ inode st,
    (bootedSystem heap inodes jobs tables).fatfsOpen (programVolume memsz) noGarbage programName
      = .ok (inode, fatfsInode (some ⟨2, 188⟩) (fun _ => 0), st) ∧
    st.heap.FreeFrom 4112 ∧ st.mem = (fun _ => 0) ∧
    st.tables = (bootedSystem heap inodes jobs tables).tables ∧
    st.table = (bootedSystem heap inodes jobs tables).table ∧ st.refusals = 0 := by
  exact fun memsz hm => h.openedFile (programVolume_layout memsz hm).found

/-- There is room for it. -/
theorem BootHeap.fits (h : BootHeap heap inodes jobs tables) {memsz : Byte}
    (hm : memsz ∈ programSizes) {inode : Nat} {st : SystemState}
    (hready : CallReady noGarbage st inode (fatfsInode (some ⟨2, 188⟩) fun _ => 0))
    (hfree : st.heap.FreeFrom 4112) (hmem : st.mem = fun _ => 0)
    (htables : st.tables = (bootedSystem heap inodes jobs tables).tables)
    (htable : st.table = (bootedSystem heap inodes jobs tables).table) :
    SpawnFits (programVolume memsz) noGarbage st inode (fatfsInode (some ⟨2, 188⟩) fun _ => 0)
      (programFile memsz) 188 := by
  have hbits : ∀ s : Slab, s.freeSlots (fun _ => 0) = s.maxStore := fun s =>
    s.freeSlots_of_clear (fun k _ => by simp [Slab.used, bitAt])
  have hpages := (programFile_room memsz hm).2
  have hentry : (fatfsInode (some ⟨2, 188⟩) fun _ => 0).fat16DirEntry = some ⟨2, 188⟩ := rfl
  refine SpawnFits.of_room (programVolume_loaded memsz hm) hready hentry
    (programVolume_chain memsz hm) (programFile_elf64 memsz hm)
    (programFile_names memsz hm) hfree (programFile_fits memsz hm) ?_ ?_
  · refine ⟨Int.natCast_nonneg _, ?_, ?_⟩
    · rw [hmem, hbits]
      exact Nat.le_trans (Nat.le_of_eq hpages) (by decide)
    · rw [hmem, hbits, htables]
      have hmax : (bootedSystem heap inodes jobs tables).tables.maxStore = 4096 := rfl
      rw [hmax, jobTables]
      show 2 + (jobPages (pMemsz (programFile memsz) (ePhoff (programFile memsz))) + 511) / 512 ≤ 4096
      omega
  · obtain ⟨zone, hzone, hjobs⟩ := h.booted.jobs
    have hin := ((KernelHeapInv.reach h.reach).inside hzone).2
    have hp : (jobSlabOf maxJobs zone).Placed :=
      slabCreate_placed (fun _ => 0) (by decide) (by decide) jobSlab_checks.1
        (Nat.le_trans hin (by decide))
    have hinv := JobInv.start hp hjobs
    have hmax : 0 < (jobSlabOf maxJobs zone).maxStore := (by decide : 0 < 128)
    rw [htable, hinv.slab]
    exact ⟨0, hmax, Bool.eq_false_iff.mpr fun hused =>
      absurd ((hinv.slots.bits 0 hmax).mp hused) List.not_mem_nil⟩

end Booted

/-- A kernel with room for one more such program: no inode is open, the upper half of the heap is
    free, and there are frames for the page and the stack, tables for them and a slot for the job. -/
structure ProgramRoom (st : SystemState) : Prop where
  opened : st.fs.opened = []
  free : st.heap.FreeFrom 0x8000
  frames : 2 ≤ userSpace.freeSlots st.mem
  tables : 3 ≤ st.tables.freeSlots st.mem
  slot : ∃ k, k < st.table.jobSlab.maxStore ∧ st.table.jobSlab.used st.table.mem k = false

/-- **Spawning the program** from a running kernel: the name is copied, the file opened, and the
    call that makes the job finds all that it asks for. -/
theorem ProgramRoom.spawn {st : SystemState} (h : ProgramRoom st)
    (hr : (systemMachine (programVolume 4)).Reach st) (hcur : st.table.currentJob ≠ 0) :
    ∃ st', SystemStep (programVolume 4) st (.spawn noGarbage [0x61, 0x2e, 0x62]) st' := by
  have hm : (4 : Byte) ∈ programSizes := by decide
  obtain ⟨s, order, hinv, -⟩ := SystemGood.reach hr
  -- the copy of the name
  obtain ⟨hgranted, hfree₁⟩ := hinv.fs.heap.kalloc_room h.free (show 4 ≠ 0 by decide) (by decide)
  have hcopy : (st.kalloc (([0x61, 0x2e, 0x62] : List Byte).length + 1)).1 ≠ 0 := hgranted
  have hbytes : ∀ i, i ≤ 3 → ([0x61, 0x2e, 0x62, 0] : List Byte)[i]?
      = some (([0x61, 0x2e, 0x62] : List Byte).getD i 0) := by
    decide
  have hname : CStringAt (fun i => (st.withName [0x61, 0x2e, 0x62]).mem ((st.kalloc 4).1 + i)) 0
      ([0x61] ++ 0x2e :: [0x62]) := by
    refine ⟨by decide, fun i hi => ?_⟩
    have hle : i ≤ 3 := hi
    show storeBytes st.mem (st.kalloc 4).1 [0x61, 0x2e, 0x62, 0] ((st.kalloc 4).1 + (0 + i)) = _
    rw [Nat.zero_add]
    exact storeBytes_get (hbytes i hle)
  have hsplit := fatfsSplit_eq (by decide) hname
  rw [if_pos ⟨by decide, by decide⟩] at hsplit
  -- the inode
  have hnamed : InodeInv (st.withName [0x61, 0x2e, 0x62]).fs := hinv.fs.kalloc _
  obtain ⟨hdata, hfree₂⟩ := hnamed.heap.kalloc_room hfree₁
    (show sizeofFatInode ≠ 0 by decide) (by decide)
  have hfew : (st.withName [0x61, 0x2e, 0x62]).fs.opened.length < fsInodeMax := by
    rw [show (st.withName [0x61, 0x2e, 0x62]).fs.opened = [] from h.opened]
    decide
  obtain ⟨fs, hinode⟩ := fatfsOpen_returns_iff.mpr ⟨hnamed.hasSlot hfew, hdata⟩
  have hopen : (st.withName [0x61, 0x2e, 0x62]).fatfsOpen (programVolume 4) noGarbage
      (fun i => (st.withName [0x61, 0x2e, 0x62]).mem ((st.kalloc 4).1 + i))
      = .ok ((fs.opened.head?.map (·.inode)).getD 0, fatfsInode (some ⟨2, 188⟩) (fun _ => 0),
        { st.withName [0x61, 0x2e, 0x62] with fs := fs }) := by
    rw [SystemState.fatfsOpen, hinode, ok_bind, hsplit, ok_bind]
    show Except.ok (_, fatfsInode ((fatGetEntryByFile (programVolume 4).handle [] [] [0x61]
      [0x62]).map (programVolume 4).handle.entryAt) _, _) = _
    rw [(programVolume_layout 4 hm).found]
    rfl
  have hfree₃ : fs.heap.FreeFrom 0x8002 := by
    obtain ⟨_, _, _, heap', _, -, hkalloc, -, -, -, rfl⟩ := fatfsOpen_ok hinode
    have hsame : heap' = ((st.withName [0x61, 0x2e, 0x62]).heap.kalloc sizeofFatInode).2 :=
      (congrArg Prod.snd hkalloc).symm
    show heap'.FreeFrom 0x8002
    rw [hsame]
    exact hfree₂
  -- the job
  have hready := (JobCreateCall.spawn hr hcopy hopen).ready
  obtain ⟨role, spaces, hspaces⟩ := hinv.spaces
  have hspace : JobFits st.tables (pMemsz (programFile 4) (ePhoff (programFile 4)))
      (st.withName [0x61, 0x2e, 0x62]).mem := by
    obtain ⟨hframes, htables⟩ := withName_freeSlots hinv.fs hspaces hcopy
    refine ⟨Int.natCast_nonneg _, ?_, ?_⟩
    · rw [hframes, (programFile_room 4 hm).2]
      exact h.frames
    · rw [htables, (programFile_room 4 hm).2]
      exact h.tables
  have hblocks : 0x8002 + allocBlocks 188 + parserBlocks (programFile 4)
      + allocBlocks sizeofPagingManager ≤ 0x10000 := by
    have hblocks := (programFile_room 4 hm).1
    omega
  have hfit : SpawnFits (programVolume 4) noGarbage { st.withName [0x61, 0x2e, 0x62] with fs := fs }
      _ _ (programFile 4) 188 :=
    SpawnFits.of_room (programVolume_loaded 4 hm) hready rfl (programVolume_chain 4 hm)
      (programFile_elf64 4 hm) (programFile_names 4 hm) hfree₃ hblocks hspace h.slot
  obtain ⟨job, st', reads, hret, -⟩ := jobCreateFromFile_image (programVolume_loaded 4 hm)
    hready rfl (programVolume_chain 4 hm) (programFile_elf64 4 hm) (programFile_segment 4 hm)
    hfit (st.kalloc 4).1
  have hnone := jobCreateFromFile_refusals (programVolume_loaded 4 hm) hready rfl
    (programVolume_chain 4 hm) (programFile_elf64 4 hm) (programFile_names 4 hm) hfree₃ hblocks
    (hret 189 (Nat.le_refl _))
  have hnone' : (st.withName [0x61, 0x2e, 0x62]).refusals = st.refusals :=
    SystemState.kalloc_refusals hcopy
  refine ⟨st'.kfree (st.kalloc 4).1, hcur, ⟨189, fun rounds hrounds => ?_⟩, hnone.trans hnone'⟩
  exact exceptionsInternalSpawn_of_parts hcopy hopen (hret rounds hrounds)

/-- The kernel starts the program. -/
theorem programVolume_starts : ∃ st st', SystemBooted st ∧
    SystemStep (programVolume 4) st (.usermode noGarbage programName 0) st' := by
  have hm : (4 : Byte) ∈ programSizes := by decide
  obtain ⟨heap, inodes, jobs, tables, hboot⟩ := bootHeap_exists
  obtain ⟨inode, st, hopen, hfree, hmem, htables, htable, hrefuse⟩ := hboot.opened 4 hm
  have hcall : JobCreateCall (programVolume 4) noGarbage st inode _ 0 :=
    .usermode (.start hboot.booted) hopen
  obtain ⟨job, st', reads, hret, -⟩ := jobCreateFromFile_image (programVolume_loaded 4 hm)
    hcall.ready rfl (programVolume_chain 4 hm) (programFile_elf64 4 hm) (programFile_segment 4 hm)
    (hboot.fits hm hcall.ready hfree hmem htables htable) 0
  have hnone : st'.refusals = st.refusals := jobCreateFromFile_refusals (programVolume_loaded 4 hm)
    hcall.ready rfl (programVolume_chain 4 hm) (programFile_elf64 4 hm) (programFile_names 4 hm)
    hfree (programFile_fits 4 hm) (hret 189 (Nat.le_refl _))
  refine ⟨bootedSystem heap inodes jobs tables,
    (st'.pagingManagerApply (st'.table.jobs st'.table.currentJob).paging).2, hboot.booted, ?_⟩
  refine ⟨rfl, ⟨189, fun rounds hrounds => ?_⟩, hnone.trans hrefuse⟩
  show usermode _ _ _ _ _ _ = _
  unfold usermode
  rw [hopen, ok_bind]
  simp only [hret rounds hrounds, ok_bind]
  rfl

end TinyKernel
