/-
  The program that a new job sees.

  `job_create_from_file` copies `p_memsz` bytes from the file's buffer to `JOB_BASE_USER`, where the
  ELF header asks for `p_filesz` bytes and zeroes behind them.  So the copy is right exactly if the
  file happens to have these zeroes: when `p_offset + p_memsz` is beyond the end of the file the
  copy reads what lies behind the buffer, and when the bytes behind the segment are those of another
  section the program starts with them as its zero-initialised data.

  The way from the disk to the new address space is followed part by part:

  * `loadFile_spec`    — the buffer holds the bytes of the file's clusters;
  * `Elf64.parse`      — program header 0 is the file's;
  * `loadProgram_spec` — the frames of the new address space hold what the copy read;
  * `jobCreateFromFile_image` puts them together.
-/
import TinyKernel.Mp.System

namespace TinyKernel

/-! ## The file -/

section File

variable {volume : Volume} {garbage : Garbage} {entry : Fat16DirEntry} {clusters : List Nat}

/-- A volume as `fat_load` leaves it, with clusters of whole sectors. -/
structure Volume.Loaded (volume : Volume) : Prop where
  load : ∃ handleMem fatMem entriesMem,
    fatLoad volume.disk handleMem fatMem entriesMem = .ok volume.handle
  cluster_pos : 0 < fatGetClusterSize volume.handle
  sectors : 512 ∣ fatGetClusterSize volume.handle

/-- The bytes of a file, from its clusters. -/
def Volume.file (volume : Volume) (clusters : List Nat) : Mem :=
  chainByte volume.disk volume.handle clusters

/-- The loop over `fs_inode_get` delivers the rest of the file, in a round more than bytes are
    left.  The induction is on the bytes left. -/
theorem fatfsGetAll_file (hv : volume.Loaded) (hchain : FileChain volume.handle entry clusters)
    {rounds : Nat} (hrounds : 1 ≤ rounds) : ∀ {left fuel n : Nat} {f : FatFile},
    ReadsFile volume.disk volume.handle entry clusters f →
    f.reads.length + left = entry.filesizeBytes → left < fuel →
    fatfsGetAll volume garbage rounds fuel n f.inode
      = .ok ((List.range' f.reads.length left).map (volume.file clusters))
  | _, 0, _, _, _, _, hfuel => absurd hfuel (Nat.not_lt_zero _)
  | 0, fuel + 1, n, f, hread, hleft, _ => by
    rw [fatfsGetAll, hread.get_end hchain hleft]
    rfl
  | left + 1, fuel + 1, n, f, hread, hleft, hfuel => by
    obtain ⟨handleMem, fatMem, entriesMem, hload⟩ := hv.load
    obtain ⟨inode, hget, hread'⟩ := hread.get_next (fatLoad_sane hload) hv.cluster_pos hv.sectors
      hchain (by omega) (garbage.scratch n)
    have ih := fatfsGetAll_file hv hchain hrounds (n := n + 1) hread'
      (by rw [List.length_append, List.length_singleton]; omega) (Nat.lt_of_succ_lt_succ hfuel)
    rw [List.length_append, List.length_singleton] at ih
    rw [fatfsGetAll, hget rounds hrounds, ok_bind]
    simp only
    rw [ih]
    rfl

/-- The whole file. -/
theorem fatfsGetAll_opened (hv : volume.Loaded) (hchain : FileChain volume.handle entry clusters)
    {rounds : Nat} (hrounds : entry.filesizeBytes < rounds) (buffer : Mem) :
    fatfsGetAll volume garbage rounds rounds 0 (fatfsInode (some entry) buffer)
      = .ok ((List.range entry.filesizeBytes).map (volume.file clusters)) := by
  have hopened := ReadsFile.opened volume.disk volume.handle entry clusters buffer
  rw [List.range_eq_range']
  exact fatfsGetAll_file hv hchain (by omega : 1 ≤ rounds) hopened (Nat.zero_add _) hrounds

/-- **Reading the file** into a buffer that the heap has room for: the buffer holds the file. -/
theorem loadFile_spec {st : SystemState} (hv : volume.Loaded)
    (hchain : FileChain volume.handle entry clusters) (h : InodeInv st.fs) {l : OpenedInode}
    (hl : l ∈ st.fs.opened) (hroom : (st.kalloc entry.filesizeBytes).1 ≠ 0) (buffer : Mem) :
    ∃ st₁, (∀ rounds, entry.filesizeBytes < rounds →
        st.loadFile volume garbage rounds l.inode (fatfsInode (some entry) buffer)
          = .ok ((st.kalloc entry.filesizeBytes).1, st₁)) ∧
      ((st.kalloc entry.filesizeBytes).1, entry.filesizeBytes) ∈ st₁.heap.live ∧
      ∀ i, i < entry.filesizeBytes →
        st₁.mem ((st.kalloc entry.filesizeBytes).1 + i) = volume.file clusters i := by
  have hsmall := hchain.size
  have hopen : InodeInv (st.kalloc entry.filesizeBytes).2.fs := h.kalloc _
  have hleft : fatfsLeft (fatfsInode (some entry) buffer) = .ok (entry.filesizeBytes : Int) := by
    show Except.ok (toInt32 ((entry.filesizeBytes : Int) - 0)) = _
    rw [toInt32_of_range (by omega) (by omega), Int.sub_zero]
  have hsize : toSize (entry.filesizeBytes : Int) = entry.filesizeBytes := toSize_natCast (by omega)
  obtain ⟨fs, hclose⟩ := hopen.close_returns hl
  refine ⟨{ (st.kalloc entry.filesizeBytes).2 with
    mem := storeBytes st.mem (st.kalloc entry.filesizeBytes).1
      ((List.range entry.filesizeBytes).map (volume.file clusters)), fs := fs }, ?_, ?_, ?_⟩
  · intro rounds hrounds
    rw [SystemState.loadFile, hleft, ok_bind]
    simp only [hsize]
    rw [fatfsGetAll_opened hv hchain hrounds, ok_bind, if_neg fun hnull => hroom hnull.1]
    show (InodeState.closeInode (st.kalloc entry.filesizeBytes).2.fs l.inode >>= _) = _
    rw [hclose, ok_bind]
    rfl
  · obtain ⟨r, mem, -, rfl⟩ := closeInode_ok hclose
    -- the inode's data is given back, and the buffer is not that
    have hnew : l.implInode ≠ (st.kalloc entry.filesizeBytes).1 :=
      h.heap.kalloc_fresh hroom _ (h.data l hl)
    show _ ∈ (HeapState.kfree (st.heap.kalloc entry.filesizeBytes).2
      (st.fs.inodes l.inode).implInode).live
    rw [h.implInode l hl]
    exact List.mem_filter.mpr ⟨HeapState.kalloc_mem hroom, decide_eq_true (Ne.symm hnew)⟩
  · intro i hi
    refine storeBytes_get ?_
    rw [List.getElem?_map, List.getElem?_range hi]
    rfl

end File

/-! ## The segment -/

section Segment

variable {m : Mem} {manager : PagingManager} {frames : List Nat} {buffer : Nat} {read : FileRead}
  {dest src : Nat → Nat}

/-- What the copy leaves in the frames of the new address space. -/
theorem DumpPlaces.apply (hplaces : DumpPlaces m manager.l1 buffer read dest src)
    (h : JobSpace m manager frames) (hfs : ∀ k ∈ frames, k < 0x1000)
    (hlen : frames.length ≤ 0x1000) (hnodup : frames.Nodup)
    (hsrc : buffer + read.offset + read.bytes ≤ 0x80000000) {i : Nat} (hi : i < read.bytes) :
    ∃ k, frames[i / 0x1000]? = some k ∧
      copyBytes dest src read.bytes m (0x80000000 + 0x1000 * k + i % 0x1000)
        = m (buffer + read.offset + i) := by
  obtain ⟨hbytes, -⟩ := hplaces.frames h hfs hlen
  have hdest : ∀ i, i < read.bytes → ∃ k, frames[i / 0x1000]? = some k ∧
      dest i = 0x80000000 + 0x1000 * k + i % 0x1000 := by
    intro i hi
    have hmap := (hplaces i hi).1
    rw [toSize_natCast (by rw [jobBaseUser]; omega)] at hmap
    obtain ⟨tr, htr, hpa⟩ := Option.map_eq_some_iff.mp hmap
    obtain ⟨j, k, hk, hpage, rfl⟩ := h.translate_above hfs hlen (Nat.le_add_right _ _) htr
    rw [jobBaseUser] at hpage hpa
    simp only at hpa
    refine ⟨k, ?_, by omega⟩
    rw [show i / 0x1000 = j by omega]
    exact hk
  have hsource : ∀ i, i < read.bytes → src i = buffer + read.offset + i := by
    intro i hi
    have hmap := (hplaces i hi).2
    rw [filePosition, toSize_natCast (by omega), h.translate_kernel (by omega)] at hmap
    exact (Option.some.inj hmap).symm
  obtain ⟨k, hk, hdi⟩ := hdest i hi
  refine ⟨k, hk, ?_⟩
  rw [← hdi, ← hsource i hi]
  refine copyBytes_apply ?_ ?_ hi
  · -- a frame occurs once, and a place in it once
    intro a b ha hb heq
    obtain ⟨ka, hka, hda⟩ := hdest a ha
    obtain ⟨kb, hkb, hdb⟩ := hdest b hb
    obtain ⟨hla, hga⟩ := List.getElem?_eq_some_iff.mp hka
    obtain ⟨hlb, hgb⟩ := List.getElem?_eq_some_iff.mp hkb
    have hframe : frames[a / 0x1000] = frames[b / 0x1000] := by
      rw [hga, hgb]
      omega
    have hpage := hnodup.getElem_inj_iff.mp hframe
    omega
  · intro a b ha hb heq
    obtain ⟨kb, -, hdb⟩ := hdest b hb
    have := hsource a ha
    omega

/-- A live region of the heap that is not the tables' is not changed with them. -/
theorem SpacesInv.unchanged {st : SystemState} {role : Radix.Role Nat (Fin 512)}
    {spaces : List (PagingManager × List Nat)} (h : SpacesInv st role spaces)
    (hheap : KernelHeapInv st.heap) {a : Nat × Nat} (ha : a ∈ st.heap.live)
    (hne : a.1 ≠ st.tables.startingAddress) {m' : Mem} (hm : OnlyPaging st.tables st.mem m') {x : Nat}
    (hx : a.1 ≤ x) (hx' : x < a.1 + a.2) : m' x = st.mem x := by
  obtain ⟨size, hlive, hsize⟩ := h.zone
  have hend := (hheap.inside ha).2
  have hapart := hheap.apart ha hlive hne
  refine hm x (fun hzone => ?_) (Or.inl (by omega))
  unfold Slab.InZone at hzone
  simp only at hapart
  omega

end Segment

/-! ## The new address space -/

/-- The byte that the job at `job` finds at the address `va`. -/
def SystemState.imageByte (st : SystemState) (job va : Nat) : Option Byte :=
  (translate st.mem (st.managers (st.managerOf job)).l1 va).map fun tr => st.mem tr.pa

section Program

variable {st : SystemState} {role : Radix.Role Nat (Fin 512)}
  {spaces : List (PagingManager × List Nat)} {elf : Elf}
  {len offset memsz : Nat}

/-- What `loadProgram` is given: program header 0 and the file in regions of the heap, apart from
    the tables. -/
structure ProgramReady (st : SystemState) (elf : Elf) (len offset memsz : Nat) : Prop where
  header : elfGetProgramheaderByid elf 0 ≠ 0
  region : ∃ size, (elfGetProgramheaderByid elf 0, size) ∈ st.heap.live ∧ sizeofPhdr ≤ size
  apart : elfGetProgramheaderByid elf 0 ≠ st.tables.startingAddress
  file : (elf.buffer, len) ∈ st.heap.live
  fileApart : elf.buffer ≠ st.tables.startingAddress
  offset_eq : pOffset st.mem (elfGetProgramheaderByid elf 0) = offset
  memsz_eq : pMemsz st.mem (elfGetProgramheaderByid elf 0) = memsz
  start : offset ≤ len
  small : memsz < 2 ^ 24

/-- The program header is still there when the tables have been made. -/
theorem ProgramReady.read (hp : ProgramReady st elf len offset memsz) (hheap : KernelHeapInv st.heap)
    (h : SpacesInv st role spaces) {m' : Mem} (hm : OnlyPaging st.tables st.mem m') :
    elfProgramRead m' (elfGetProgramheaderByid elf 0) = ⟨offset, memsz, memsz⟩ := by
  obtain ⟨size, hlive, hsize⟩ := hp.region
  have hfield : ∀ a, a + 8 ≤ sizeofPhdr → loadNat m' (elfGetProgramheaderByid elf 0 + a) 8
      = loadNat st.mem (elfGetProgramheaderByid elf 0 + a) 8 := by
    intro a ha
    refine loadNat_congr fun i hi => h.unchanged hheap hlive hp.apart hm ?_ ?_
    · simp only
      omega
    · simp only
      omega
  have hoffset : pOffset m' (elfGetProgramheaderByid elf 0) = offset :=
    (hfield 8 (by decide)).trans hp.offset_eq
  have hmemsz : pMemsz m' (elfGetProgramheaderByid elf 0) = memsz :=
    (hfield 40 (by decide)).trans hp.memsz_eq
  have hsmall := hp.small
  rw [elfProgramRead, hoffset, hmemsz, Nat.mul_one, toSize_natCast (by omega)]

/-- **Making the address space and filling it** returns, when there is room. -/
theorem loadProgram_returns (hp : ProgramReady st elf len offset memsz)
    (hheap : KernelHeapInv st.heap) (h : SpacesInv st role spaces)
    (hmanager : (st.kalloc sizeofPagingManager).1 ≠ 0) (hfit : JobFits st.tables memsz st.mem) :
    ∃ res, st.loadProgram elf = .ok res := by
  have hsmall := hp.small
  have hsize : toInt32 (memsz : Int) = memsz := toInt32_of_range (by omega) (by omega)
  obtain ⟨manager, mem, role', frames, hcreate, hpages, h', honly, -⟩ :=
    jobCreatePaging_spec h.slab (h.outside hheap) h.spaces hfit
  have hspace := h'.spaces _ List.mem_cons_self
  have hread := hp.read hheap h honly
  have hend := (hheap.inside hp.file).2
  have hstart := hp.start
  have hcover : memsz ≤ 0x1000 * frames.length := by
    obtain ⟨-, hval⟩ := jobNeedSlots_eq hfit.1
    omega
  have hpaging : st.jobCreatePaging (toInt32 (pMemsz st.mem (elfGetProgramheaderByid elf 0)))
      = .ok ((st.kalloc sizeofPagingManager).1, 0x1000 * (frames.length : Int),
        { (st.kalloc sizeofPagingManager).2 with
          mem := mem
          managers := Function.update st.managers (st.kalloc sizeofPagingManager).1 manager }) := by
    rw [hp.memsz_eq, hsize, SystemState.jobCreatePaging]
    simp only
    rw [if_neg hmanager]
    show (jobCreatePaging userSpace st.tables memsz st.mem >>= _) = _
    rw [hcreate, ok_bind]
    rfl
  rw [SystemState.loadProgram]
  simp only
  rw [if_neg hp.header, hpaging, ok_bind]
  simp only [SystemState.elfDumpProgramContent, SystemState.pagingManagerApply, SystemState.physical,
    Function.update_self, hread]
  rw [if_pos, ok_bind]
  · exact ⟨_, rfl⟩
  · -- the program's pages are mapped, and the kernel is mapped everywhere
    intro i hi
    have hpage : i / 0x1000 < frames.length := by omega
    constructor
    · rw [toSize_natCast (by rw [jobBaseUser]; omega), hspace.translate_page
        (h'.frame_lt List.mem_cons_self) (h'.length_le List.mem_cons_self)
        (List.getElem?_eq_getElem hpage) (by rw [jobBaseUser]; omega)]
      rfl
    · rw [filePosition, toSize_natCast (by omega), hspace.translate_kernel (by omega)]
      rfl

/-- **The program in its address space**: every byte that the copy took from the file is where the
    program expects it. -/
theorem loadProgram_image (hp : ProgramReady st elf len offset memsz)
    (hheap : KernelHeapInv st.heap) (h : SpacesInv st role spaces) {pm : Nat} {size : Int}
    {st' : SystemState} (hres : st.loadProgram elf = .ok (pm, size, st')) :
    st'.fileReads = ⟨offset, memsz, memsz⟩ :: st.fileReads ∧
      ∀ i, i < memsz → offset + i < len →
        (translate st'.mem (st'.managers pm).l1 (jobBaseUser + i)).map (fun tr => st'.mem tr.pa)
          = some (st.mem (elf.buffer + offset + i)) := by
  obtain ⟨-, -, -, manager, mem, read, dest, src, hcreate, hread, hplaces, rfl⟩ := loadProgram_ok hres
  obtain ⟨-, -, -, role', frames, -, h', honly⟩ :=
    jobCreatePaging_inv h.slab (h.outside hheap) h.spaces hcreate
  rw [hp.read hheap h honly] at hread
  subst hread
  refine ⟨rfl, fun i hi hin => ?_⟩
  have hlt := h'.frame_lt List.mem_cons_self
  have hlen := h'.length_le List.mem_cons_self
  have hspace := h'.spaces _ List.mem_cons_self
  have hend := (hheap.inside hp.file).2
  have hstart := hp.start
  have hsmall := hp.small
  obtain ⟨-, hdest⟩ := hplaces.frames hspace hlt hlen
  have hnodup : frames.Nodup := (List.nodup_append.mp h'.frames).1
  obtain ⟨k, hk, hbyte⟩ := hplaces.apply hspace hlt hlen hnodup (by simp only at hend ⊢; omega) hi
  -- the copy did not touch the tables
  have hafter := h.userZone hheap h' fun x hx => copyBytes_of_ne (d := dest) (s := src)
    fun i hi => (by have := hdest i hi; omega : x ≠ dest i)
  rw [show (Function.update st.managers pm manager pm).l1 = manager.l1 by
    rw [Function.update_self], (hafter.spaces _ List.mem_cons_self).translate_page hlt hlen hk
      (by rw [jobBaseUser]; omega), Option.map_some]
  have hplace : (jobBaseUser + i) % 0x1000 = i % 0x1000 := by
    rw [jobBaseUser]
    omega
  simp only [hplace, hbyte]
  rw [h.unchanged hheap hp.file hp.fileApart honly (by simp only; omega) (by simp only; omega)]

end Program

/-! ## The whole call -/

/-- The calls of `job_create_from_file` that the kernel makes, on an inode that was just opened. -/
inductive JobCreateCall (volume : Volume) (garbage : Garbage) :
    SystemState → Nat → FatInode → Nat → Prop
  /-- From `usermode`. -/
  | usermode {st₀ st : SystemState} {filename : Mem} {inode name : Nat} {fatInode : FatInode}
      (hr : (systemMachine volume).Reach st₀)
      (hopen : st₀.fatfsOpen volume garbage filename = .ok (inode, fatInode, st)) :
      JobCreateCall volume garbage st inode fatInode name
  /-- From `exceptions_internal_spawn`. -/
  | spawn {st₀ st : SystemState} {filename : List Byte} {inode : Nat} {fatInode : FatInode}
      (hr : (systemMachine volume).Reach st₀) (hcopy : (st₀.kalloc (filename.length + 1)).1 ≠ 0)
      (hopen : (st₀.withName filename).fatfsOpen volume garbage
          (fun i => (st₀.withName filename).mem ((st₀.kalloc (filename.length + 1)).1 + i))
        = .ok (inode, fatInode, st)) :
      JobCreateCall volume garbage st inode fatInode (st₀.kalloc (filename.length + 1)).1

/-- What holds when `job_create_from_file` is called. -/
structure CallReady (garbage : Garbage) (st : SystemState) (inode : Nat) (fatInode : FatInode) :
    Prop where
  fs : InodeInv st.fs
  opened : ∃ l ∈ st.fs.opened, inode = l.inode
  file : ∃ entry, fatInode = fatfsInode entry garbage.inode
  spaces : ∃ role spaces, SpacesInv st role spaces
  jobs : ∃ s order, s.Placed ∧ JobInv s st.table order

theorem JobCreateCall.ready {volume : Volume} {garbage : Garbage} {st : SystemState}
    {inode name : Nat} {fatInode : FatInode}
    (hcall : JobCreateCall volume garbage st inode fatInode name) :
    CallReady garbage st inode fatInode := by
  cases hcall with
  | usermode hr hopen =>
    obtain ⟨s, order, hinv, -⟩ := SystemGood.reach hr
    obtain ⟨role, spaces, hspaces⟩ := hinv.spaces
    obtain ⟨hfs, h, l, hl, entry, hinode, hentry⟩ := fatfsOpen_spaces hinv.fs hspaces hopen
    obtain ⟨_, _, _, -, -, -, -, rfl⟩ := SystemState.fatfsOpen_ok hopen
    exact ⟨hfs, ⟨l, hl, hinode⟩, ⟨entry, hentry⟩, ⟨role, spaces, h⟩, s, order, hinv.placed, hinv.jobs⟩
  | spawn hr hcopy hopen =>
    obtain ⟨s, order, hinv, -⟩ := SystemGood.reach hr
    obtain ⟨role, spaces, hspaces⟩ := hinv.spaces
    obtain ⟨hname, hnamed⟩ := withName_spaces hinv.fs hspaces hcopy
    obtain ⟨hfs, h, l, hl, entry, hinode, hentry⟩ := fatfsOpen_spaces hname hnamed hopen
    obtain ⟨_, _, _, -, -, -, -, rfl⟩ := SystemState.fatfsOpen_ok hopen
    exact ⟨hfs, ⟨l, hl, hinode⟩, ⟨entry, hentry⟩, ⟨role, spaces, h⟩, s, order, hinv.placed, hinv.jobs⟩

/-- `PT_LOAD`. -/
def ptLoad : Nat := 1

/-- Program header 0 of the file is a segment to be loaded at `JOB_BASE_USER` that leaves room for
    the stack. -/
structure LoadSegment (file : Mem) (len : Nat) : Prop where
  type : pType file (ePhoff file) = ptLoad
  vaddr : pVaddr file (ePhoff file) = jobBaseUser
  sizes : pFilesz file (ePhoff file) ≤ pMemsz file (ePhoff file)
  small : pMemsz file (ePhoff file) < 2 ^ 24 - 2 ^ 13
  inFile : pOffset file (ePhoff file) + pFilesz file (ePhoff file) ≤ len

/-- Every allocation that the call cannot do without succeeds: the buffer for the file, the program
    headers, the paging manager, tables and frames, and the job. -/
structure SpawnFits (volume : Volume) (garbage : Garbage) (st : SystemState) (inode : Nat)
    (fatInode : FatInode) (file : Mem) (len : Nat) : Prop where
  buffer : (st.kalloc len).1 ≠ 0
  programs : ∀ rounds initMem st₁, st.loadFile volume garbage rounds inode fatInode
    = .ok (initMem, st₁) → (programsBuffer st₁.heap file).1 ≠ 0
  manager : ∀ rounds initMem st₁ elf st₂, st.loadFile volume garbage rounds inode fatInode
    = .ok (initMem, st₁) → st₁.parseElf initMem = .ok (elf, st₂) →
    (st₂.kalloc sizeofPagingManager).1 ≠ 0
  space : JobFits st.tables (pMemsz file (ePhoff file)) st.mem
  slot : ∃ k, k < st.table.jobSlab.maxStore ∧ st.table.jobSlab.used st.table.mem k = false

/-- The new job sees the segment: the bytes of the file, zeroes behind them, and nothing outside of
    the file was read. -/
def LoadsImage (volume : Volume) (garbage : Garbage) (st : SystemState) (inode : Nat)
    (fatInode : FatInode) (name : Nat) (file : Mem) (len : Nat) : Prop :=
  ∃ job st', Returns (fun rounds =>
      jobCreateFromFile volume garbage rounds st inode fatInode name) (job, st') ∧
    (∀ i, i < pMemsz file (ePhoff file) →
      st'.imageByte job (pVaddr file (ePhoff file) + i) = some
        (if i < pFilesz file (ePhoff file) then file (pOffset file (ePhoff file) + i) else 0)) ∧
    ∃ reads, st'.fileReads = reads ++ st.fileReads ∧ ∀ r ∈ reads, r.Inside len

section Call

variable {volume : Volume} {garbage : Garbage} {st : SystemState} {inode : Nat}
  {fatInode : FatInode} {entry : Fat16DirEntry} {clusters : List Nat}

/-- A parser run whose copies fit their buffers. -/
theorem parseElf_returns {initMem : Nat} {parsed : ElfState} (hinit : initMem ≠ 0)
    (hparsed : elfAllocAndParse ⟨st.mem, st.heap, elfFromfilebuffer initMem, []⟩ = .ok parsed)
    (hfits : ∀ r ∈ parsed.reads, r.bytes ≤ r.room) :
    ∃ st₂, st.parseElf initMem = .ok (parsed.elf, st₂) := by
  have hroom : ¬ ∃ r ∈ parsed.reads, r.room < r.bytes := by
    rintro ⟨r, hr, hlt⟩
    exact absurd (hfits r hr) (Nat.not_le_of_lt hlt)
  rw [SystemState.parseElf, if_neg hinit]
  simp only
  rw [hparsed, ok_bind, if_neg hroom]
  exact ⟨_, rfl⟩

/-- The file of `len` bytes was read to `initMem` and parsed: `st₁` is the state between. -/
structure FileParsed (st st₁ st₂ : SystemState) (file : Mem) (len initMem : Nat) (elf : Elf)
    (reads : List FileRead) : Prop where
  live : (initMem, len) ∈ st₁.heap.live
  bytes : ∀ i, i < len → st₁.mem (initMem + i) = file i
  buffer : elf.buffer = initMem
  header : elfGetProgramheaderByid elf 0 = (programsBuffer st₁.heap file).1
  region : ∃ size, ((programsBuffer st₁.heap file).1, size) ∈ st₂.heap.live ∧ sizeofPhdr ≤ size
  fields : ∀ a n, a + n ≤ sizeofPhdr →
    loadNat st₂.mem ((programsBuffer st₁.heap file).1 + a) n = loadNat file (ePhoff file + a) n
  table : st₂.table = st.table
  inside : ∀ r ∈ reads, r.Inside len
  fileReads : st₂.fileReads = reads ++ st.fileReads

/-- **Reading and parsing an ELF64 file** return, when the heap has room for the file and for its
    program headers. -/
theorem fileParsed (hv : volume.Loaded) (hready : CallReady garbage st inode fatInode)
    (hentry : fatInode.fat16DirEntry = some entry)
    (hchain : FileChain volume.handle entry clusters)
    (helf : Elf64 (volume.file clusters) entry.filesizeBytes)
    (hroom : (st.kalloc entry.filesizeBytes).1 ≠ 0)
    (hprograms : ∀ rounds initMem st₁, st.loadFile volume garbage rounds inode fatInode
      = .ok (initMem, st₁) → (programsBuffer st₁.heap (volume.file clusters)).1 ≠ 0) :
    ∃ st₁ elf st₂ reads, (∀ rounds, entry.filesizeBytes < rounds →
        st.loadFile volume garbage rounds inode fatInode
          = .ok ((st.kalloc entry.filesizeBytes).1, st₁)) ∧
      st₁.parseElf (st.kalloc entry.filesizeBytes).1 = .ok (elf, st₂) ∧
      FileParsed st st₁ st₂ (volume.file clusters) entry.filesizeBytes
        (st.kalloc entry.filesizeBytes).1 elf reads := by
  obtain ⟨l, hl, rfl⟩ := hready.opened
  obtain ⟨entry', rfl⟩ := hready.file
  obtain rfl : entry' = some entry := hentry
  obtain ⟨role, spaces, h⟩ := hready.spaces
  obtain ⟨st₁, hload, hlive, hbytes⟩ := loadFile_spec hv hchain hready.fs hl hroom garbage.inode
  have hload₀ := hload _ (Nat.lt_succ_self _)
  obtain ⟨hfs₁, -, -⟩ := loadFile_spaces hready.fs h hl hload₀ hroom
  obtain ⟨parsed, hparsed, hinside, hbuffer, hheader, hregion, hfields⟩ :=
    helf.parse hfs₁.heap hlive hbytes (hprograms _ _ _ hload₀)
  obtain ⟨st₂, hparse⟩ := parseElf_returns hroom hparsed fun r hr => (hinside r hr).2
  refine ⟨st₁, parsed.elf, st₂, parsed.reads, hload, hparse, ?_⟩
  obtain ⟨-, parsed', hparsed', -, -, rfl⟩ := parseElf_ok hparse
  obtain rfl := Except.ok.inj (hparsed.symm.trans hparsed')
  obtain ⟨_, _, _, -, -, -, -, -, rfl⟩ := loadFile_ok hload₀
  exact ⟨hlive, hbytes, hbuffer, hheader, hregion, hfields, rfl, hinside, rfl⟩

/-- The address spaces, when `job_create_from_file` has read and parsed its file. -/
theorem CallReady.parsed {rounds initMem : Nat} {st₁ st₂ : SystemState} {elf : Elf}
    (hready : CallReady garbage st inode fatInode)
    (hload : st.loadFile volume garbage rounds inode fatInode = .ok (initMem, st₁))
    (hparse : st₁.parseElf initMem = .ok (elf, st₂)) :
    ∃ role spaces, ParsedSpaces st st₁ st₂ role spaces := by
  obtain ⟨l, hl, rfl⟩ := hready.opened
  obtain ⟨entry, rfl⟩ := hready.file
  obtain ⟨role, spaces, h⟩ := hready.spaces
  exact ⟨role, spaces, h.parsed hready.fs hl hload hparse⟩

/-- The program of a file that was parsed can be loaded. -/
theorem FileParsed.programReady {st₁ st₂ : SystemState} {file : Mem} {len : Nat} {elf : Elf}
    {reads : List FileRead} {role : Radix.Role Nat (Fin 512)}
    {spaces : List (PagingManager × List Nat)}
    (hfile : FileParsed st st₁ st₂ file len (st.kalloc len).1 elf reads)
    (hready : CallReady garbage st inode fatInode) (hp : ParsedSpaces st st₁ st₂ role spaces)
    (hseg : LoadSegment file len) (hbuffer : (st.kalloc len).1 ≠ 0)
    (hprograms : (programsBuffer st₁.heap file).1 ≠ 0) :
    ProgramReady st₂ elf len (pOffset file (ePhoff file)) (pMemsz file (ePhoff file)) := by
  obtain ⟨_, _, h⟩ := hready.spaces
  obtain ⟨size, hzone, -⟩ := h.zone
  obtain ⟨size₁, hzone₁, -⟩ := hp.spaces₁.zone
  have hsizes := hseg.inFile
  have hsmall := hseg.small
  constructor
  case header => exact hfile.header ▸ hprograms
  case region =>
    rw [hfile.header]
    exact hfile.region
  case apart =>
    rw [hfile.header, hp.tables₂, ← hp.tables₁]
    exact Ne.symm (Elf64.programsBuffer_fresh hp.heap₁ hprograms hzone₁)
  case file =>
    rw [hfile.buffer]
    exact hp.keeps _ hfile.live
  case fileApart =>
    rw [hfile.buffer, hp.tables₂]
    exact Ne.symm (hready.fs.heap.kalloc_fresh hbuffer _ hzone)
  case offset_eq =>
    rw [hfile.header]
    exact hfile.fields 8 8 (by decide)
  case memsz_eq =>
    rw [hfile.header]
    exact hfile.fields 40 8 (by decide)
  case start => omega
  case small => omega

/-- **`job_create_from_file` on an ELF64 file** returns, when its allocations succeed.  It has read
    `p_memsz` bytes of the segment, and those that are in the file are in the new address space. -/
theorem jobCreateFromFile_image (hv : volume.Loaded) (hready : CallReady garbage st inode fatInode)
    (hentry : fatInode.fat16DirEntry = some entry)
    (hchain : FileChain volume.handle entry clusters)
    (helf : Elf64 (volume.file clusters) entry.filesizeBytes)
    (hseg : LoadSegment (volume.file clusters) entry.filesizeBytes)
    (hfit : SpawnFits volume garbage st inode fatInode (volume.file clusters) entry.filesizeBytes)
    (name : Nat) :
    ∃ job st' reads, (∀ rounds, entry.filesizeBytes < rounds →
        jobCreateFromFile volume garbage rounds st inode fatInode name = .ok (job, st')) ∧
      (∀ r ∈ reads, r.Inside entry.filesizeBytes) ∧
      st'.fileReads = ⟨pOffset (volume.file clusters) (ePhoff (volume.file clusters)),
        pMemsz (volume.file clusters) (ePhoff (volume.file clusters)),
        pMemsz (volume.file clusters) (ePhoff (volume.file clusters))⟩ :: (reads ++ st.fileReads) ∧
      ∀ i, i < pMemsz (volume.file clusters) (ePhoff (volume.file clusters)) →
        pOffset (volume.file clusters) (ePhoff (volume.file clusters)) + i < entry.filesizeBytes →
        st'.imageByte job (jobBaseUser + i)
          = some (volume.file clusters
            (pOffset (volume.file clusters) (ePhoff (volume.file clusters)) + i)) := by
  obtain ⟨st₁, elf, st₂, reads, hload, hparse, hfile⟩ :=
    fileParsed hv hready hentry hchain helf hfit.buffer hfit.programs
  have hload₀ := hload _ (Nat.lt_succ_self _)
  obtain ⟨role, spaces, hparsed⟩ := hready.parsed hload₀ hparse
  have hp := hfile.programReady hready hparsed hseg hfit.buffer (hfit.programs _ _ _ hload₀)
  -- the address space
  obtain ⟨⟨pm, size, st₃⟩, hprogram⟩ := loadProgram_returns hp hparsed.heap₂ hparsed.spaces₂
    (hfit.manager _ _ _ _ _ hload₀ hparse) ((hparsed.fits _).mpr hfit.space)
  obtain ⟨hreads₃, himage⟩ := loadProgram_image hp hparsed.heap₂ hparsed.spaces₂ hprogram
  have htable₃ : st₃.table = st.table := by
    obtain ⟨-, -, -, _, _, _, _, _, -, -, -, rfl⟩ := loadProgram_ok hprogram
    exact hfile.table
  -- and the job
  obtain ⟨s, order, hplaced, hjobs⟩ := hready.jobs
  obtain ⟨job, table, hjob, -, -, -⟩ := hjobs.create hplaced (hjobs.slab ▸ hfit.slot)
    (BitVec.ofNat 64 (eEntry elf.header)) (BitVec.ofInt 64 (jobBaseUser + size))
    (fun i => st₃.mem (name + i)) pm
  refine ⟨job, { st₃.setHeap (elfFree st₃.heap elf) with table := table }, reads, ?_, hfile.inside,
    ?_, ?_⟩
  · intro rounds hrounds
    rw [← htable₃] at hjob
    exact jobCreateFromFile_of_parts (hload rounds hrounds) hparse hprogram hjob
  · show st₃.fileReads = _
    rw [hreads₃, hfile.fileReads]
  · intro i hi hin
    have hpm : (table.jobs job).paging = pm := by
      obtain ⟨mem, -, rfl⟩ := jobCreate_ok hjob
      rw [jobFill_paging, if_pos rfl]
    have hbyte : st₂.mem (elf.buffer
        + pOffset (volume.file clusters) (ePhoff (volume.file clusters)) + i)
        = volume.file clusters
          (pOffset (volume.file clusters) (ePhoff (volume.file clusters)) + i) := by
      rw [hfile.buffer, Nat.add_assoc, hparsed.reserved, hfile.bytes _ hin]
      exact Or.inr ⟨_, hfile.live, Nat.le_add_right _ _, by simp only; omega⟩
    rw [← hbyte, ← himage i hi hin, SystemState.imageByte, SystemState.managerOf, hpm]
    rfl

/-- **What is left** of the frames and tables: the call takes a frame for each page of the program
    and its stack, and the tables that these need at most.  Reading and parsing the file take
    neither, and the program is copied to the user zone. -/
theorem jobCreateFromFile_slots (hv : volume.Loaded) (hready : CallReady garbage st inode fatInode)
    (hentry : fatInode.fat16DirEntry = some entry)
    (hchain : FileChain volume.handle entry clusters)
    (helf : Elf64 (volume.file clusters) entry.filesizeBytes)
    (hseg : LoadSegment (volume.file clusters) entry.filesizeBytes)
    (hfit : SpawnFits volume garbage st inode fatInode (volume.file clusters) entry.filesizeBytes)
    {rounds name job : Nat} {st' : SystemState} (hrounds : entry.filesizeBytes < rounds)
    (hres : jobCreateFromFile volume garbage rounds st inode fatInode name = .ok (job, st')) :
    userSpace.freeSlots st.mem = userSpace.freeSlots st'.mem
        + jobPages (pMemsz (volume.file clusters) (ePhoff (volume.file clusters))) ∧
      st.tables.freeSlots st.mem ≤ st'.tables.freeSlots st'.mem
        + jobTables (jobPages (pMemsz (volume.file clusters) (ePhoff (volume.file clusters)))) := by
  obtain ⟨st₁, elf, st₂, reads, hload, hparse, hfile⟩ :=
    fileParsed hv hready hentry hchain helf hfit.buffer hfit.programs
  obtain ⟨initMem, st₁', elf', st₂', pm, size, st₃, table, hload', hparse', hprogram, -, rfl⟩ :=
    jobCreateFromFile_ok hres
  obtain ⟨rfl, rfl⟩ := Prod.mk.inj (Except.ok.inj ((hload rounds hrounds).symm.trans hload'))
  obtain ⟨rfl, rfl⟩ := Prod.mk.inj (Except.ok.inj (hparse.symm.trans hparse'))
  obtain ⟨role, spaces, hparsed⟩ := hready.parsed hload' hparse
  have hp := hfile.programReady hready hparsed hseg hfit.buffer (hfit.programs _ _ _ hload')
  have hsmall := hp.small
  have h₂ := hparsed.spaces₂
  obtain ⟨-, -, -, manager, mem, read, dest, src, hcreate, -, hplaces, rfl⟩ :=
    loadProgram_ok hprogram
  -- the frames and tables that the address space takes
  rw [hp.memsz_eq, toInt32_of_range (by omega) (by omega)] at hcreate
  obtain ⟨manager', mem', role', frames, hcreate', -, h', -, hframes, htables⟩ :=
    jobCreatePaging_spec h₂.slab (h₂.outside hparsed.heap₂) h₂.spaces
      ((hparsed.fits _).mpr hfit.space)
  obtain ⟨rfl, hrest⟩ := Prod.mk.inj (Except.ok.inj (hcreate'.symm.trans hcreate))
  obtain ⟨-, rfl⟩ := Prod.mk.inj hrest
  obtain ⟨-, hdest⟩ := hplaces.frames (h'.spaces _ List.mem_cons_self)
    (h'.frame_lt List.mem_cons_self) (h'.length_le List.mem_cons_self)
  obtain ⟨hframes', htables'⟩ := h₂.userZone_freeSlots hparsed.heap₂ fun x hx =>
    copyBytes_of_ne (d := dest) (s := src) (m := mem') (n := read.bytes)
      fun i hi => (by have := hdest i hi; omega : x ≠ dest i)
  rw [hparsed.framesLeft] at hframes
  rw [hparsed.tablesLeft] at htables
  constructor
  · rw [hframes, ← hframes']
    rfl
  · rw [← htables'] at htables
    exact htables

end Call

end TinyKernel
