/-
  Starting a program from a file: `exceptions_internal_spawn` and `job_create_from_file`.

  A spawn goes through almost all of the kernel.  The name is copied to the heap, the file opened
  and read into a buffer, the buffer parsed as ELF, an address space made and filled, and a job
  added to the ring.  `SystemState` is the state of all these parts.  Kernel data structures are
  objects of their own (inodes, paging managers, jobs); the file, the header tables, the
  translation tables and the programs are bytes of one memory.

  Nothing on this way is ever refused.  A `NULL` is written through or dereferenced, which the
  model reports as a `Fault`, and every call that does return has created a job
  (`spawn_creates_job`).

  The ghost `refusals` counts the times `kalloc` returned `NULL`, and the ghost `fileReads` lists
  what was read from program files.
-/
import TinyKernel.Elf.ElfBounds
import TinyKernel.Fs.FatName
import TinyKernel.Fs.Inode
import TinyKernel.Mp.JobPaging
import TinyKernel.Mp.JobRun

namespace TinyKernel

/-! ## The state -/

/-- The kernel, as far as it takes part in starting programs. -/
structure SystemState where
  /-- The inodes and the kernel heap. -/
  fs : InodeState
  /-- What the regions of the heap, the translation tables and the user frames hold. -/
  mem : Mem
  /-- The slab of translation tables. -/
  tables : Slab
  /-- The `struct paging_manager` at an address. -/
  managers : Nat → PagingManager
  table : JobTable
  /-- `current_paging_manager`. -/
  currentPagingManager : Nat
  /-- TTBR0_EL1. -/
  ttbr0 : Nat
  /-- Ghost: how often `kalloc` returned `NULL`. -/
  refusals : Nat
  /-- Ghost: the copies made out of program files, newest first. -/
  fileReads : List FileRead

/-- The disk with the main filesystem on it. -/
structure Volume where
  disk : Disk
  handle : FatHandle

/-- What the memory that the filesystem code gets uninitialised holds: the local arrays of
    `fat_get_entry_by_file`, the `fat_inode`, and the cluster buffer of the `n`-th `fatfs_get`. -/
structure Garbage where
  stackName : List Byte
  stackExt : List Byte
  inode : Mem
  scratch : Nat → Mem

/-- `sizeof(struct paging_manager)`. -/
def sizeofPagingManager : Nat := 16

namespace SystemState

/-- The kernel heap. -/
def heap (st : SystemState) : HeapState := st.fs.heap

/-- Store to the kernel heap. -/
def setHeap (st : SystemState) (heap : HeapState) : SystemState :=
  { st with fs := { st.fs with heap := heap } }

/-- `kalloc`. -/
def kalloc (st : SystemState) (size : Nat) : Nat × SystemState :=
  let (p, heap) := st.heap.kalloc size
  (p, { st.setHeap heap with refusals := st.refusals + if p = 0 then 1 else 0 })

/-- `kfree`. -/
def kfree (st : SystemState) (p : Nat) : SystemState := st.setHeap (st.heap.kfree p)

/-- `paging_manager_apply`: the manager that was applied before, and the state. -/
def pagingManagerApply (st : SystemState) (pm : Nat) : Nat × SystemState :=
  (st.currentPagingManager, { st with currentPagingManager := pm, ttbr0 := (st.managers pm).l1 })

end SystemState

/-! ## Reading the file -/

/-- `while (fs_inode_get(inode, ptr)) ptr++` on a FAT inode: the bytes that it delivers.  `n` is
    how many it has delivered. -/
def fatfsGetAll (volume : Volume) (garbage : Garbage) (rounds : Nat) :
    Nat → Nat → FatInode → Except Fault (List Byte)
  | 0, _, _ => .error .noReturn
  | fuel + 1, n, inode => do
    let (c, inode) ← fatfsGet rounds volume.disk volume.handle (garbage.scratch n) inode
    match c with
    | none => return []
    | some c =>
      let rest ← fatfsGetAll volume garbage rounds fuel (n + 1) inode
      return c :: rest

/-- Bytes stored one after the other from `p`. -/
def storeBytes (m : Mem) : Nat → List Byte → Mem
  | _, [] => m
  | p, c :: cs => storeBytes (Function.update m p c) (p + 1) cs

/-! ## The source -/

/-- `job_create_paging`: the manager's address and `*allocated_size`. -/
def SystemState.jobCreatePaging (st : SystemState) (size : Int) :
    Except Fault (Nat × Int × SystemState) := do
  let (pm, st) := st.kalloc sizeofPagingManager
  -- `paging_manager_init` stores to it
  if pm = 0 then throw .nullPointer
  let (manager, allocatedSize, mem) ← TinyKernel.jobCreatePaging userSpace st.tables size st.mem
  return (pm, allocatedSize,
    { st with mem := mem, managers := Function.update st.managers pm manager })

/-- The physical address behind `va` in the tree that TTBR0 points to. -/
def SystemState.physical (st : SystemState) (va : Nat) : Option Nat :=
  (translate st.mem st.ttbr0 va).map (·.pa)

/-- `elf_dump_program_content`, through the applied address space.  The copy writes no translation
    table, so that its addresses can be looked up once. -/
def SystemState.elfDumpProgramContent (st : SystemState) (elf : Elf) (program ptr : Nat) :
    Except Fault SystemState :=
  let read := elfProgramRead st.mem program
  let dest := fun i => st.physical (toSize (ptr + i : Nat))
  let src := fun i => st.physical (filePosition elf.buffer read.offset i)
  if ∀ i, i < read.bytes → (dest i).isSome ∧ (src i).isSome then
    .ok { st with
      mem := copyBytes (fun i => (dest i).getD 0) (fun i => (src i).getD 0) read.bytes st.mem
      fileReads := read :: st.fileReads }
  else .error .dataAbort

/-- The buffer that `job_create_from_file` reads the file into, and the state with the file in it
    and its inode closed. -/
def SystemState.loadFile (volume : Volume) (garbage : Garbage) (rounds : Nat) (st : SystemState)
    (inode : Nat) (fatInode : FatInode) : Except Fault (Nat × SystemState) := do
  let fileSize ← fatfsLeft fatInode
  let (initMem, st) := st.kalloc (toSize fileSize)
  let bytes ← fatfsGetAll volume garbage rounds rounds 0 fatInode
  if initMem = 0 ∧ bytes ≠ [] then throw .nullPointer
  let st := { st with mem := storeBytes st.mem initMem bytes }
  let fs ← st.fs.closeInode inode
  return (initMem, { st with fs := fs })

/-- `elf_alloc_and_parse` in the kernel's memory.  The first thing it does is read the header
    from the buffer. -/
def SystemState.parseElf (st : SystemState) (initMem : Nat) : Except Fault (Elf × SystemState) := do
  if initMem = 0 then throw .nullPointer
  let parsed ← elfAllocAndParse ⟨st.mem, st.heap, elfFromfilebuffer initMem, []⟩
  -- a copy that is longer than its buffer writes over whatever lies behind it
  if ∃ r ∈ parsed.reads, r.room < r.bytes then throw .outOfBounds
  let nulls := [parsed.elf.sectionHeaders, parsed.elf.programHeaders,
    parsed.elf.stringsSection].count 0
  return (parsed.elf, { st.setHeap parsed.heap with
    mem := parsed.mem
    refusals := st.refusals + nulls
    fileReads := parsed.reads ++ st.fileReads })

/-- The part of `job_create_from_file` that makes the address space and fills it: the manager and
    `allocated_size`. -/
def SystemState.loadProgram (st : SystemState) (elf : Elf) :
    Except Fault (Nat × Int × SystemState) := do
  let programHeader := elfGetProgramheaderByid elf 0
  if programHeader = 0 then throw .nullPointer
  let (pm, allocatedSize, st) ← st.jobCreatePaging (toInt32 (pMemsz st.mem programHeader))
  -- "switch to the new job paging to load the program"
  let (oldPaging, st) := st.pagingManagerApply pm
  let st ← st.elfDumpProgramContent elf programHeader jobBaseUser
  let (_, st) := st.pagingManagerApply oldPaging
  return (pm, allocatedSize, st)

/-- `job_create_from_file`, on an inode of the FAT filesystem and with the string at `name`: the
    new job. -/
def jobCreateFromFile (volume : Volume) (garbage : Garbage) (rounds : Nat) (st : SystemState)
    (inode : Nat) (fatInode : FatInode) (name : Nat) : Except Fault (Nat × SystemState) := do
  let (initMem, st) ← st.loadFile volume garbage rounds inode fatInode
  let (elf, st) ← st.parseElf initMem
  let (pm, allocatedSize, st) ← st.loadProgram elf
  let st := st.setHeap (elfFree st.heap elf)
  let (job, table) ← jobCreate st.table (BitVec.ofNat 64 (eEntry elf.header))
    (BitVec.ofInt 64 (jobBaseUser + allocatedSize)) (fun i => st.mem (name + i)) pm
  return (job, { st with table := table })

/-- `fs->open(fs, filename)` on the main filesystem, with the bytes from `filename` on: the inode
    and its data. -/
def SystemState.fatfsOpen (volume : Volume) (garbage : Garbage) (st : SystemState)
    (filename : Mem) : Except Fault (Nat × FatInode × SystemState) := do
  let fs ← st.fs.fatfsOpen
  let (name, ext) ← fatfsSplit filename 0
  let index := fatGetEntryByFile volume.handle garbage.stackName garbage.stackExt name ext
  let inode := (fs.opened.head?.map (·.inode)).getD 0
  return (inode, fatfsInode (index.map volume.handle.entryAt) garbage.inode, { st with fs := fs })

/-- `exceptions_internal_spawn`, for the string `filename` that x0 points to. -/
def exceptionsInternalSpawn (volume : Volume) (garbage : Garbage) (rounds : Nat) (st : SystemState)
    (filename : List Byte) : Except Fault SystemState := do
  let (copyFilename, st) := st.kalloc (filename.length + 1)
  if copyFilename = 0 then throw .nullPointer
  let st := { st with mem := storeBytes st.mem copyFilename (filename ++ [0]) }
  let (inode, fatInode, st) ← st.fatfsOpen volume garbage fun i => st.mem (copyFilename + i)
  let (_, st) ← jobCreateFromFile volume garbage rounds st inode fatInode copyFilename
  return st.kfree copyFilename

/-! ## What a spawn that returns has done -/

section Ok

variable {volume : Volume} {garbage : Garbage} {rounds : Nat} {st st' : SystemState}

/-- `job_create_from_file`, part by part. -/
theorem jobCreateFromFile_ok {inode name job : Nat} {fatInode : FatInode}
    (h : jobCreateFromFile volume garbage rounds st inode fatInode name = .ok (job, st')) :
    ∃ initMem st₁ elf st₂ pm size st₃ table,
      st.loadFile volume garbage rounds inode fatInode = .ok (initMem, st₁) ∧
      st₁.parseElf initMem = .ok (elf, st₂) ∧ st₂.loadProgram elf = .ok (pm, size, st₃) ∧
      jobCreate st₃.table (BitVec.ofNat 64 (eEntry elf.header))
        (BitVec.ofInt 64 (jobBaseUser + size)) (fun i => st₃.mem (name + i)) pm
          = .ok (job, table) ∧
      st' = { st₃.setHeap (elfFree st₃.heap elf) with table := table } := by
  obtain ⟨⟨initMem, st₁⟩, h₁, h⟩ := bind_eq_ok h
  obtain ⟨⟨elf, st₂⟩, h₂, h⟩ := bind_eq_ok h
  obtain ⟨⟨pm, size, st₃⟩, h₃, h⟩ := bind_eq_ok h
  obtain ⟨⟨job', table⟩, h₄, h⟩ := bind_eq_ok h
  obtain ⟨rfl, rfl⟩ := Prod.mk.inj (Except.ok.inj h)
  exact ⟨initMem, st₁, elf, st₂, pm, size, st₃, table, h₁, h₂, h₃, h₄, rfl⟩

/-- The call returns when its parts do. -/
theorem jobCreateFromFile_of_parts {inode name job initMem pm : Nat} {fatInode : FatInode} {elf : Elf}
    {size : Int} {st₁ st₂ st₃ : SystemState} {table : JobTable}
    (hload : st.loadFile volume garbage rounds inode fatInode = .ok (initMem, st₁))
    (hparse : st₁.parseElf initMem = .ok (elf, st₂))
    (hprogram : st₂.loadProgram elf = .ok (pm, size, st₃))
    (hjob : jobCreate st₃.table (BitVec.ofNat 64 (eEntry elf.header))
      (BitVec.ofInt 64 (jobBaseUser + size)) (fun i => st₃.mem (name + i)) pm = .ok (job, table)) :
    jobCreateFromFile volume garbage rounds st inode fatInode name
      = .ok (job, { st₃.setHeap (elfFree st₃.heap elf) with table := table }) := by
  rw [jobCreateFromFile, hload, ok_bind]
  simp only
  rw [hparse, ok_bind]
  simp only
  rw [hprogram, ok_bind]
  show (jobCreate st₃.table _ _ (fun i => st₃.mem (name + i)) _ >>= _) = _
  rw [hjob, ok_bind]
  rfl

/-- Reading the file. -/
theorem loadFile_ok {inode initMem : Nat} {fatInode : FatInode}
    (h : st.loadFile volume garbage rounds inode fatInode = .ok (initMem, st')) :
    ∃ size bytes fs, fatfsLeft fatInode = .ok size ∧
      fatfsGetAll volume garbage rounds rounds 0 fatInode = .ok bytes ∧
      initMem = (st.kalloc (toSize size)).1 ∧ ¬ (initMem = 0 ∧ bytes ≠ []) ∧
      (st.kalloc (toSize size)).2.fs.closeInode inode = .ok fs ∧
      st' = { (st.kalloc (toSize size)).2 with
        mem := storeBytes st.mem initMem bytes, fs := fs } := by
  obtain ⟨size, hsize, h⟩ := bind_eq_ok h
  obtain ⟨bytes, hbytes, h⟩ := bind_eq_ok h
  obtain ⟨hnull, h⟩ := guard_eq_ok h
  obtain ⟨fs, hfs, h⟩ := bind_eq_ok h
  obtain ⟨rfl, rfl⟩ := Prod.mk.inj (Except.ok.inj h)
  exact ⟨size, bytes, fs, hsize, hbytes, rfl, hnull, hfs, rfl⟩

/-- Parsing it. -/
theorem parseElf_ok {initMem : Nat} {elf : Elf} (h : st.parseElf initMem = .ok (elf, st')) :
    initMem ≠ 0 ∧ ∃ parsed,
      elfAllocAndParse ⟨st.mem, st.heap, elfFromfilebuffer initMem, []⟩ = .ok parsed ∧
      (∀ r ∈ parsed.reads, r.bytes ≤ r.room) ∧ elf = parsed.elf ∧ st' = { st.setHeap parsed.heap with
        mem := parsed.mem
        refusals := st.refusals + [elf.sectionHeaders, elf.programHeaders,
          elf.stringsSection].count 0
        fileReads := parsed.reads ++ st.fileReads } := by
  obtain ⟨hnull, h⟩ := guard_eq_ok h
  obtain ⟨parsed, hparsed, h⟩ := bind_eq_ok h
  obtain ⟨hroom, h⟩ := guard_eq_ok h
  obtain ⟨rfl, rfl⟩ := Prod.mk.inj (Except.ok.inj h)
  refine ⟨hnull, parsed, hparsed, fun r hr => ?_, rfl, rfl⟩
  exact Nat.le_of_not_lt fun hlt => hroom ⟨r, hr, hlt⟩

/-- The address space and its manager. -/
theorem jobCreatePaging_ok {n size : Int} {pm : Nat}
    (h : st.jobCreatePaging n = .ok (pm, size, st')) :
    pm = (st.kalloc sizeofPagingManager).1 ∧ pm ≠ 0 ∧
    ∃ manager mem, jobCreatePaging userSpace st.tables n st.mem = .ok (manager, size, mem) ∧
      st' = { (st.kalloc sizeofPagingManager).2 with
        mem := mem, managers := Function.update st.managers pm manager } := by
  obtain ⟨hpm, h⟩ := guard_eq_ok h
  obtain ⟨⟨manager, size₁, mem⟩, hcreate, h⟩ := bind_eq_ok h
  simp only [pure, Except.pure, Except.ok.injEq, Prod.mk.injEq] at h
  obtain ⟨rfl, rfl, rfl⟩ := h
  exact ⟨rfl, hpm, manager, mem, hcreate, rfl⟩

/-- `elf_dump_program_content` copies from the places where the new address space has the file to
    those where it has the program. -/
def DumpPlaces (m : Mem) (l1 buffer : Nat) (read : FileRead) (dest src : Nat → Nat) : Prop :=
  ∀ i, i < read.bytes →
    (translate m l1 (toSize (jobBaseUser + i : Nat))).map (·.pa) = some (dest i) ∧
    (translate m l1 (filePosition buffer read.offset i)).map (·.pa) = some (src i)

/-- The copy. -/
theorem elfDumpProgramContent_ok {elf : Elf} {program : Nat}
    (h : st.elfDumpProgramContent elf program jobBaseUser = .ok st') :
    ∃ dest src, DumpPlaces st.mem st.ttbr0 elf.buffer (elfProgramRead st.mem program) dest src ∧
      st' = { st with
        mem := copyBytes dest src (elfProgramRead st.mem program).bytes st.mem
        fileReads := elfProgramRead st.mem program :: st.fileReads } := by
  simp only [SystemState.elfDumpProgramContent] at h
  split at h
  · rename_i hmapped
    have hsome : ∀ o : Option Nat, o.isSome → o = some (o.getD 0) := by
      rintro (_ | v) hv
      · cases hv
      · rfl
    exact ⟨_, _, fun i hi => ⟨hsome _ (hmapped i hi).1, hsome _ (hmapped i hi).2⟩,
      (Except.ok.inj h).symm⟩
  · cases h

/-- Making the address space and filling it. -/
theorem loadProgram_ok {elf : Elf} {pm : Nat} {size : Int}
    (h : st.loadProgram elf = .ok (pm, size, st')) :
    elfGetProgramheaderByid elf 0 ≠ 0 ∧ pm = (st.kalloc sizeofPagingManager).1 ∧ pm ≠ 0 ∧
    ∃ manager mem read dest src, jobCreatePaging userSpace st.tables
        (toInt32 (pMemsz st.mem (elfGetProgramheaderByid elf 0))) st.mem
          = .ok (manager, size, mem) ∧
      read = elfProgramRead mem (elfGetProgramheaderByid elf 0) ∧
      DumpPlaces mem manager.l1 elf.buffer read dest src ∧
      st' = { (st.kalloc sizeofPagingManager).2 with
        mem := copyBytes dest src read.bytes mem
        managers := Function.update st.managers pm manager
        ttbr0 := (Function.update st.managers pm manager st.currentPagingManager).l1
        fileReads := read :: st.fileReads } := by
  obtain ⟨hheader, h⟩ := guard_eq_ok h
  obtain ⟨⟨pm', size', st₁⟩, hpaging, h⟩ := bind_eq_ok h
  obtain ⟨hpm, hne, manager, mem, hcreate, rfl⟩ := jobCreatePaging_ok hpaging
  obtain ⟨st₂, hdump, h⟩ := bind_eq_ok h
  obtain ⟨dest, src, hplaces, rfl⟩ := elfDumpProgramContent_ok hdump
  simp only [pure, Except.pure, Except.ok.injEq, Prod.mk.injEq] at h
  obtain ⟨rfl, rfl, rfl⟩ := h
  refine ⟨hheader, hpm, hne, manager, mem, _, dest, src, hcreate, rfl, ?_, rfl⟩
  simpa only [SystemState.pagingManagerApply, Function.update_self] using hplaces

/-- Opening the file. -/
theorem SystemState.fatfsOpen_ok {filename : Mem} {inode : Nat} {fatInode : FatInode}
    (h : st.fatfsOpen volume garbage filename = .ok (inode, fatInode, st')) :
    ∃ fs name ext, st.fs.fatfsOpen = .ok fs ∧ fatfsSplit filename 0 = .ok (name, ext) ∧
      inode = (fs.opened.head?.map (·.inode)).getD 0 ∧
      fatInode = fatfsInode ((fatGetEntryByFile volume.handle garbage.stackName garbage.stackExt
        name ext).map volume.handle.entryAt) garbage.inode ∧ st' = { st with fs := fs } := by
  obtain ⟨fs, hfs, h⟩ := bind_eq_ok h
  obtain ⟨⟨name, ext⟩, hsplit, h⟩ := bind_eq_ok h
  simp only [pure, Except.pure, Except.ok.injEq, Prod.mk.injEq] at h
  obtain ⟨rfl, rfl, rfl⟩ := h
  exact ⟨fs, name, ext, hfs, hsplit, rfl, rfl, rfl⟩

/-- The state in which a spawn opens its file: the name was copied to the heap. -/
def SystemState.withName (st : SystemState) (filename : List Byte) : SystemState :=
  { (st.kalloc (filename.length + 1)).2 with
    mem := storeBytes st.mem (st.kalloc (filename.length + 1)).1 (filename ++ [0]) }

/-- A spawn, part by part. -/
theorem exceptionsInternalSpawn_ok {filename : List Byte}
    (h : exceptionsInternalSpawn volume garbage rounds st filename = .ok st') :
    (st.kalloc (filename.length + 1)).1 ≠ 0 ∧ ∃ inode fatInode st₁ job st₂,
      (st.withName filename).fatfsOpen volume garbage
          (fun i => (st.withName filename).mem ((st.kalloc (filename.length + 1)).1 + i))
        = .ok (inode, fatInode, st₁) ∧
      jobCreateFromFile volume garbage rounds st₁ inode fatInode
        (st.kalloc (filename.length + 1)).1 = .ok (job, st₂) ∧
      st' = st₂.kfree (st.kalloc (filename.length + 1)).1 := by
  obtain ⟨hname, h⟩ := guard_eq_ok h
  obtain ⟨⟨inode, fatInode, st₁⟩, hopen, h⟩ := bind_eq_ok h
  obtain ⟨⟨job, st₂⟩, hcreate, h⟩ := bind_eq_ok h
  obtain rfl := Except.ok.inj h
  exact ⟨hname, inode, fatInode, st₁, job, st₂, hopen, hcreate, rfl⟩

/-- It returns when its parts do. -/
theorem exceptionsInternalSpawn_of_parts {filename : List Byte} {inode job : Nat}
    {fatInode : FatInode} {st₁ : SystemState} (hcopy : (st.kalloc (filename.length + 1)).1 ≠ 0)
    (hopen : (st.withName filename).fatfsOpen volume garbage
        (fun i => (st.withName filename).mem ((st.kalloc (filename.length + 1)).1 + i))
      = .ok (inode, fatInode, st₁))
    (hcreate : jobCreateFromFile volume garbage rounds st₁ inode fatInode
      (st.kalloc (filename.length + 1)).1 = .ok (job, st')) :
    exceptionsInternalSpawn volume garbage rounds st filename
      = .ok (st'.kfree (st.kalloc (filename.length + 1)).1) := by
  unfold exceptionsInternalSpawn
  simp only
  rw [if_neg hcopy]
  show ((st.withName filename).fatfsOpen volume garbage
    (fun i => (st.withName filename).mem ((st.kalloc (filename.length + 1)).1 + i)) >>= _) = _
  rw [hopen, ok_bind]
  simp only [hcreate, ok_bind]
  rfl

/-- `job_create_from_file` returns with a new job only. -/
theorem jobCreateFromFile_creates {inode name job : Nat} {fatInode : FatInode}
    (h : jobCreateFromFile volume garbage rounds st inode fatInode name = .ok (job, st')) :
    st'.table.log = .created job :: st.table.log := by
  obtain ⟨initMem, st₁, elf, st₂, pm, size, st₃, table, hload, hparse, hprogram, hjob, rfl⟩ :=
    jobCreateFromFile_ok h
  obtain ⟨_, _, _, -, -, -, -, -, rfl⟩ := loadFile_ok hload
  obtain ⟨-, _, -, -, -, rfl⟩ := parseElf_ok hparse
  obtain ⟨-, -, -, _, _, _, _, _, -, -, -, rfl⟩ := loadProgram_ok hprogram
  obtain ⟨mem, -, rfl⟩ := jobCreate_ok hjob
  exact (jobFill_rest ..).2.2

end Ok

/-- A `kalloc` that was granted. -/
theorem SystemState.kalloc_refusals {st : SystemState} {size : Nat} (h : (st.kalloc size).1 ≠ 0) :
    (st.kalloc size).2.refusals = st.refusals :=
  congrArg (st.refusals + ·) (if_neg h)

/-! ## What it leaves on the heap -/

section Heap

variable {volume : Volume} {garbage : Garbage} {rounds : Nat} {st st' : SystemState}

/-- The parser's three buffers, when the heap had room for them. -/
theorem elfAllocAndParse_heap {m : Mem} {heap : HeapState} {buffer : Nat} {parsed : ElfState}
    (h : KernelHeapInv heap)
    (hparse : elfAllocAndParse ⟨m, heap, elfFromfilebuffer buffer, []⟩ = .ok parsed)
    (hsections : parsed.elf.sectionHeaders ≠ 0) (hprograms : parsed.elf.programHeaders ≠ 0)
    (hstrings : parsed.elf.stringsSection ≠ 0) :
    KernelHeapInv parsed.heap ∧ ∃ a b c, parsed.heap.live = (parsed.elf.stringsSection, c) ::
      (parsed.elf.programHeaders, b) :: (parsed.elf.sectionHeaders, a) :: heap.live := by
  by_cases hmagic : parsedHeader m buffer 0 = elfMagicNumber
  · rw [elfAllocAndParse_accepted h rfl hmagic] at hparse
    obtain rfl := Except.ok.inj hparse
    have hlive := fun (hp : HeapState) size (hne : (hp.kalloc size).1 ≠ 0) =>
      (hp.kalloc_live size).trans (if_neg hne)
    refine ⟨((h.kalloc_inv _).kalloc_inv _).kalloc_inv _, sizeofShdr * eShnum (parsedHeader m buffer),
      sizeofPhdr * ePhnum (parsedHeader m buffer),
      stringsSize m heap (parsedHeader m buffer) buffer, ?_⟩
    refine (hlive _ _ hstrings).trans (congrArg _ ?_)
    exact (hlive _ _ hprograms).trans (congrArg _ (hlive _ _ hsections))
  · -- a file that is rejected gets no buffer at all
    rw [elfAllocAndParse_rejected h hmagic] at hparse
    obtain rfl := Except.ok.inj hparse
    exact absurd rfl hsections

/-- The same for the kernel's call. -/
theorem parseElf_heap {initMem : Nat} {elf : Elf}
    (hparse : st.parseElf initMem = .ok (elf, st')) (h : KernelHeapInv st.heap)
    (hall : st'.refusals = st.refusals) :
    KernelHeapInv st'.heap ∧ ∃ a b c, st'.heap.live = (elf.stringsSection, c) ::
      (elf.programHeaders, b) :: (elf.sectionHeaders, a) :: st.heap.live := by
  obtain ⟨-, parsed, hparsed, -, rfl, rfl⟩ := parseElf_ok hparse
  have hcount : [parsed.elf.sectionHeaders, parsed.elf.programHeaders,
      parsed.elf.stringsSection].count 0 = 0 := Nat.add_left_cancel hall
  have hne := List.count_eq_zero.mp hcount
  simp only [List.mem_cons, List.not_mem_nil, or_false, not_or] at hne
  exact elfAllocAndParse_heap h hparsed (Ne.symm hne.1) (Ne.symm hne.2.1) (Ne.symm hne.2.2)

/-- `elf_free` gives the three buffers back. -/
theorem elfFree_live {heap : HeapState} (h : KernelHeapInv heap) {elf : Elf} {a b c : Nat}
    {r : Nat × Nat} {l : List (Nat × Nat)}
    (hlive : heap.live = r :: (elf.stringsSection, c) :: (elf.programHeaders, b) ::
      (elf.sectionHeaders, a) :: l) :
    (elfFree heap elf).live = r :: l ∧ KernelHeapInv (elfFree heap elf) := by
  obtain ⟨hlive₁, h₁⟩ := h.kfree_append (l := [r, (elf.stringsSection, c), (elf.programHeaders, b)])
    hlive
  obtain ⟨hlive₂, h₂⟩ := h₁.kfree_append (l := [r, (elf.stringsSection, c)]) hlive₁
  exact h₂.kfree_append (l := [r]) hlive₂

/-- A job was started from a file: what became of the kernel.  `opened` and `live` are the inodes
    and the regions that were there before and still are. -/
structure JobStarted (st st' : SystemState) (opened : List OpenedInode) (live : List (Nat × Nat))
    (job pm initMem size : Nat) : Prop where
  fs : InodeInv st'.fs
  zone : st'.fs.zone = st.fs.zone
  opened : st'.fs.opened = opened
  live : st'.heap.live = (pm, sizeofPagingManager) :: (initMem, size) :: live
  table : ∃ mem entry sp name, slabAllocate st.table.jobSlab st.table.mem = .ok (job, mem) ∧
    st'.table = jobFill { st.table with mem := mem } job entry sp name pm
  managers : ∃ manager, st'.managers = Function.update st.managers pm manager
  current : st'.currentPagingManager = st.currentPagingManager
  ttbr0 : st'.ttbr0 = (st'.managers st.currentPagingManager).l1

/-- **`job_create_from_file` on the heap**, when there is room for all that it asks for: the data of
    the inode and the three buffers of the parser are given back, the buffer with the file is not. -/
theorem jobCreateFromFile_started (h : InodeInv st.fs) {l : OpenedInode} (hl : l ∈ st.fs.opened)
    {job name : Nat} {fatInode : FatInode}
    (hres : jobCreateFromFile volume garbage rounds st l.inode fatInode name = .ok (job, st'))
    (hall : st'.refusals = st.refusals) :
    ∃ pm initMem size, JobStarted st st' (st.fs.opened.filter (·.inode ≠ l.inode))
      (st.heap.live.filter (·.1 ≠ l.implInode)) job pm initMem size := by
  obtain ⟨initMem, st₁, elf, st₂, pm, n, st₃, table, hload, hparse, hprogram, hjob, rfl⟩ :=
    jobCreateFromFile_ok hres
  obtain ⟨size, bytes, fs, -, -, hinit, -, hclose, rfl⟩ := loadFile_ok hload
  have hinit0 := (parseElf_ok hparse).1
  have hopen : InodeInv (st.kalloc (toSize size)).2.fs := h.kalloc _
  have hfs : InodeInv fs := hopen.close hl hclose
  -- the file's buffer comes, the inode's data goes
  have hfile : fs.heap.live
      = (initMem, toSize size) :: st.heap.live.filter (·.1 ≠ l.implInode) := by
    obtain ⟨r, mem, -, rfl⟩ := closeInode_ok hclose
    have hnew : l.implInode ≠ initMem :=
      hinit ▸ h.heap.kalloc_fresh (hinit ▸ hinit0) _ (h.data l hl)
    show (HeapState.kfree (st.heap.kalloc (toSize size)).2 (st.fs.inodes l.inode).implInode).live = _
    rw [h.implInode l hl, HeapState.kfree_live, HeapState.kalloc_live,
      if_neg (show (st.heap.kalloc (toSize size)).1 ≠ 0 from hinit ▸ hinit0),
      List.filter_cons_of_pos (by simpa using Ne.symm (hinit ▸ hnew)), hinit]
    rfl
  obtain ⟨-, hpm, hpm0, manager, mem, read, dest, src, -, -, -, rfl⟩ := loadProgram_ok hprogram
  have hrefuse : st₂.refusals = (st.kalloc (toSize size)).2.refusals := by
    obtain ⟨-, _, -, -, -, hst₂⟩ := parseElf_ok hparse
    have hmore : (st.kalloc (toSize size)).2.refusals ≤ st₂.refusals := by
      rw [hst₂]
      exact Nat.le_add_right _ _
    have hless : st.refusals ≤ (st.kalloc (toSize size)).2.refusals := Nat.le_add_right _ _
    have hsum : st₂.refusals ≤ st.refusals := by
      rw [← hall]
      exact Nat.le_add_right _ _
    omega
  obtain ⟨h₂, a, b, c, hlive₂⟩ := parseElf_heap hparse hfs.heap hrefuse
  have hlive₃ : (st₂.heap.kalloc sizeofPagingManager).2.live
      = (pm, sizeofPagingManager) :: st₂.heap.live := by
    rw [hpm]
    exact (HeapState.kalloc_live _ _).trans (if_neg (hpm ▸ hpm0))
  rw [hlive₂] at hlive₃
  obtain ⟨hlive, hheap⟩ := elfFree_live (h₂.kalloc_inv sizeofPagingManager) hlive₃
  have hkeep : ∀ r ∈ fs.heap.live, r ∈ (elfFree (st₂.heap.kalloc sizeofPagingManager).2 elf).live := by
    intro r hr
    rw [hlive]
    exact List.mem_cons_of_mem _ hr
  obtain ⟨-, parsed, -, -, -, rfl⟩ := parseElf_ok hparse
  obtain ⟨mem₄, hslab, rfl⟩ := jobCreate_ok hjob
  refine ⟨pm, initMem, toSize size, ?_, ?_, ?_, ?_, ⟨mem₄, _, _, _, hslab, rfl⟩, ⟨manager, rfl⟩, rfl,
    rfl⟩
  · exact hfs.setHeap hheap (hkeep _ hfs.zone) fun l hl => hkeep _ (hfs.data l hl)
  · obtain ⟨r, mem, -, rfl⟩ := closeInode_ok hclose
    rfl
  · obtain ⟨r, mem, -, rfl⟩ := closeInode_ok hclose
    rfl
  · exact hlive.trans (congrArg _ hfile)

/-- Opening a file and starting it. -/
theorem fileStarted (h : InodeInv st.fs) {filename : Mem} {inode job name : Nat}
    {fatInode : FatInode} {st₁ : SystemState}
    (hopen : st.fatfsOpen volume garbage filename = .ok (inode, fatInode, st₁))
    (hcreate : jobCreateFromFile volume garbage rounds st₁ inode fatInode name = .ok (job, st'))
    (hall : st'.refusals = st.refusals) :
    ∃ pm initMem size, JobStarted st st' st.fs.opened st.heap.live job pm initMem size := by
  obtain ⟨fs, name, ext, hfs, -, rfl, -, rfl⟩ := SystemState.fatfsOpen_ok hopen
  obtain ⟨p, q, mem, heap, x, hslab, hkalloc, hq, himpl, hfill, rfl⟩ := fatfsOpen_ok hfs
  have hinv := h.opens hslab hkalloc hq himpl hfill
  obtain ⟨pm, initMem, size, hst⟩ :=
    jobCreateFromFile_started hinv (l := ⟨p, .fat, q⟩) List.mem_cons_self hcreate hall
  -- the inode that was opened is the one that was closed
  have hopened : st'.fs.opened = st.fs.opened := by
    rw [hst.opened, List.filter_cons_of_neg (by simp)]
    refine List.filter_eq_self.mpr fun l hl => decide_eq_true fun heq => ?_
    exact (List.nodup_cons.mp hinv.slab.nodup).1 (List.mem_map.mpr ⟨l, hl, heq⟩)
  have hdata : heap.live = (q, sizeofFatInode) :: st.heap.live := by
    have hlive := HeapState.kalloc_live st.heap sizeofFatInode
    rw [show st.heap.kalloc sizeofFatInode = (q, heap) from hkalloc] at hlive
    exact hlive.trans (if_neg hq)
  have hclosed := (hinv.heap.kfree_append (l := []) hdata).1
  rw [HeapState.kfree_live, List.nil_append] at hclosed
  exact ⟨pm, initMem, size, hst.fs, hst.zone, hopened,
    hst.live.trans (congrArg _ (congrArg _ hclosed)), hst.table, hst.managers, hst.current, hst.ttbr0⟩

/-- **A spawn on the heap**: the copy of the name and the inode are given back too. -/
theorem spawn_started (h : InodeInv st.fs) {filename : List Byte}
    (hres : exceptionsInternalSpawn volume garbage rounds st filename = .ok st')
    (hall : st'.refusals = st.refusals) :
    ∃ job pm initMem size, JobStarted st st' st.fs.opened st.heap.live job pm initMem size := by
  obtain ⟨hcopy, inode, fatInode, st₁, job, st₂, hopen, hcreate, rfl⟩ :=
    exceptionsInternalSpawn_ok hres
  have hrefuse : st₂.refusals = (st.withName filename).refusals := by
    have hnone : (st.withName filename).refusals = st.refusals :=
      SystemState.kalloc_refusals hcopy
    rw [hnone]
    exact hall
  have hname : InodeInv (st.withName filename).fs := h.kalloc _
  obtain ⟨pm, initMem, size, hst⟩ := fileStarted hname hopen hcreate hrefuse
  have hcopied : (st.withName filename).heap.live
      = ((st.kalloc (filename.length + 1)).1, filename.length + 1) :: st.heap.live :=
    (HeapState.kalloc_live _ _).trans (if_neg hcopy)
  obtain ⟨hlive, hheap⟩ := hst.fs.heap.kfree_append (l := [_, _])
    (hst.live.trans (congrArg _ (congrArg _ hcopied)))
  have hkeep : ∀ r ∈ st.heap.live, r ∈ (st₂.heap.kfree (st.kalloc (filename.length + 1)).1).live := by
    intro r hr
    show r ∈ (HeapState.kfree st₂.fs.heap _).live
    rw [hlive]
    exact List.mem_cons_of_mem _ (List.mem_cons_of_mem _ hr)
  refine ⟨job, pm, initMem, size, ?_, hst.zone, hst.opened, hlive, hst.table, hst.managers,
    hst.current, hst.ttbr0⟩
  refine hst.fs.setHeap hheap (hkeep _ ?_) fun l hl => hkeep _ (h.data l (hst.opened ▸ hl))
  rw [hst.zone]
  exact h.zone

end Heap

end TinyKernel
