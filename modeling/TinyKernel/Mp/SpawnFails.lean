/-
  Programs that cannot be started.

  Neither `exceptions_internal_spawn` nor `job_create_from_file` has a way to say no.  A directory
  entry that was not found, a header that was rejected, a program header that is not there and an
  allocation that failed are all the same pointer, `NULL`, and it is used: a call that returns has
  created a job (`jobCreateFromFile_creates`).  So whenever nothing should be started

  * because the request names nothing that could be loaded (`spawn_fails_cleanly_iff`), or
  * because an allocator cannot satisfy a request (`spawn_all_or_nothing_iff`),

  the kernel does not come back with nothing done.

  The requests are those of the whole call, in the order in which they are made: the buffer for the
  file; while it is read, a buffer for a cluster (`fat_read_entry_offset_size`) and in it, for each
  sector, a `Sync_read` (`disk_create_request_sync`), given back before the next; the parser's
  buffers and the paging manager, once the inode is closed; frames, translation tables and a slot
  for the job.  `jobCreateFromFile`, which the machines of this development run, takes the two blocks
  of the reading as granted: they are given back before the heap is used again, so that they leave
  no trace in its state.  `jobCreateFromFileReading` is the call with them.
-/
import TinyKernel.Device.Virtioblk
import TinyKernel.Mp.SpawnRoom

namespace TinyKernel

/-- No job was created or deleted, and no address space applied. -/
structure NothingStarted (st st' : SystemState) : Prop where
  log : st'.table.log = st.table.log
  jobs : st'.table.jobs = st.table.jobs
  current : st'.table.currentJob = st.table.currentJob
  manager : st'.currentPagingManager = st.currentPagingManager
  ttbr0 : st'.ttbr0 = st.ttbr0

/-! ## Requests for what is not a program -/

/-- One of these requests to `kalloc`, made one after the other, is refused. -/
def HeapState.Refuses : HeapState → List Nat → Prop
  | _, [] => False
  | heap, size :: sizes =>
    size ≠ 0 ∧ (heap.kalloc size).1 = 0 ∨ Refuses (heap.kalloc size).2 sizes

/-- Whether a request is refused can be tried out. -/
instance HeapState.decidableRefuses : ∀ (heap : HeapState) (sizes : List Nat),
    Decidable (heap.Refuses sizes)
  | _, [] => inferInstanceAs (Decidable False)
  | heap, size :: sizes =>
    have := HeapState.decidableRefuses (heap.kalloc size).2 sizes
    inferInstanceAs (Decidable (size ≠ 0 ∧ (heap.kalloc size).1 = 0 ∨ _))

/-- What is asked of `kalloc` while a file is read: the buffer of `fat_read_entry_offset_size`, and
    in it the `Sync_read` of `disk_create_request_sync`.  Both are freed before the next read, so
    that every read makes these requests of the same heap. -/
def readRequests (volume : Volume) : List Nat := [fatGetClusterSize volume.handle, syncReadSize]

/-- `job_create_from_file` with the blocks that reading the file takes from the heap.  Neither
    `kalloc` is checked: the cluster is read to the buffer, and `sync->done` is written, wherever
    they are.  Of an empty file nothing is read. -/
def jobCreateFromFileReading (volume : Volume) (garbage : Garbage) (rounds : Nat) (st : SystemState)
    (inode : Nat) (fatInode : FatInode) (name : Nat) : Except Fault (Nat × SystemState) := do
  let fileSize ← fatfsLeft fatInode
  -- the buffer for the file is allocated before the first byte is read
  if fileSize ≠ 0 ∧ (st.heap.kalloc (toSize fileSize)).2.Refuses (readRequests volume) then
    throw .nullPointer
  jobCreateFromFile volume garbage rounds st inode fatInode name

/-- A call that returns is one whose reads were granted. -/
theorem jobCreateFromFileReading_ok {volume : Volume} {garbage : Garbage} {rounds inode name : Nat}
    {st : SystemState} {fatInode : FatInode} {r : Nat × SystemState}
    (h : jobCreateFromFileReading volume garbage rounds st inode fatInode name = .ok r) :
    jobCreateFromFile volume garbage rounds st inode fatInode name = .ok r := by
  unfold jobCreateFromFileReading at h
  cases hleft : fatfsLeft fatInode with
  | error e =>
    rw [hleft] at h
    cases h
  | ok fileSize =>
    simp only [hleft, ok_bind] at h
    split at h
    · cases h
    · exact h

/-- When the reads are granted, the call is the one that the machines run. -/
theorem jobCreateFromFileReading_of_granted {volume : Volume} {garbage : Garbage}
    {rounds inode name : Nat} {st : SystemState} {fatInode : FatInode} {fileSize : Int}
    (hleft : fatfsLeft fatInode = .ok fileSize)
    (hgranted : ¬ (st.heap.kalloc (toSize fileSize)).2.Refuses (readRequests volume)) :
    jobCreateFromFileReading volume garbage rounds st inode fatInode name
      = jobCreateFromFile volume garbage rounds st inode fatInode name := by
  rw [jobCreateFromFileReading, hleft, ok_bind, if_neg fun h => hgranted h.2]

/-- What is asked of `kalloc` once the file has been read: the parser's buffers and the paging
    manager.  Without section names the parser asks for -1 bytes. -/
def parseRequests (file : Mem) : List Nat :=
  [sizeofShdr * eShnum file, sizeofPhdr * ePhnum file,
    if eShstrndx file < eShnum file then namesSize file else toSize (-1), sizeofPagingManager]

/-- The pages that the program needs. -/
def programPages (file : Mem) : Nat := jobPages (toInt32 (pMemsz file (ePhoff file)))

/-- An allocator cannot satisfy a request of `job_create_from_file` for the file of `len` bytes on
    `volume` that is open as `inode`. -/
inductive RequestFails (volume : Volume) (st : SystemState) (inode : Nat) (file : Mem) (len : Nat) :
    Prop
  /-- The buffer for the file. -/
  | buffer (h : st.heap.Refuses [len])
  /-- The blocks that each read of it needs. -/
  | reading (hlen : 0 < len) (h : (st.heap.kalloc len).2.Refuses (readRequests volume))
  /-- The other blocks of the heap.  The inode is closed before. -/
  | heap (h : ((st.heap.kalloc len).2.kfree (st.fs.inodes inode).implInode).Refuses
      (parseRequests file))
  | frames (h : userSpace.freeSlots st.mem < programPages file)
  /-- The root, and what the pages need. -/
  | tables (h : st.tables.freeSlots st.mem < 1 + pageTablesFrom 0 (programPages file))
  | job (h : st.table.jobSlab.freeSlots st.table.mem = 0)

/-- What EL0 reaches through this manager is backed by frames that are in use. -/
def PagesBacked (m : Mem) (manager : PagingManager) : Prop :=
  ∀ va tr, translate m manager.l1 va = some tr → tr.ap1 = true →
    ∃ k, k < 0x1000 ∧ userSpace.used m k = true ∧ userSpace.slotAddr k ≤ tr.pa ∧
      tr.pa < userSpace.slotAddr k + 0x1000

/-- The call returns without having written through `NULL`, no job was added, the others are as they
    were, and no user page was mapped to anything but a frame. -/
def StartsNothing (volume : Volume) (garbage : Garbage) (st : SystemState) (inode : Nat)
    (fatInode : FatInode) (name : Nat) : Prop :=
  ∃ job st', Returns (fun rounds =>
      jobCreateFromFileReading volume garbage rounds st inode fatInode name) (job, st') ∧
    NothingStarted st st' ∧
    ∀ pm, st'.managers pm ≠ st.managers pm → PagesBacked st'.mem (st'.managers pm)

theorem not_startsNothing (volume : Volume) (garbage : Garbage) (st : SystemState) (inode : Nat)
    (fatInode : FatInode) (name : Nat) :
    ¬ StartsNothing volume garbage st inode fatInode name := by
  rintro ⟨job, st', ⟨enough, hret⟩, hnothing, -⟩
  have hlog := jobCreateFromFile_creates (jobCreateFromFileReading_ok (hret enough (Nat.le_refl _)))
  rw [hnothing.log] at hlog
  exact List.cons_ne_self _ _ hlog.symm

/-- **Spawning when memory runs out.**  In every state and for every file: nothing is started in case
    one of the allocators cannot satisfy a request, if and only if they all can. -/
theorem spawn_all_or_nothing_iff (volume : Volume) (garbage : Garbage) (st : SystemState)
    (inode : Nat) (fatInode : FatInode) (name : Nat) (file : Mem) (len : Nat) :
    (RequestFails volume st inode file len → StartsNothing volume garbage st inode fatInode name) ↔
      ¬ RequestFails volume st inode file len := by
  constructor
  · intro hnothing hfails
    exact not_startsNothing volume garbage st inode fatInode name (hnothing hfails)
  · intro hall hfails
    exact absurd hfails hall

/-! ### A program that is too large -/

/-- The disk with the small program, whose `p_memsz` is now 16 MiB more. -/
def largeDisk : Disk := Function.update (programDisk 4) 1643 1

@[irreducible] def largeHandle : FatHandle :=
  (fatLoad largeDisk (fun _ => 0) (fun _ => 0) (fun _ => 0)).toOption.getD
    ⟨⟨0, 0, 0, 0, 0, 0, 0, 0⟩, 0, 0, 0, fun _ => 0, 0, 0, fun _ => 0, 0⟩

def largeVolume : Volume := ⟨largeDisk, largeHandle⟩

/-- The bytes of the file. -/
def largeBytes : Mem := fun i => largeDisk (1536 + 512 * ([2].getD (i / 512) 0 - 2) + i % 512)

theorem largeVolume_checks : LayoutChecks largeDisk largeHandle ∧ TableChecks largeBytes ∧
    jobPages (pMemsz largeBytes (ePhoff largeBytes)) = 4098 ∧
    pMemsz largeBytes (ePhoff largeBytes) < 2147483648 := by
  decide +kernel

theorem largeVolume_layout : ProgramLayout largeVolume := by
  refine largeVolume_checks.1.layout fun hok => ?_
  unfold largeHandle
  exact fatLoad_getD hok

theorem largeFile_eq : largeVolume.file [2] = largeBytes := largeVolume_layout.file_eq

theorem largeFile_elf64 : Elf64 (largeVolume.file [2]) 188 := by
  rw [largeFile_eq]
  exact largeVolume_checks.2.1.elf64

/-- The first program of the kernel needs 4098 pages, and there are 4096 frames. -/
theorem spawn_of_large_program : ∃ st inode,
    JobCreateCall largeVolume noGarbage st inode (fatfsInode (some ⟨2, 188⟩) fun _ => 0) 0 ∧
    largeVolume.Loaded ∧ FileChain largeVolume.handle ⟨2, 188⟩ [2] ∧ Elf64 (largeVolume.file [2]) 188 ∧
    RequestFails largeVolume st inode (largeVolume.file [2]) 188 ∧
    ¬ StartsNothing largeVolume noGarbage st inode (fatfsInode (some ⟨2, 188⟩) fun _ => 0) 0 := by
  have hpages := largeVolume_checks.2.2
  obtain ⟨heap, inodes, jobs, tables, hboot⟩ := bootHeap_exists
  obtain ⟨inode, st, hopen, -, hmem, -⟩ := hboot.openedFile largeVolume_layout.found
  refine ⟨st, inode, .usermode (.start hboot.booted) hopen, largeVolume_layout.loaded,
    largeVolume_layout.chain, largeFile_elf64, .frames ?_, not_startsNothing _ _ _ _ _ _⟩
  rw [hmem, userSpace.freeSlots_of_clear (fun k _ => by simp [Slab.used, bitAt]), programPages,
    largeFile_eq, toInt32_of_range (by omega) (by omega), hpages.1]
  decide

end TinyKernel
