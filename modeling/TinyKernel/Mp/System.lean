/-
  The kernel as one system: programs started, files opened, jobs terminated and scheduled.

  `systemMachine` runs from the end of the boot.  `usermode` starts the first program; from then on
  things happen at EL0: the timer fires, and the current job makes system calls.  Between them
  programs write to their frames.  Every spawn of a run finds the memory it asks for.

  `job_delete` gives the paging manager of a deleted job back to the heap.  The job table does not
  know the heap; its log says which managers were freed, and `SystemState.jobForward` frees them.

  `SystemInv` is the invariant: the ring, the inodes and the heap are in order, every job of the
  ring has a paging manager of its own in a live region of the heap, and the address spaces are
  those of `SpacesInv`.

  The machine has one event for each way into the kernel, and one for what programs do in between.
  They share the state: a spawn, for example, takes a string, an inode and its data, a buffer for the
  file, the three buffers of the parser, a paging manager, tables, frames and a job, and gives back all
  but the buffer for the file, the manager and what belongs to the job.  So the invariant is about who
  owns what on the heap: a region is a manager of a job, the data of an open inode, or nobody's
  (`Unowned`), and a step that frees a region frees what it owns.

  That the active address space is always that of the current job (`ActivePaging`) needs two things of
  the order of calls.  The context switch applies the manager of the job it has switched to, after
  `job_forward`, which may have freed managers of jobs it passed, but not that one.  And
  `job_create_from_file` applies the new job's manager to fill its frames, and the caller's again
  before it returns.
-/
import TinyKernel.Mp.SchedRun
import TinyKernel.Mp.SpawnMem

namespace TinyKernel

/-! ## The source -/

/-- The manager that a deletion gave to `kfree`. -/
def JobAction.freed : JobAction → Option Nat
  | .created _ => none
  | .deleted _ _ paging => some paging

/-- The managers that were given to `kfree` from `log` to `log'`, in order. -/
def freedManagers (log log' : List JobAction) : List Nat :=
  ((log'.take (log'.length - log.length)).filterMap JobAction.freed).reverse

namespace SystemState

/-- `job_forward`, with the `kfree(job->paging)` of the jobs that it deletes. -/
def jobForward (rounds : Nat) (st : SystemState) : Except Fault SystemState := do
  let table ← TinyKernel.jobForward rounds st.table
  let heap := (freedManagers st.table.log table.log).foldl HeapState.kfree st.heap
  return { st.setHeap heap with table := table }

/-- `internal_handler`, with the registers of the job that was interrupted. -/
def internalHandler (rounds : Nat) (st : SystemState) (c : Cpu) : Except Fault SystemState := do
  let st ← jobForward rounds { st with table := savedTable st.table c }
  return (st.pagingManagerApply (st.table.jobs st.table.currentJob).paging).2

end SystemState

/-- `exceptions_internal_open`, for the string `filename` that x0 points to. -/
def exceptionsInternalOpen (volume : Volume) (garbage : Garbage) (rounds : Nat) (st : SystemState)
    (filename : List Byte) : Except Fault SystemState := do
  let (inode, _, st) ← st.fatfsOpen volume garbage fun i => (filename ++ [0]).getD i 0
  let (_, job) ← jobAddFile rounds (st.table.jobs st.table.currentJob) inode
  return { st with table := st.table.setJob st.table.currentJob fun _ => job }

/-- The end of `usermode`: the first program is started and resumed. -/
def usermode (volume : Volume) (garbage : Garbage) (rounds : Nat) (st : SystemState)
    (filename : Mem) (name : Nat) : Except Fault SystemState := do
  let (inode, fatInode, st) ← st.fatfsOpen volume garbage filename
  let (_, st) ← jobCreateFromFile volume garbage rounds st inode fatInode name
  -- `sysutils_jump_eret_usermode(job_get_current())`
  return (st.pagingManagerApply (st.table.jobs st.table.currentJob).paging).2

/-! ## Runs -/

/-- What happens to the kernel. -/
inductive SystemEvent
  | usermode (garbage : Garbage) (filename : Mem) (name : Nat)
  /-- The timer interrupts the current job, which has these registers. -/
  | timer (c : Cpu)
  /-- The system calls 22, 20 and 10 of the current job. -/
  | spawn (garbage : Garbage) (filename : List Byte)
  | open (garbage : Garbage) (filename : List Byte)
  | terminate
  /-- Programs write to the frames of the user zone. -/
  | user (mem : Mem)

/-- The events that start a program. -/
def SystemEvent.starts : SystemEvent → Bool
  | .usermode .. | .spawn .. => true
  | _ => false

/-- One event.  At EL0 there is a current job. -/
def SystemStep (volume : Volume) (st : SystemState) : SystemEvent → SystemState → Prop
  | .usermode garbage filename name, st' => st.table.currentJob = 0 ∧
      Returns (fun rounds => usermode volume garbage rounds st filename name) st' ∧
      st'.refusals = st.refusals
  | .timer c, st' => SomeRunning st.table ∧
      Returns (fun rounds => st.internalHandler rounds c) st'
  | .spawn garbage filename, st' => st.table.currentJob ≠ 0 ∧
      Returns (fun rounds => exceptionsInternalSpawn volume garbage rounds st filename) st' ∧
      st'.refusals = st.refusals
  | .open garbage filename, st' => st.table.currentJob ≠ 0 ∧
      Returns (fun rounds => exceptionsInternalOpen volume garbage rounds st filename) st'
  | .terminate, st' => st.table.currentJob ≠ 0 ∧ st' = { st with table := jobTerminate st.table }
  | .user mem, st' => (∀ x, x < 0x80000000 ∨ 0x81000000 ≤ x → mem x = st.mem x) ∧
      st' = { st with mem := mem }

/-- The argument of `job_init_slab`, `sizeof(union page_table_store)` and `PAGING_MAX_TABLES`. -/
def maxJobs : Nat := 128
def sizeofPageTable : Nat := 4096
def pagingMaxTables : Nat := 0x1000

/-- The kernel when `start` calls `usermode`, with its filesystem in place: the slabs are in their
    regions of the heap, no inode is open and there is no job. -/
structure SystemBooted (st : SystemState) : Prop where
  fs : inodeMachine.start st.fs
  jobs : ∃ zone, (zone, slabGetNeededSize jobStructSize maxJobs) ∈ st.heap.live ∧
    (jobMachine maxJobs zone).start st.table
  tables : ∃ zone, (zone, slabGetNeededSize sizeofPageTable pagingMaxTables) ∈ st.heap.live ∧
    st.tables = createdSlab sizeofPageTable pagingMaxTables zone

/-- Runs of the kernel. -/
def systemMachine (volume : Volume) : Machine SystemState SystemEvent where
  start := SystemBooted
  step := SystemStep volume

/-! ## The invariant -/

/-- The applied address space is that of the current job, and its manager has not been freed. -/
structure ActivePaging (st : SystemState) : Prop where
  ttbr0 : st.ttbr0 = (st.managers (st.table.jobs st.table.currentJob).paging).l1
  manager : st.currentPagingManager = (st.table.jobs st.table.currentJob).paging
  live : ((st.table.jobs st.table.currentJob).paging, sizeofPagingManager) ∈ st.heap.live

/-- The paging manager of the job at `q`. -/
def SystemState.managerOf (st : SystemState) (q : Nat) : Nat := (st.table.jobs q).paging

/-- The invariant, with the ring as a list. -/
structure SystemInv (s : Slab) (st : SystemState) (order : List Nat) : Prop where
  placed : s.Placed
  fs : InodeInv st.fs
  jobs : JobInv s st.table order
  /-- Every job has a manager of its own, which is nothing else. -/
  managers : ∀ q ∈ order, (st.managerOf q, sizeofPagingManager) ∈ st.heap.live
  distinct : (order.map st.managerOf).Nodup
  inodes : ∀ q ∈ order, ∀ l ∈ st.fs.opened, l.implInode ≠ st.managerOf q
  spaces : ∃ role spaces, SpacesInv st role spaces

/-- The manager of the job at `q` is applied. -/
def SystemState.Applied (st : SystemState) (q : Nat) : Prop :=
  st.currentPagingManager = st.managerOf q ∧ st.ttbr0 = (st.managers (st.managerOf q)).l1

/-- A region of the heap that is no job's manager and no open file's data. -/
structure Unowned (st : SystemState) (order : List Nat) (r : Nat × Nat) : Prop where
  live : r ∈ st.heap.live
  manager : ∀ q ∈ order, r.1 ≠ st.managerOf q
  data : ∀ l ∈ st.fs.opened, r.1 ≠ l.implInode

/-- A change that keeps the heap, the inodes and the managers. -/
theorem Unowned.congr {st st' : SystemState} {order : List Nat} {r : Nat × Nat}
    (h : Unowned st order r) (hfs : st'.fs = st.fs)
    (hmanager : ∀ q, st'.managerOf q = st.managerOf q) : Unowned st' order r where
  live := by
    have hheap : st'.heap = st.heap := congrArg InodeState.heap hfs
    rw [hheap]
    exact h.live
  manager := fun q hq => by
    rw [hmanager]
    exact h.manager q hq
  data := fun l hl => h.data l (hfs ▸ hl)

/-- A live region is a good place for the table slab. -/
theorem tableSlab_of_live {heap : HeapState} (h : KernelHeapInv heap) {zone : Nat}
    (hz : (zone, slabGetNeededSize sizeofPageTable pagingMaxTables) ∈ heap.live) :
    TableSlab (createdSlab sizeofPageTable pagingMaxTables zone) ∧
      (createdSlab sizeofPageTable pagingMaxTables zone).headerSize + 4096 * 0x1000
        ≤ slabGetNeededSize sizeofPageTable pagingMaxTables := by
  have hheader : slabGetHeaderSize sizeofPageTable pagingMaxTables = 4096 := by decide +kernel
  have hsize : slabGetNeededSize sizeofPageTable pagingMaxTables = 4096 + 4096 * 0x1000 := by
    rw [slabGetNeededSize_eq (by rw [hheader]; decide), hheader]
    rfl
  have hin := (h.inside hz).2
  have haligned : zone % 4096 = 0 := by
    obtain ⟨i, hi, -⟩ := h.holds.marked _ hz
    rw [h.start] at hi
    simp only at hi
    omega
  rw [hsize] at hin ⊢
  simp only [createdSlab, hheader]
  simp only [sizeofPageTable, pagingMaxTables] at *
  refine ⟨⟨⟨?_, ?_, ?_, ?_, ?_⟩, rfl, ?_, ?_⟩, Nat.le_refl _⟩ <;> simp only <;> omega

/-- It holds at the end of the boot, without jobs. -/
theorem SystemBooted.inv {st : SystemState} (h : SystemBooted st) : ∃ s, SystemInv s st [] := by
  obtain ⟨zone, hzone, hjobs⟩ := h.jobs
  obtain ⟨zone', hzone', htables⟩ := h.tables
  have hfs := InodeInv.start h.fs
  have hin := (hfs.heap.inside hzone).2
  have hp : (jobSlabOf maxJobs zone).Placed :=
    slabCreate_placed (fun _ => 0) (by decide) (by decide) jobSlab_checks.1
      (Nat.le_trans hin (by decide))
  obtain ⟨hslab, hsize⟩ := tableSlab_of_live hfs.heap hzone'
  refine ⟨jobSlabOf maxJobs zone, hp, hfs, JobInv.start hp hjobs, ?_, List.nodup_nil, ?_,
    ⟨fun _ => none, [], ?_, ?_, JobsInv.empty _ _⟩⟩
  · exact fun _ hq => absurd hq List.not_mem_nil
  · exact fun _ hq => absurd hq List.not_mem_nil
  · rw [htables]
    exact hslab
  · rw [htables]
    exact ⟨_, hzone', hsize⟩

/-! ## Each event keeps it -/

/-- What opening a file has done. -/
theorem exceptionsInternalOpen_ok {volume : Volume} {garbage : Garbage} {rounds : Nat}
    {st st' : SystemState} {filename : List Byte}
    (h : exceptionsInternalOpen volume garbage rounds st filename = .ok st') :
    ∃ fs files count, st.fs.fatfsOpen = .ok fs ∧ st' = { st with
      fs := fs
      table := st.table.setJob st.table.currentJob fun j =>
        { j with openFiles := files, openFilesCount := count } } := by
  obtain ⟨⟨inode, fatInode, st₁⟩, hopen, h⟩ := bind_eq_ok h
  obtain ⟨⟨fd, job⟩, hadd, h⟩ := bind_eq_ok h
  obtain rfl := Except.ok.inj h
  obtain ⟨fs, name, ext, hfs, -, -, -, rfl⟩ := SystemState.fatfsOpen_ok hopen
  obtain ⟨files, count, rfl⟩ := jobAddFile_ok hadd
  exact ⟨fs, files, count, hfs, rfl⟩

namespace SystemInv

variable {volume : Volume} {s : Slab} {st st' : SystemState} {order : List Nat}

/-- A change that keeps the heap, the inodes, the ring and the address spaces. -/
theorem congr (h : SystemInv s st order) (hfs : st'.fs = st.fs) (hjobs : JobInv s st'.table order)
    (hmanager : ∀ q, st'.managerOf q = st.managerOf q)
    (hspaces : ∃ role spaces, SpacesInv st' role spaces) : SystemInv s st' order := by
  have hheap : st'.heap = st.heap := congrArg InodeState.heap hfs
  refine ⟨h.placed, hfs ▸ h.fs, hjobs, ?_, ?_, ?_, hspaces⟩
  · intro q hq
    rw [hmanager, hheap]
    exact h.managers q hq
  · rw [funext hmanager]
    exact h.distinct
  · intro q hq l hl
    rw [hmanager]
    exact h.inodes q hq l (hfs ▸ hl)

/-- Applying a manager. -/
theorem apply (h : SystemInv s st order) (pm : Nat) :
    SystemInv s (st.pagingManagerApply pm).2 order := by
  obtain ⟨role, spaces, hspaces⟩ := h.spaces
  exact h.congr rfl h.jobs (fun _ => rfl)
    ⟨role, spaces, hspaces.slab, hspaces.zone, hspaces.spaces⟩

/-- A program was started. -/
theorem started (h : SystemInv s st order) {job pm initMem size : Nat}
    (hst : JobStarted st st' st.fs.opened st.heap.live job pm initMem size)
    (hspaces : st'.tables = st.tables ∧
      ∃ role space spaces, JobsInv st'.tables st'.mem role (space :: spaces)) :
    SystemInv s st' (insertSecond job order) ∧ job ∉ order ∧ st'.managerOf job = pm ∧
      ∀ q ∈ order, st'.managerOf q = st.managerOf q := by
  obtain ⟨mem, entry, sp, name, hslab, htable⟩ := hst.table
  obtain ⟨hjobs, hnew⟩ := h.jobs.filled h.placed hslab entry sp name pm
  rw [← htable] at hjobs
  have hmanager : ∀ q, st'.managerOf q = if q = job then pm else st.managerOf q := by
    intro q
    rw [SystemState.managerOf, htable]
    exact jobFill_paging ..
  have hself : st'.managerOf job = pm := (hmanager job).trans (if_pos rfl)
  have hother : ∀ q ∈ order, st'.managerOf q = st.managerOf q := by
    intro q hq
    refine (hmanager q).trans (if_neg ?_)
    rintro rfl
    exact hnew hq
  -- the new manager is none of the old regions
  have hfresh : ∀ a ∈ st.heap.live, a.1 ≠ pm := by
    intro a ha heq
    have hnodup := hst.fs.heap.ptr_nodup
    rw [show st'.fs.heap.live = _ from hst.live, List.map_cons, List.nodup_cons] at hnodup
    exact hnodup.1 (List.mem_map.mpr ⟨a, List.mem_cons_of_mem _ ha, heq⟩)
  have hkeep : ∀ a ∈ st.heap.live, a ∈ st'.heap.live := by
    intro a ha
    rw [hst.live]
    exact List.mem_cons_of_mem _ (List.mem_cons_of_mem _ ha)
  refine ⟨⟨h.placed, hst.fs, hjobs, ?_, ?_, ?_, ?_⟩, hnew, hself, hother⟩
  · intro q hq
    rcases mem_insertSecond.mp hq with rfl | hq
    · rw [hself, hst.live]
      exact List.mem_cons_self
    · rw [hother q hq]
      exact hkeep _ (h.managers q hq)
  · refine ((insertSecond_perm job order).map _).nodup_iff.mpr ?_
    rw [List.map_cons, List.nodup_cons, List.map_congr_left hother, hself]
    refine ⟨fun hm => ?_, h.distinct⟩
    obtain ⟨q, hq, heq⟩ := List.mem_map.mp hm
    exact hfresh _ (h.managers q hq) heq
  · intro q hq l hl
    rw [hst.opened] at hl
    rcases mem_insertSecond.mp hq with rfl | hq
    · rw [hself]
      exact hfresh _ (h.fs.data l hl)
    · rw [hother q hq]
      exact h.inodes q hq l hl
  · obtain ⟨htables, role, space, spaces, hinv⟩ := hspaces
    obtain ⟨_, _, hold⟩ := h.spaces
    obtain ⟨size, hlive, hsize⟩ := hold.zone
    exact ⟨role, space :: spaces, htables ▸ hold.slab, ⟨size, htables ▸ hkeep _ hlive,
      htables ▸ hsize⟩, hinv⟩

/-- Starting a program leaves what belongs to nobody alone, and adds to it: the file's buffer. -/
theorem started_unowned (h : SystemInv s st order) {job pm initMem size : Nat}
    (hst : JobStarted st st' st.fs.opened st.heap.live job pm initMem size)
    (hself : st'.managerOf job = pm) (hother : ∀ q ∈ order, st'.managerOf q = st.managerOf q) :
    (∀ r, Unowned st order r → Unowned st' (insertSecond job order) r) ∧
      ∃ r, r ∉ st.heap.live ∧ Unowned st' (insertSecond job order) r := by
  have hnodup := hst.fs.heap.ptr_nodup
  rw [show st'.fs.heap.live = _ from hst.live, List.map_cons, List.map_cons, List.nodup_cons,
    List.nodup_cons, List.mem_cons, not_or] at hnodup
  obtain ⟨⟨hapart, hpm⟩, hinit, -⟩ := hnodup
  have hold : ∀ a ∈ st.heap.live, a.1 ≠ pm ∧ a.1 ≠ initMem := fun a ha =>
    ⟨fun heq => hpm (List.mem_map.mpr ⟨a, ha, heq⟩),
      fun heq => hinit (List.mem_map.mpr ⟨a, ha, heq⟩)⟩
  constructor
  · intro r hr
    refine ⟨?_, fun q hq => ?_, hst.opened ▸ hr.data⟩
    · rw [hst.live]
      exact List.mem_cons_of_mem _ (List.mem_cons_of_mem _ hr.live)
    · rcases mem_insertSecond.mp hq with rfl | hq
      · rw [hself]
        exact (hold r hr.live).1
      · rw [hother q hq]
        exact hr.manager q hq
  · refine ⟨(initMem, size), fun hin => (hold _ hin).2 rfl, ?_, fun q hq => ?_, fun l hl => ?_⟩
    · rw [hst.live]
      exact List.mem_cons_of_mem _ List.mem_cons_self
    · rcases mem_insertSecond.mp hq with rfl | hq
      · rw [hself]
        exact Ne.symm hapart
      · rw [hother q hq]
        exact Ne.symm (hold _ (h.managers q hq)).2
    · rw [hst.opened] at hl
      exact Ne.symm (hold _ (h.fs.data l hl)).2

/-- The first program. -/
theorem usermode (h : SystemInv s st []) {garbage : Garbage} {filename : Mem} {name : Nat}
    (hstep : SystemStep volume st (.usermode garbage filename name) st') :
    ∃ job, SystemInv s st' [job] ∧ st'.Applied job ∧ st'.table.status job = .running ∧
      (∀ r, Unowned st [] r → Unowned st' [job] r) ∧
      ∃ r, r ∉ st.heap.live ∧ Unowned st' [job] r := by
  obtain ⟨-, ⟨enough, hret⟩, hall⟩ := hstep
  obtain ⟨⟨inode, fatInode, st₁⟩, hopen, hres⟩ := bind_eq_ok (hret enough (Nat.le_refl _))
  obtain ⟨⟨job, st₂⟩, hcreate, hres⟩ := bind_eq_ok hres
  obtain rfl := Except.ok.inj hres
  obtain ⟨pm, initMem, size, hst⟩ := fileStarted h.fs hopen hcreate hall
  obtain ⟨role, spaces, hspaces⟩ := h.spaces
  obtain ⟨htables, role', space, hspaces'⟩ := fileSpaces h.fs hspaces hopen hcreate
  obtain ⟨hinv, -, hself, hother⟩ := h.started hst ⟨htables, role', space, spaces, hspaces'⟩
  obtain ⟨hkeep, r, hnew, hr⟩ := h.started_unowned hst hself hother
  have hcur : st₂.table.currentJob = job := hinv.jobs.current_eq
  refine ⟨job, hinv.apply _, ⟨?_, ?_⟩, ?_, fun r hr => ?_, r, hnew, ?_⟩
  · rw [← hcur]
    rfl
  · rw [← hcur]
    rfl
  · obtain ⟨mem, entry, sp, name, -, htable⟩ := hst.table
    show st₂.table.status job = .running
    rw [htable, jobFill_status, if_pos rfl]
  · exact (hkeep r hr).congr rfl fun _ => rfl
  · exact hr.congr rfl fun _ => rfl

/-- A spawn. -/
theorem spawn {a : Nat} {l : List Nat} (h : SystemInv s st (a :: l)) (happ : st.Applied a)
    {garbage : Garbage} {filename : List Byte}
    (hstep : SystemStep volume st (.spawn garbage filename) st') :
    ∃ job, SystemInv s st' (a :: job :: l) ∧ st'.Applied a ∧
      (∀ r, Unowned st (a :: l) r → Unowned st' (a :: job :: l) r) ∧
      ∃ r, r ∉ st.heap.live ∧ Unowned st' (a :: job :: l) r := by
  obtain ⟨-, ⟨enough, hret⟩, hall⟩ := hstep
  have hres := hret enough (Nat.le_refl _)
  obtain ⟨job, pm, initMem, size, hst⟩ := spawn_started h.fs hres hall
  obtain ⟨role, spaces, hspaces⟩ := h.spaces
  obtain ⟨htables, role', space, hspaces'⟩ := spawn_spaces h.fs hspaces hres
  obtain ⟨hinv, -, hself, hother⟩ := h.started hst ⟨htables, role', space, spaces, hspaces'⟩
  refine ⟨job, hinv, ⟨?_, ?_⟩, h.started_unowned hst hself hother⟩
  · rw [hst.current, hother a List.mem_cons_self]
    exact happ.1
  · rw [hst.ttbr0, hother a List.mem_cons_self, happ.1]

/-- A file is opened. -/
theorem openFile (h : SystemInv s st order) {garbage : Garbage} {filename : List Byte} {rounds : Nat}
    (hres : exceptionsInternalOpen volume garbage rounds st filename = .ok st') :
    SystemInv s st' order ∧ (∀ q, st'.managerOf q = st.managerOf q) ∧
      ∀ r, Unowned st order r → Unowned st' order r := by
  obtain ⟨fs, files, count, hfs, rfl⟩ := exceptionsInternalOpen_ok hres
  have hmanager : ∀ q, ((st.table.setJob st.table.currentJob fun j =>
      { j with openFiles := files, openFilesCount := count }).jobs q).paging = st.managerOf q :=
    fun _ => field_setJob_of_eq rfl
  have hnext : ∀ q, (st.table.setJob st.table.currentJob fun j =>
      { j with openFiles := files, openFilesCount := count }).next q = st.table.next q :=
    fun _ => next_setJob_of_next rfl
  obtain ⟨hinv, hkeep, hdata⟩ := h.fs.opened_heap (fatfsOpen_ok hfs)
  refine ⟨⟨h.placed, hinv, ?_, ?_, ?_, ?_, ?_⟩, hmanager, fun r hr => ⟨hkeep _ hr.live, ?_, ?_⟩⟩
  · exact h.jobs.congr rfl (fun _ _ => rfl) rfl hnext rfl
  · intro q hq
    rw [SystemState.managerOf, hmanager]
    exact hkeep _ (h.managers q hq)
  · refine (List.map_congr_left fun q _ => ?_) ▸ h.distinct
    exact (hmanager q).symm
  · intro q hq l hl
    rw [SystemState.managerOf, hmanager]
    rcases hdata l hl with hold | hnew
    · exact h.inodes q hq l hold
    · exact Ne.symm (hnew _ (h.managers q hq))
  · obtain ⟨role, spaces, hspaces⟩ := h.spaces
    obtain ⟨size, hlive, hsize⟩ := hspaces.zone
    exact ⟨role, spaces, hspaces.slab, ⟨size, hkeep _ hlive, hsize⟩, hspaces.spaces⟩
  · intro q hq
    rw [SystemState.managerOf, hmanager]
    exact hr.manager q hq
  · intro l hl
    rcases hdata l hl with hold | hnew
    · exact hr.data l hold
    · exact hnew _ hr.live

/-- The current job ends. -/
theorem terminate (h : SystemInv s st order) :
    SystemInv s { st with table := jobTerminate st.table } order := by
  have hnext : ∀ q, (jobTerminate st.table).next q = st.table.next q :=
    fun _ => next_setJob_of_next rfl
  obtain ⟨role, spaces, hspaces⟩ := h.spaces
  have hmanager : ∀ q, ((jobTerminate st.table).jobs q).paging = st.managerOf q :=
    fun _ => field_setJob_of_eq rfl
  exact h.congr rfl (h.jobs.congr rfl (fun _ _ => rfl) rfl hnext rfl) hmanager
    ⟨role, spaces, hspaces.slab, hspaces.zone, hspaces.spaces⟩

/-- Programs write to their frames. -/
theorem user (h : SystemInv s st order) {mem : Mem}
    (hmem : ∀ x, x < 0x80000000 ∨ 0x81000000 ≤ x → mem x = st.mem x) :
    SystemInv s { st with mem := mem } order := by
  obtain ⟨role, spaces, hspaces⟩ := h.spaces
  exact h.congr rfl h.jobs (fun _ => rfl) ⟨role, spaces, hspaces.slab, hspaces.zone,
    hspaces.userZone h.fs.heap hspaces.spaces fun x hx => hmem x (Or.inl hx)⟩

/-- The managers of jobs are regions of the heap. -/
theorem managers_live (h : SystemInv s st order) {gone rest : List Nat}
    (hperm : order.Perm (gone ++ rest)) :
    ∀ pm ∈ gone.map st.managerOf, (pm, sizeofPagingManager) ∈ st.heap.live := by
  intro pm hpm
  obtain ⟨q, hq, rfl⟩ := List.mem_map.mp hpm
  exact h.managers q (hperm.mem_iff.mpr (List.mem_append_left _ hq))

/-- The heap without them. -/
theorem freed (h : SystemInv s st order) {gone rest : List Nat} (hperm : order.Perm (gone ++ rest)) :
    KernelHeapInv ((gone.map st.managerOf).foldl HeapState.kfree st.heap) ∧
      ((gone.map st.managerOf).foldl HeapState.kfree st.heap).live
        = st.heap.live.filter (fun a => a.1 ∉ gone.map st.managerOf) := by
  have hnodup : ((gone ++ rest).map st.managerOf).Nodup := (hperm.map _).nodup_iff.mp h.distinct
  rw [List.map_append, List.nodup_append] at hnodup
  exact KernelHeapInv.kfree_all _ st.heap h.fs.heap hnodup.1 (h.managers_live hperm)

/-- Jobs are deleted: their managers go back to the heap. -/
theorem deleted (h : SystemInv s st order) {gone rest : List Nat} (hperm : order.Perm (gone ++ rest))
    {table : JobTable} (hjobs : JobInv s table rest)
    (hmanager : ∀ q, (table.jobs q).paging = st.managerOf q) :
    SystemInv s { st.setHeap ((gone.map st.managerOf).foldl HeapState.kfree st.heap) with
      table := table } rest := by
  have hnodup : ((gone ++ rest).map st.managerOf).Nodup := (hperm.map _).nodup_iff.mp h.distinct
  rw [List.map_append, List.nodup_append] at hnodup
  obtain ⟨-, hrest, hapart⟩ := hnodup
  have hlive := h.managers_live hperm
  obtain ⟨hheap, hafter⟩ := h.freed hperm
  -- only regions of the managers' size are freed
  have hother : ∀ a ∈ st.heap.live, a.2 ≠ sizeofPagingManager →
      a ∈ ((gone.map st.managerOf).foldl HeapState.kfree st.heap).live := by
    intro a ha hsize
    rw [hafter]
    refine List.mem_filter.mpr ⟨ha, decide_eq_true fun hin => hsize ?_⟩
    exact congrArg Prod.snd (h.fs.heap.holds.eq_of_ptr ha (hlive _ hin) rfl)
  have hkept : ∀ q ∈ rest, q ∈ order := fun q hq => hperm.mem_iff.mpr (List.mem_append_right _ hq)
  refine ⟨h.placed, h.fs.setHeap hheap (hother _ h.fs.zone ?_) ?_, hjobs, ?_, ?_, ?_, ?_⟩
  · show slabGetNeededSize sizeofInode fsInodeMax ≠ sizeofPagingManager
    decide +kernel
  · intro l hl
    rw [hafter]
    refine List.mem_filter.mpr ⟨h.fs.data l hl, decide_eq_true fun hin => ?_⟩
    obtain ⟨q, hq, heq⟩ := List.mem_map.mp hin
    exact h.inodes q (hperm.mem_iff.mpr (List.mem_append_left _ hq)) l hl heq.symm
  · intro q hq
    rw [SystemState.managerOf, hmanager]
    show _ ∈ ((gone.map st.managerOf).foldl HeapState.kfree st.heap).live
    rw [hafter]
    refine List.mem_filter.mpr ⟨h.managers q (hkept q hq), decide_eq_true fun hin => ?_⟩
    exact hapart _ hin _ (List.mem_map_of_mem hq) rfl
  · refine (List.map_congr_left fun q _ => ?_) ▸ hrest
    exact (hmanager q).symm
  · intro q hq l hl
    rw [SystemState.managerOf, hmanager]
    exact h.inodes q (hkept q hq) l hl
  · obtain ⟨role, spaces, hspaces⟩ := h.spaces
    obtain ⟨size, hzone, hsize⟩ := hspaces.zone
    refine ⟨role, spaces, hspaces.slab, ⟨size, hother _ hzone ?_, hsize⟩, hspaces.spaces⟩
    have hstore : 4096 * 1 ≤ 4096 * st.tables.maxStore :=
      Nat.mul_le_mul_left 4096 hspaces.slab.store_pos
    rw [hspaces.slab.object_size] at hsize
    simp only [sizeofPagingManager]
    omega

/-- What belongs to nobody stays. -/
theorem deleted_unowned (h : SystemInv s st order) {gone rest : List Nat}
    (hperm : order.Perm (gone ++ rest)) {table : JobTable}
    (hmanager : ∀ q, (table.jobs q).paging = st.managerOf q) {r : Nat × Nat}
    (hr : Unowned st order r) :
    Unowned { st.setHeap ((gone.map st.managerOf).foldl HeapState.kfree st.heap) with
      table := table } rest r := by
  refine ⟨?_, fun q hq => ?_, hr.data⟩
  · show r ∈ ((gone.map st.managerOf).foldl HeapState.kfree st.heap).live
    rw [(h.freed hperm).2]
    refine List.mem_filter.mpr ⟨hr.live, decide_eq_true fun hin => ?_⟩
    obtain ⟨q, hq, heq⟩ := List.mem_map.mp hin
    exact hr.manager q (hperm.mem_iff.mpr (List.mem_append_left _ hq)) heq.symm
  · rw [SystemState.managerOf, hmanager]
    exact hr.manager q (hperm.mem_iff.mpr (List.mem_append_right _ hq))

/-- The managers that a call of `job_forward` freed. -/
theorem freedManagers_of_log {t t' : JobTable} {gone : List Nat}
    (hlog : t'.log = (gone.map (deletion t)).reverse ++ t.log) :
    freedManagers t.log t'.log = gone.map fun q => (t.jobs q).paging := by
  have hlength : t'.log.length - t.log.length = (gone.map (deletion t)).reverse.length := by
    rw [hlog, List.length_append, Nat.add_sub_cancel]
  rw [freedManagers, hlength, hlog, List.take_left, List.filterMap_reverse, List.reverse_reverse,
    List.filterMap_map, ← List.filterMap_eq_map]
  rfl

/-- **A timer interrupt.**  The jobs that `job_forward` deletes are those it passes; the job that
    it stops at is none of them, and its manager is applied. -/
theorem timer {a : Nat} {l : List Nat} (h : SystemInv s st (a :: l)) {c : Cpu}
    (hstep : SystemStep volume st (.timer c) st') :
    ∃ r rest gone, SystemInv s st' (r :: rest) ∧ st'.Applied r ∧
      (a :: l).Perm (gone ++ r :: rest) ∧
      ∀ b, Unowned st (a :: l) b → Unowned st' (r :: rest) b := by
  obtain ⟨hrun, ⟨enough, hret⟩⟩ := hstep
  obtain ⟨_, _, heq, hq⟩ := h.jobs.running_mem hrun
  obtain ⟨rfl, rfl⟩ := List.cons.inj heq
  have hforward := (h.jobs.savedTable c).forward h.placed
  simp only [savedTable_status] at hforward
  obtain ⟨t, pre, r, post, ⟨enough', hret'⟩, hsplit, hpre, -, hjobs, hsame, -, hlog⟩ := hforward hq
  obtain ⟨st₁, hres, hst'⟩ := bind_eq_ok (hret (max enough enough') (Nat.le_max_left _ _))
  obtain ⟨t', ht', hst₁⟩ := bind_eq_ok hres
  obtain rfl := Except.ok.inj ((hret' _ (Nat.le_max_right enough enough')).symm.trans ht')
  obtain rfl := Except.ok.inj hst₁
  obtain rfl := Except.ok.inj hst'
  have hsaved : ∀ q, ((savedTable st.table c).jobs q).paging = st.managerOf q :=
    fun q => field_setJob_of_eq rfl
  have hmanager : ∀ q, (t.jobs q).paging = st.managerOf q := by
    intro q
    rw [hsame q]
    exact hsaved q
  have hfreed := freedManagers_of_log hlog
  simp only [hsaved] at hfreed
  -- every job that was passed is TERMINATED or SLEEPING
  have hparts : pre.Perm ((pre.filter fun q => st.table.status q = .terminated) ++
      pre.filter fun q => st.table.status q = .sleeping) := by
    refine (List.filter_append_perm (fun q => st.table.status q = .terminated) pre).symm.trans ?_
    refine List.Perm.append_left _ (List.Perm.of_eq (List.filter_congr fun q hq => ?_))
    have hnot := hpre q hq
    cases hst : st.table.status q
    · exact absurd hst hnot
    · rfl
    · rfl
  have hperm : (a :: l).Perm ((pre.filter fun q => st.table.status q = .terminated) ++
      r :: (post ++ pre.filter fun q => st.table.status q = .sleeping)) := by
    refine (List.perm_append_singleton a l).symm.trans ?_
    rw [hsplit]
    refine (hparts.append_right _).trans ?_
    rw [List.append_assoc]
    refine List.Perm.append_left _ ?_
    rw [← List.cons_append]
    exact List.perm_append_comm
  have hinv := h.deleted hperm hjobs hmanager
  have hkeep := fun b => h.deleted_unowned (r := b) hperm hmanager
  rw [← hfreed] at hinv hkeep
  have hcur : t.currentJob = r := hjobs.current_eq
  refine ⟨r, _, _, hinv.apply _, ⟨?_, ?_⟩, hperm, fun b hb => ?_⟩
  · rw [← hcur]
    rfl
  · rw [← hcur]
    rfl
  · exact (hkeep b hb).congr rfl fun _ => rfl

/-- **One event keeps the kernel in order.**  It frees nothing that belongs to nobody, and if it
    starts a program there is more of it. -/
theorem step (h : SystemInv s st order) (happ : ∀ a ∈ order.head?, st.Applied a) {e : SystemEvent}
    (hstep : SystemStep volume st e st') :
    ∃ order', SystemInv s st' order' ∧ (∀ a ∈ order'.head?, st'.Applied a) ∧
      (∀ r, Unowned st order r → Unowned st' order' r) ∧
      (e.starts = true → ∃ r, r ∉ st.heap.live ∧ Unowned st' order' r) := by
  cases e with
  | usermode garbage filename name =>
    obtain rfl := h.jobs.order_nil h.placed hstep.1
    obtain ⟨job, hinv', happ', -, hkeep, hnew⟩ := h.usermode hstep
    refine ⟨[job], hinv', ?_, hkeep, fun _ => hnew⟩
    rintro _ ⟨⟩
    exact happ'
  | timer c =>
    obtain ⟨a, l, rfl, -⟩ := h.jobs.nonempty hstep.1.1
    obtain ⟨r, rest, -, hinv', happ', -, hkeep⟩ := h.timer hstep
    refine ⟨r :: rest, hinv', ?_, hkeep, nofun⟩
    rintro _ ⟨⟩
    exact happ'
  | spawn garbage filename =>
    obtain ⟨a, l, rfl, -⟩ := h.jobs.nonempty hstep.1
    obtain ⟨job, hinv', happ', hkeep, hnew⟩ := h.spawn (happ a rfl) hstep
    refine ⟨a :: job :: l, hinv', ?_, hkeep, fun _ => hnew⟩
    rintro _ ⟨⟩
    exact happ'
  | «open» garbage filename =>
    obtain ⟨-, ⟨enough, hret⟩⟩ := hstep
    have hres := hret enough (Nat.le_refl _)
    obtain ⟨hinv', hmanager, hkeep⟩ := h.openFile hres
    obtain ⟨fs, files, count, -, rfl⟩ := exceptionsInternalOpen_ok hres
    refine ⟨order, hinv', fun a ha => ?_, hkeep, nofun⟩
    rw [SystemState.Applied, hmanager]
    exact happ a ha
  | terminate =>
    obtain ⟨-, rfl⟩ := hstep
    have hmanager : ∀ q, ((jobTerminate st.table).jobs q).paging = st.managerOf q :=
      fun _ => field_setJob_of_eq rfl
    refine ⟨order, h.terminate, fun a ha => ?_, fun r hr => hr.congr rfl hmanager, nofun⟩
    rw [SystemState.Applied, SystemState.managerOf, hmanager]
    exact happ a ha
  | user mem =>
    obtain ⟨hmem, rfl⟩ := hstep
    exact ⟨order, h.user hmem, happ, fun r hr => hr.congr rfl fun _ => rfl, nofun⟩

end SystemInv

/-- The invariant of a run, with the current job's manager applied. -/
def SystemGood (st : SystemState) : Prop :=
  ∃ s order, SystemInv s st order ∧ ∀ a ∈ order.head?, st.Applied a

namespace SystemGood

variable {volume : Volume} {st st' : SystemState}

theorem start (h : SystemBooted st) : SystemGood st := by
  obtain ⟨s, hinv⟩ := h.inv
  exact ⟨s, [], hinv, nofun⟩

theorem step (h : SystemGood st) {e : SystemEvent} (hstep : SystemStep volume st e st') :
    SystemGood st' := by
  obtain ⟨s, order, hinv, happ⟩ := h
  obtain ⟨order', hinv', happ', -, -⟩ := hinv.step happ hstep
  exact ⟨s, order', hinv', happ'⟩

/-- Every reachable state is good. -/
theorem reach (hr : (systemMachine volume).Reach st) : SystemGood st :=
  hr.invariant (I := SystemGood) (fun _ h0 => start h0) (fun _ _ _ h hstep => h.step hstep)

/-- At EL0 the current job's address space is in use. -/
theorem activePaging (h : SystemGood st) (hcur : st.table.currentJob ≠ 0) : ActivePaging st := by
  obtain ⟨s, order, hinv, happ⟩ := h
  obtain ⟨a, l, rfl, rfl⟩ := hinv.jobs.nonempty hcur
  obtain ⟨hmanager, httbr0⟩ := happ _ rfl
  exact ⟨httbr0, hmanager, hinv.managers _ List.mem_cons_self⟩

end SystemGood

end TinyKernel
