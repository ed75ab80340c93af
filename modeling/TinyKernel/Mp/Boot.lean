/-
  The boot: `start` of `kernel/start.c` up to its call of `usermode`, on ONE memory.

  The state of `Mp.System` keeps the block table of the heap, the headers of the slabs and the
  regions behind them as memories of their own, and its machine simply starts in a state where
  everything is in place.  Here the boot runs as the source does it, every store going to the same
  physical memory with arbitrary contents at power-on: `setup_heap`, the three slabs in regions from
  `kalloc`, `job_init_user_space` below the user zone, and the kernel's own translation tree.

  Two arguments carry it:

  * what the heap does depends on its table only (`heapAlloc_congr`), so a heap whose memory was
    written to elsewhere is still one that its machine reaches (`HeapState.TableReach`);
  * regions do not overlap, so each slab header is clear at the end because it was when it was made.

  So the separate memories of `SystemState` are all views of the one memory (`KernelStart.system`),
  and every result about `systemMachine` is one about the kernel from power-on.
-/
import TinyKernel.Alloc.HeapTable
import TinyKernel.Mp.SpawnRoom

namespace TinyKernel

/-! ## The source -/

/-- What `start` leaves for `usermode`: the structures in the kernel's data, TTBR0_EL1, and the
    memory, which is that of the heap. -/
structure KernelStart where
  heap : HeapState
  inodeSlab : Slab
  /-- `slab` of `paging.c`. -/
  slab : Slab
  jobSlab : Slab
  userSpace : Slab
  pagingKernel : PagingManager
  ttbr0 : Nat

/-- A slab in a region from `kalloc`. -/
def kallocSlab (objectSize maxStore : Nat) (st : HeapState) : Except Fault (Slab × HeapState) :=
  let slabMemory := st.kalloc (slabGetNeededSize objectSize maxStore)
  -- `slab_create` stores to it
  if slabMemory.1 = 0 then .error .nullPointer
  else
    let slab := slabCreate objectSize maxStore slabMemory.1 slabMemory.2.mem
    .ok (slab.1, { slabMemory.2 with mem := slab.2 })

/-- `fs_init_slab`. -/
def fsInitSlab (st : HeapState) : Except Fault (Slab × HeapState) :=
  kallocSlab sizeofInode fsInodeMax st

/-- `paging_init_slab`. -/
def pagingInitSlab (st : HeapState) : Except Fault (Slab × HeapState) :=
  kallocSlab sizeofPageTable pagingMaxTables st

/-- `job_init_slab`, with its `kalloc`. -/
def jobInitSlabZone (maxJobs : Nat) (st : HeapState) : Except Fault (Slab × HeapState) :=
  kallocSlab jobStructSize maxJobs st

/-- `enable_paging_test`, up to `paging_manager_apply`. -/
def enablePagingTest (slab : Slab) (m : Mem) : Except Fault (PagingManager × Mem) := do
  let (pagingKernel, m) ← pagingManagerInit slab m
  return (pagingKernel, pagingManagerMapKernel pagingKernel m)

/-- `start` on the memory at power-on.  The system registers, the GIC and the timer that it sets up
    in between store nothing to memory. -/
def start (m : Mem) : Except Fault KernelStart := do
  let mainHeap := setupHeap m
  let (inodeSlab, heap) ← fsInitSlab ⟨mainHeap.1, mainHeap.2, []⟩
  let (slab, heap) ← pagingInitSlab heap
  let (jobSlab, heap) ← jobInitSlabZone maxJobs heap
  let userSpace := jobInitUserSpace 0x1000 heap.mem
  let (pagingKernel, m) ← enablePagingTest slab userSpace.2
  return ⟨{ heap with mem := m }, inodeSlab, slab, jobSlab, userSpace.1, pagingKernel,
    pagingKernel.l1⟩

/-- The same as a state of `systemMachine`.  `pagingKernel` is the address of `paging_kernel`; what
    the slots of the slabs and the other managers hold is left over from before. -/
def KernelStart.system (b : KernelStart) (inodes : Nat → Inode) (managers : Nat → PagingManager)
    (jobs : Nat → Job) (pagingKernel : Nat) : SystemState where
  fs :=
    { zone := b.inodeSlab.startingAddress
      slabMem := b.heap.mem
      inodes := inodes
      heap := b.heap
      opened := [] }
  mem := b.heap.mem
  tables := b.slab
  managers := Function.update managers pagingKernel b.pagingKernel
  table :=
    { jobSlab := b.jobSlab
      mem := b.heap.mem
      jobs := jobs
      currentJob := 0
      log := [] }
  currentPagingManager := pagingKernel
  ttbr0 := b.ttbr0
  refusals := 0
  fileReads := []

/-! ## A heap whose memory is written to elsewhere -/

namespace HeapState

variable {st : HeapState} {m : Mem}

/-- Every memory with this table is one that the kernel's heap can have. -/
def TableReach (st : HeapState) : Prop :=
  ∀ m, SameTable st.heap st.mem m → kernelHeapMachine.Reach ⟨st.heap, m, st.live⟩

theorem TableReach.reach (h : st.TableReach) : kernelHeapMachine.Reach st := h st.mem fun _ _ => rfl

theorem TableReach.inv (h : st.TableReach) : KernelHeapInv st := KernelHeapInv.reach h.reach

/-- A store that leaves the table alone. -/
theorem TableReach.store (h : st.TableReach)
    (hm : ∀ x, 0x40100000 ≤ x → x < 0x40110000 → m x = st.mem x) :
    TableReach { st with mem := m } := by
  intro m' hm'
  refine h m' fun j hj => (hm' j hj).trans (hm _ ?_ ?_)
  · rw [h.inv.table]
    exact Nat.le_add_right _ _
  · rw [h.inv.table]
    rw [h.inv.blocks] at hj
    omega

/-- `setup_heap` clears one entry. -/
theorem setupHeap_snd (m : Mem) : (setupHeap m).2 = Function.update m heapStart 0 := by
  have hloop : ∀ n (m : Mem), 0 < n →
      heapCreatetableLoop heapStart n m = Function.update m heapStart 0 := by
    intro n
    induction n with
    | zero => exact fun m hn => absurd hn (Nat.lt_irrefl 0)
    | succ n ih =>
      intro m _
      rw [heapCreatetableLoop]
      rcases Nat.eq_zero_or_pos n with rfl | hn
      · rfl
      · rw [ih _ hn, Function.update_idem]
  simp only [setupHeap, heapCreatetable, hloop 0x10000 m (by decide)]

theorem TableReach.setup (m : Mem) : TableReach ⟨(setupHeap m).1, (setupHeap m).2, []⟩ := by
  intro m' hm'
  refine .start ⟨⟨m', Prod.ext ((setupHeap_fst m').trans (setupHeap_fst m).symm) ?_⟩, rfl⟩
  -- the entry it clears is clear already
  rw [setupHeap_fst, setupHeap_snd] at hm'
  have hentry : m' heapStart = Function.update m heapStart 0 heapStart :=
    hm' 0 (show 0 < kernelHeap.blocks by decide)
  rw [Function.update_self] at hentry
  rw [setupHeap_snd]
  exact Function.update_eq_self_iff.mpr hentry.symm

/-- **`kalloc`**: the run of the heap can be replayed on any memory with the same table. -/
theorem TableReach.kalloc (h : st.TableReach) (size : Nat) : (st.kalloc size).2.TableReach := by
  have hinv := h.inv
  have hfew := hinv.holds.placed.few
  unfold HeapState.kalloc
  simp only
  have hlayout := heapAlloc_layout st.heap st.mem size
  intro m' hm'
  simp only at hm' ⊢
  rw [hlayout] at hm'
  -- the memory before: the old table, and `m'` around it
  let m'' : Mem := fun x =>
    if st.heap.heap ≤ x ∧ x < st.heap.heap + st.heap.blocks then st.mem x else m' x
  have hsame : SameTable st.heap st.mem m'' := fun j hj => if_pos (by omega)
  obtain ⟨hptr, hheap, htable⟩ := heapAlloc_congr hfew hsame size
  have hmem : (heapAlloc st.heap m'' size).2.2 = m' := by
    funext x
    by_cases hx : st.heap.heap ≤ x ∧ x < st.heap.heap + st.heap.blocks
    · obtain ⟨j, rfl⟩ := Nat.exists_eq_add_of_le hx.1
      exact (htable j (by omega)).trans (hm' j (by show j < st.heap.blocks; omega)).symm
    · exact (heapAlloc_outside hfew (by omega)).trans (if_neg hx)
  have hstep := kalloc_step ⟨st.heap, m'', st.live⟩ size
  unfold HeapState.kalloc at hstep
  simp only [hptr, hheap, hmem] at hstep
  exact (h m'' hsame).step (e := HeapEvent.alloc size) hstep

/-- `kalloc` stores to the table only. -/
theorem TableReach.kalloc_outside (h : st.TableReach) (size : Nat) {x : Nat}
    (hx : x < 0x40100000 ∨ 0x40110000 ≤ x) : (st.kalloc size).2.mem x = st.mem x := by
  have hinv := h.inv
  unfold HeapState.kalloc
  refine heapAlloc_outside hinv.holds.placed.few ?_
  rw [hinv.table, hinv.blocks]
  exact hx

end HeapState

/-! ## A slab in a region of the heap -/

/-- The header of the slab is clear. -/
def Slab.Clear (s : Slab) (m : Mem) : Prop :=
  ∀ x, s.startingAddress ≤ x → x < s.startingAddress + s.headerSize → m x = 0

/-- All slots are free. -/
theorem Slab.Clear.freeSlots {s : Slab} {m : Mem} (h : s.Clear m) (hp : s.Placed) :
    s.freeSlots m = s.maxStore := by
  refine s.freeSlots_of_clear fun k hk => ?_
  rw [Slab.used, bitAt, h _ (Nat.le_add_right _ _) (hp.header_byte_lt hk)]
  exact BitVec.getLsbD_zero

/-- `slab_create` has nothing to do. -/
theorem Slab.Clear.create {objectSize maxStore zone : Nat} {m : Mem}
    (h : (createdSlab objectSize maxStore zone).Clear m)
    (hp : (createdSlab objectSize maxStore zone).Placed) :
    (slabCreate objectSize maxStore zone m).2 = m := by
  funext x
  rw [slabCreate_mem m hp]
  split
  · rename_i hx
    exact (h x hx.1 hx.2).symm
  · rfl

/-- What a slab in a region of the heap has changed: `zone` is a new region, and its header is
    clear. -/
structure ZoneMade (objectSize maxStore : Nat) (st st' : HeapState) (zone : Nat) : Prop where
  reach : st'.TableReach
  placed : (createdSlab objectSize maxStore zone).Placed
  size : slabGetNeededSize objectSize maxStore
    = slabGetHeaderSize objectSize maxStore + objectSize * maxStore
  live : st'.live = (zone, slabGetNeededSize objectSize maxStore) :: st.live
  clear : (createdSlab objectSize maxStore zone).Clear st'.mem
  table : ∀ i, i < 0x10000 → st'.mem (0x40100000 + i)
    = (st.kalloc (slabGetNeededSize objectSize maxStore)).2.mem (0x40100000 + i)
  outside : ∀ x, x < 0x40100000 ∨ 0x40110000 ≤ x →
    x < zone ∨ zone + slabGetHeaderSize objectSize maxStore ≤ x → st'.mem x = st.mem x

section Zone

variable {objectSize maxStore : Nat} {st st' : HeapState} {slab : Slab}

/-- **A slab in a region of the heap**: made, or there is no region. -/
theorem kallocSlab_cases (h : st.TableReach) (ho : 1 ≤ objectSize) (hs : 1 ≤ maxStore)
    (hfit : slabGetHeaderSize objectSize maxStore + objectSize * maxStore < 2147483648) :
    ((st.kalloc (slabGetNeededSize objectSize maxStore)).1 = 0 ∧
      kallocSlab objectSize maxStore st = .error .nullPointer) ∨
    ∃ zone st', kallocSlab objectSize maxStore st = .ok (createdSlab objectSize maxStore zone, st') ∧
      ZoneMade objectSize maxStore st st' zone := by
  have hkept := fun x => h.kalloc_outside (slabGetNeededSize objectSize maxStore) (x := x)
  have hreach := h.kalloc (slabGetNeededSize objectSize maxStore)
  have hlive := st.kalloc_live (slabGetNeededSize objectSize maxStore)
  unfold kallocSlab
  generalize hres : st.kalloc (slabGetNeededSize objectSize maxStore) = res at *
  obtain ⟨zone, st₁⟩ := res
  simp only at hkept hreach hlive ⊢
  by_cases hzero : zone = 0
  · exact Or.inl ⟨hzero, if_pos hzero⟩
  rw [if_neg hzero] at hlive ⊢
  have hin := hreach.inv.inside (a := (zone, slabGetNeededSize objectSize maxStore))
    (hlive ▸ List.mem_cons_self)
  simp only at hin
  have hplaced := slabCreate_placed st₁.mem ho hs hfit (show zone + _ ≤ _ by omega)
  have hmem := fun x => slabCreate_mem st₁.mem hplaced x
  have hsize := slabGetNeededSize_eq hfit
  refine Or.inr ⟨zone, _, rfl, ?_, hplaced, hsize, hlive, fun x h1 h2 => ?_, fun i hi => ?_,
    fun x h1 h2 => ?_⟩
  · refine hreach.store fun x h1 h2 => ?_
    rw [hmem x, if_neg (by omega)]
  · exact (hmem x).trans (if_pos ⟨h1, h2⟩)
  · rw [hres]
    exact (hmem _).trans (if_neg (by omega))
  · exact ((hmem x).trans (if_neg (by omega))).trans (hkept x h1)

/-- With free blocks at the end of the heap there is a region. -/
theorem kallocSlab_room (h : st.TableReach) (ho : 1 ≤ objectSize) (hs : 1 ≤ maxStore)
    (hfit : slabGetHeaderSize objectSize maxStore + objectSize * maxStore < 2147483648) {b : Nat}
    (hfree : st.FreeFrom b)
    (hroom : b + allocBlocks (slabGetNeededSize objectSize maxStore) ≤ 0x10000) :
    ∃ zone st', kallocSlab objectSize maxStore st = .ok (createdSlab objectSize maxStore zone, st') ∧
      ZoneMade objectSize maxStore st st' zone ∧
      st'.FreeFrom (b + allocBlocks (slabGetNeededSize objectSize maxStore)) := by
  have hsize : slabGetNeededSize objectSize maxStore ≠ 0 := by
    have := Nat.mul_pos ho hs
    rw [slabGetNeededSize_eq hfit]
    omega
  obtain ⟨hp, hfree'⟩ := h.inv.kalloc_room hfree hsize hroom
  rcases kallocSlab_cases h ho hs hfit with ⟨hnull, -⟩ | ⟨zone, st', hok, hmade⟩
  · exact absurd hnull hp
  · refine ⟨zone, st', hok, hmade, fun i hi hi' => ?_⟩
    rw [hmade.table i hi']
    exact hfree' i hi hi'

namespace ZoneMade

variable {zone : Nat}

/-- The region in the heap. -/
theorem inside (h : ZoneMade objectSize maxStore st st' zone) : 0x40180000 ≤ zone ∧
    zone + slabGetNeededSize objectSize maxStore ≤ 0x50180000 :=
  h.reach.inv.inside (h.live ▸ List.mem_cons_self)

/-- It is apart from the regions that were there. -/
theorem apart (h : ZoneMade objectSize maxStore st st' zone) {a : Nat × Nat} (ha : a ∈ st.live) :
    zone + slabGetNeededSize objectSize maxStore ≤ a.1 ∨ a.1 + a.2 ≤ zone := by
  have hapart := h.reach.inv.holds.apart
  rw [h.live] at hapart
  have hle : ∀ size, size ≤ regionBytes size := fun size => by
    unfold regionBytes
    omega
  have h1 := hle (slabGetNeededSize objectSize maxStore)
  have h2 := hle a.2
  have hregions := (List.pairwise_cons.mp hapart).1 a ha
  unfold RegionsApart at hregions
  simp only at hregions
  omega

/-- The other slabs keep their headers. -/
theorem keeps_clear (h : ZoneMade objectSize maxStore st st' zone) {objectSize' maxStore' zone' : Nat}
    (hin : (zone', slabGetNeededSize objectSize' maxStore') ∈ st.live) (hlow : 0x40180000 ≤ zone')
    (hsize : slabGetNeededSize objectSize' maxStore'
      = slabGetHeaderSize objectSize' maxStore' + objectSize' * maxStore')
    (hclear : (createdSlab objectSize' maxStore' zone').Clear st.mem) :
    (createdSlab objectSize' maxStore' zone').Clear st'.mem := by
  intro x h1 h2
  have hapart := h.apart hin
  have hown := h.size
  have hx := hclear x h1 h2
  simp only [createdSlab] at h1 h2 hapart
  rw [h.outside x (by omega) (by omega), hx]

end ZoneMade

end Zone

/-! ## The steps that follow -/

/-- `job_init_user_space` clears the page below the user zone. -/
theorem jobInitUserSpace_apply (m : Mem) (x : Nat) : (jobInitUserSpace 0x1000 m).2 x
    = if 0x7ffff000 ≤ x ∧ x < 0x80000000 then 0 else m x := by
  have hheader : slabGetHeaderSize 0x1000 0x1000 = 0x1000 := by
    rw [slabGetHeaderSize_eq (by decide) (by decide) (by decide)]
    rfl
  have hzone : toSize ((0x80000000 : Int) - (0x1000 : Nat)) = 0x7ffff000 := by
    unfold toSize
    rfl
  have hplaced : (slabCreate 0x1000 0x1000 0x7ffff000 m).1.Placed :=
    slabCreate_placed m (by decide) (by decide) (by rw [hheader]; decide)
      (by rw [slabGetNeededSize_eq (by rw [hheader]; decide), hheader]; decide)
  have hmem := slabCreate_mem m hplaced x
  rw [hheader] at hmem
  rw [jobInitUserSpace, hheader, hzone]
  exact hmem

/-- `enable_paging_test` on a fresh slab: one table, which maps the kernel. -/
theorem enablePagingTest_fresh {tables : Slab} {m : Mem} (ht : TableSlab tables)
    (hout : OutsideUserZone tables) (hfree : tables.freeSlots m = tables.maxStore) :
    ∃ pm m', enablePagingTest tables m = .ok (pm, m') ∧ JobSpace m' pm [] ∧
      tables.freeSlots m' + 1 = tables.maxStore ∧
      userSpace.freeSlots m' = userSpace.freeSlots m ∧ OnlyPaging tables m m' := by
  have hpos := ht.store_pos
  rcases pagingManagerInit_cases ht m with ⟨hzero, -⟩ | ⟨k, m₁, hinit, ha⟩
  · omega
  · obtain ⟨role, hinv, hcount, hframes, honly⟩ :=
      (JobsInv.empty tables m).create ht hout ha rfl rfl
    refine ⟨_, _, ?_, hinv.spaces _ List.mem_cons_self, hcount.symm.trans hfree, hframes, honly⟩
    rw [enablePagingTest, hinit]
    rfl

/-! ## The state at the end -/

/-- What the boot has made of the memory `m`. -/
structure KernelStart.Booted (m : Mem) (b : KernelStart) : Prop where
  /-- It is where `systemMachine` starts, whatever the slots hold. -/
  system : ∀ inodes managers jobs pagingKernel,
    SystemBooted (b.system inodes managers jobs pagingKernel)
  /-- The kernel is mapped one to one, out of reach of EL0, and there is nothing else. -/
  kernel : ∀ va, translate b.heap.mem b.ttbr0 va
    = if va < 0x80000000 then some ⟨va, false, false⟩ else none
  /-- All inodes, jobs and frames are free, and all tables but the kernel's own. -/
  inodes : b.inodeSlab.freeSlots b.heap.mem = fsInodeMax
  jobs : b.jobSlab.freeSlots b.heap.mem = maxJobs
  frames : b.userSpace = TinyKernel.userSpace ∧ b.userSpace.freeSlots b.heap.mem = 0x1000
  tables : b.slab.freeSlots b.heap.mem + 1 = pagingMaxTables
  /-- Outside the heap and the page below the user zone nothing was stored. -/
  untouched : ∀ x, x < 0x40100000 ∨ 0x50180000 ≤ x → x < 0x7ffff000 ∨ 0x80000000 ≤ x →
    b.heap.mem x = m x

/-- The three slabs of the boot, each made after the one before. -/
structure BootZones (m : Mem) (st₁ st₂ st₃ : HeapState) (inodes tables jobs : Nat) : Prop where
  inodes : ZoneMade sizeofInode fsInodeMax ⟨(setupHeap m).1, (setupHeap m).2, []⟩ st₁ inodes
  tables : ZoneMade sizeofPageTable pagingMaxTables st₁ st₂ tables
  jobs : ZoneMade jobStructSize maxJobs st₂ st₃ jobs

namespace BootZones

variable {m : Mem} {st₁ st₂ st₃ : HeapState} {inodes tables jobs : Nat}

theorem zones_live (h : BootZones m st₁ st₂ st₃ inodes tables jobs) :
    (jobs, slabGetNeededSize jobStructSize maxJobs) ∈ st₃.live ∧
    (tables, slabGetNeededSize sizeofPageTable pagingMaxTables) ∈ st₃.live ∧
    (inodes, slabGetNeededSize sizeofInode fsInodeMax) ∈ st₃.live := by
  rw [h.jobs.live, h.tables.live, h.inodes.live]
  exact ⟨List.mem_cons_self, List.mem_cons_of_mem _ List.mem_cons_self,
    List.mem_cons_of_mem _ (List.mem_cons_of_mem _ List.mem_cons_self)⟩

theorem tables_clear (h : BootZones m st₁ st₂ st₃ inodes tables jobs) :
    (createdSlab sizeofPageTable pagingMaxTables tables).Clear st₃.mem :=
  h.jobs.keeps_clear (by rw [h.tables.live]; exact List.mem_cons_self) h.tables.inside.1
    h.tables.size h.tables.clear

theorem inodes_clear (h : BootZones m st₁ st₂ st₃ inodes tables jobs) :
    (createdSlab sizeofInode fsInodeMax inodes).Clear st₃.mem := by
  have hin : (inodes, slabGetNeededSize sizeofInode fsInodeMax) ∈ st₁.live := by
    rw [h.inodes.live]
    exact List.mem_cons_self
  have hclear := h.tables.keeps_clear hin h.inodes.inside.1 h.inodes.size h.inodes.clear
  refine h.jobs.keeps_clear ?_ h.inodes.inside.1 h.inodes.size hclear
  rw [h.tables.live]
  exact List.mem_cons_of_mem _ hin

/-- The table slab is where `TableSlab` wants it, and ends below the user zone. -/
theorem tableSlab (h : BootZones m st₁ st₂ st₃ inodes tables jobs) :
    TableSlab (createdSlab sizeofPageTable pagingMaxTables tables) :=
  (tableSlab_of_live h.jobs.reach.inv h.zones_live.2.1).1

theorem inZone (h : BootZones m st₁ st₂ st₃ inodes tables jobs) {x : Nat}
    (hx : (createdSlab sizeofPageTable pagingMaxTables tables).InZone x) :
    tables ≤ x ∧ x < tables + slabGetNeededSize sizeofPageTable pagingMaxTables := by
  obtain ⟨h1, h2⟩ := hx
  rw [h.tables.size]
  exact ⟨h1, h2⟩

theorem outside (h : BootZones m st₁ st₂ st₃ inodes tables jobs) :
    OutsideUserZone (createdSlab sizeofPageTable pagingMaxTables tables) := by
  intro x hx
  have h1 := h.inZone hx
  have h2 := h.tables.inside
  omega

/-- Outside the heap nothing was stored. -/
theorem untouched (h : BootZones m st₁ st₂ st₃ inodes tables jobs) {x : Nat}
    (hx : x < 0x40100000 ∨ 0x50180000 ≤ x) : st₃.mem x = m x := by
  have h1 := h.inodes.inside
  have h2 := h.tables.inside
  have h3 := h.jobs.inside
  have hs1 := h.inodes.size
  have hs2 := h.tables.size
  have hs3 := h.jobs.size
  rw [h.jobs.outside x (by omega) (by omega), h.tables.outside x (by omega) (by omega),
    h.inodes.outside x (by omega) (by omega)]
  have hne : x ≠ heapStart := by
    rw [heapStart]
    omega
  rw [HeapState.setupHeap_snd]
  exact Function.update_of_ne hne _ _

/-- **The rest of the boot** succeeds, and everything is in place. -/
theorem start (h : BootZones m st₁ st₂ st₃ inodes tables jobs) :
    ∃ pm m', enablePagingTest (createdSlab sizeofPageTable pagingMaxTables tables)
        (jobInitUserSpace 0x1000 st₃.mem).2 = .ok (pm, m') ∧
      KernelStart.Booted m ⟨{ st₃ with mem := m' }, createdSlab sizeofInode fsInodeMax inodes,
        createdSlab sizeofPageTable pagingMaxTables tables, createdSlab jobStructSize maxJobs jobs,
        (jobInitUserSpace 0x1000 st₃.mem).1, pm, pm.l1⟩ := by
  have hin := h.tables.inside
  have huser : ∀ x, x < 0x7ffff000 ∨ 0x80000000 ≤ x →
      (jobInitUserSpace 0x1000 st₃.mem).2 x = st₃.mem x := by
    intro x hx
    rw [jobInitUserSpace_apply, if_neg (by omega)]
  have hclear : (createdSlab sizeofPageTable pagingMaxTables tables).Clear
      (jobInitUserSpace 0x1000 st₃.mem).2 := by
    intro x h1 h2
    have hx := h.tables_clear x h1 h2
    have hsize := h.tables.size
    simp only [createdSlab] at h1 h2
    rw [huser x (by omega), hx]
  obtain ⟨pm, m', htest, hspace, hcount, hframes, honly⟩ :=
    enablePagingTest_fresh h.tableSlab h.outside (hclear.freeSlots h.tables.placed)
  -- behind that only tables were stored to
  have hkeep : ∀ x, x < tables ∨ tables + slabGetNeededSize sizeofPageTable pagingMaxTables ≤ x →
      x < 0x7ffff000 ∨ 0x80000000 ≤ x → m' x = st₃.mem x := by
    intro x hx hx'
    refine (honly x (fun hzone => ?_) hx').trans (huser x hx')
    have := h.inZone hzone
    omega
  have hinodes : (createdSlab sizeofInode fsInodeMax inodes).Clear m' := by
    intro x h1 h2
    have hx := h.inodes_clear x h1 h2
    have hsize := h.inodes.size
    have hin' := h.inodes.inside
    have hapart := h.tables.apart (by rw [h.inodes.live]; exact List.mem_cons_self)
    simp only [createdSlab] at h1 h2 hapart
    rw [hkeep x (by omega) (by omega), hx]
  have hjobs : (createdSlab jobStructSize maxJobs jobs).Clear m' := by
    intro x h1 h2
    have hx := h.jobs.clear x h1 h2
    have hsize := h.jobs.size
    have hin' := h.jobs.inside
    have hapart := h.jobs.apart (by rw [h.tables.live]; exact List.mem_cons_self)
    simp only [createdSlab] at h1 h2 hapart
    rw [hkeep x (by omega) (by omega), hx]
  have hreach : HeapState.TableReach { st₃ with mem := m' } :=
    h.jobs.reach.store fun x h1 h2 => hkeep x (by omega) (by omega)
  obtain ⟨hlive₃, hlive₂, hlive₁⟩ := h.zones_live
  refine ⟨pm, m', htest, fun _ _ _ _ => ⟨⟨hreach.reach, hlive₁, ?_, rfl⟩, ?_, ⟨tables, hlive₂, rfl⟩⟩,
    fun va => ?_, hinodes.freeSlots h.inodes.placed, hjobs.freeSlots h.jobs.placed,
    ⟨jobInitUserSpace_fst st₃.mem, ?_⟩, hcount, fun x h1 h2 => ?_⟩
  · exact ⟨m', (hinodes.create h.inodes.placed).symm⟩
  · exact ⟨jobs, hlive₃, ⟨m', Prod.ext rfl (hjobs.create h.jobs.placed).symm, rfl, rfl⟩⟩
  · split
    · rename_i hva
      exact hspace.translate_kernel hva
    · rename_i hva
      exact hspace.translate_rest (by rw [jobBaseUser, List.length_nil]; omega)
  · refine (congrArg (Slab.freeSlots · m') (jobInitUserSpace_fst st₃.mem)).trans (hframes.trans ?_)
    refine Slab.Clear.freeSlots (fun x h1 h2 => ?_) userSpace_placed
    rw [jobInitUserSpace_apply]
    exact if_pos ⟨h1, h2⟩
  · exact (hkeep x (by omega) h2).trans (h.untouched h1)

end BootZones

/-- The headers of the three slabs fit their zones, and the zones an `int`. -/
theorem bootSlabs_fit :
    slabGetHeaderSize sizeofInode fsInodeMax + sizeofInode * fsInodeMax < 2147483648 ∧
    slabGetHeaderSize sizeofPageTable pagingMaxTables + sizeofPageTable * pagingMaxTables
      < 2147483648 ∧
    slabGetHeaderSize jobStructSize maxJobs + jobStructSize * maxJobs < 2147483648 := by
  decide +kernel

/-- `start` with its three slabs made. -/
theorem start_ok {m : Mem} {st₁ st₂ st₃ : HeapState} {inodes tables jobs : Nat}
    (h₁ : fsInitSlab ⟨(setupHeap m).1, (setupHeap m).2, []⟩
      = .ok (createdSlab sizeofInode fsInodeMax inodes, st₁))
    (h₂ : pagingInitSlab st₁ = .ok (createdSlab sizeofPageTable pagingMaxTables tables, st₂))
    (h₃ : jobInitSlabZone maxJobs st₂ = .ok (createdSlab jobStructSize maxJobs jobs, st₃))
    (h : BootZones m st₁ st₂ st₃ inodes tables jobs) : ∃ b, start m = .ok b ∧ b.Booted m := by
  obtain ⟨pm, m', htest, hbooted⟩ := h.start
  refine ⟨_, ?_, hbooted⟩
  rw [start, h₁, ok_bind]
  simp only
  rw [h₂, ok_bind]
  simp only
  rw [h₃, ok_bind]
  simp only
  rw [htest]
  rfl

/-- `start` ends at a `kalloc` that finds no room, or with everything in place. -/
theorem start_cases (m : Mem) :
    start m = .error .nullPointer ∨ ∃ b, start m = .ok b ∧ b.Booted m := by
  obtain ⟨hfit₁, hfit₂, hfit₃⟩ := bootSlabs_fit
  rcases kallocSlab_cases (HeapState.TableReach.setup m) (by decide) (by decide) hfit₁ with
    ⟨-, herr⟩ | ⟨inodes, st₁, h₁, hz₁⟩
  · exact Or.inl (by rw [start, fsInitSlab, herr]; rfl)
  rcases kallocSlab_cases hz₁.reach (by decide) (by decide) hfit₂ with
    ⟨-, herr⟩ | ⟨tables, st₂, h₂, hz₂⟩
  · exact Or.inl (by rw [start, fsInitSlab, h₁, ok_bind]; simp only; rw [pagingInitSlab, herr]; rfl)
  rcases kallocSlab_cases hz₂.reach (by decide) (by decide) hfit₃ with
    ⟨-, herr⟩ | ⟨jobs, st₃, h₃, hz₃⟩
  · refine Or.inl ?_
    rw [start, fsInitSlab, h₁, ok_bind]
    simp only
    rw [pagingInitSlab, h₂, ok_bind]
    simp only
    rw [jobInitSlabZone, herr]
    rfl
  · exact Or.inr (start_ok h₁ h₂ h₃ ⟨hz₁, hz₂, hz₃⟩)

/-- With a table that is clear behind its first entry there is room. -/
theorem start_room {m : Mem} (hm : ∀ i, 0 < i → i < 0x10000 → ¬ Taken (m (heapStart + i))) :
    ∃ b, start m = .ok b := by
  obtain ⟨hfit₁, hfit₂, hfit₃⟩ := bootSlabs_fit
  have hfree : HeapState.FreeFrom ⟨(setupHeap m).1, (setupHeap m).2, []⟩ 0 := by
    rw [HeapState.setupHeap_snd]
    intro i _ hi
    show ¬ Taken (Function.update m heapStart 0 (heapStart + i))
    rcases Nat.eq_zero_or_pos i with rfl | hpos
    · rw [Nat.add_zero, Function.update_self]
      exact not_taken_zero
    · rw [Function.update_of_ne (by omega)]
      exact hm i hpos hi
  have hblocks : 0 + allocBlocks (slabGetNeededSize sizeofInode fsInodeMax)
      + allocBlocks (slabGetNeededSize sizeofPageTable pagingMaxTables)
      + allocBlocks (slabGetNeededSize jobStructSize maxJobs) ≤ 0x10000 := by
    decide +kernel
  obtain ⟨inodes, st₁, h₁, hz₁, hfree₁⟩ := kallocSlab_room (HeapState.TableReach.setup m) (by decide)
    (by decide) hfit₁ hfree (by omega)
  obtain ⟨tables, st₂, h₂, hz₂, hfree₂⟩ := kallocSlab_room hz₁.reach (by decide) (by decide) hfit₂
    hfree₁ (by omega)
  obtain ⟨jobs, st₃, h₃, hz₃, -⟩ := kallocSlab_room hz₂.reach (by decide) (by decide) hfit₃ hfree₂
    hblocks
  obtain ⟨b, hb, -⟩ := start_ok h₁ h₂ h₃ ⟨hz₁, hz₂, hz₃⟩
  exact ⟨b, hb⟩

/-- **The boot.**  From any contents of memory at power-on, `start` either stops at a `kalloc` that
    returns `NULL`, which it does not when the block table is clear; or it leaves the state in which
    `systemMachine` starts, all of whose memories are the one memory, with the kernel mapped one to
    one and every slot free. -/
theorem start_boots (m : Mem) :
    ((∀ i, 0 < i → i < 0x10000 → ¬ Taken (m (heapStart + i))) → ∃ b, start m = .ok b) ∧
    (start m = .error .nullPointer ∨ ∃ b, start m = .ok b) ∧
    ∀ b, start m = .ok b → b.Booted m := by
  refine ⟨start_room, (start_cases m).imp id fun ⟨b, hb, _⟩ => ⟨b, hb⟩, fun b hb => ?_⟩
  rcases start_cases m with herr | ⟨b', hb', hbooted⟩
  · rw [herr] at hb
    cases hb
  · rw [hb'] at hb
    cases hb
    exact hbooted

/-- Cleared memory boots. -/
theorem start_boots_clear : ∃ b, start (fun _ => 0) = .ok b ∧ b.Booted fun _ => 0 := by
  obtain ⟨b, hb⟩ := (start_boots fun _ => 0).1 fun _ _ _ => not_taken_zero
  exact ⟨b, hb, (start_boots fun _ => 0).2.2 b hb⟩

end TinyKernel
