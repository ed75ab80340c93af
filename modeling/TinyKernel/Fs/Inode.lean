/-
  Inodes and the calls made through them, `kernel/fs/fs.c`, `ram_fs.c`, `fat_fs.c`.

  An inode is 40 bytes of a slab: a pointer to the implementation's own data and four function
  pointers.  Both filesystems fill it in by hand, and the slab gives memory back as it was left.
  `ramfs_allocate_inode` stores three of the four pointers; `left` keeps what the slot held before,
  be it `fatfs_left` of an inode that was closed, or anything.

  `inodeMachine` opens and creates files on both filesystems and makes calls through the inodes
  that are open.  Memory is described by

  * the header of the inode slab (`slabMem`) and the inodes by address, where `stored` says which
    function pointers were stored SINCE the slot was allocated;
  * the kernel heap, from which every inode has its implementation data;
  * the ghost `opened`: which filesystem made which inode, with which data.

  The invariant `InodeInv` says that every opened inode holds what its own filesystem stores.  So a
  call goes where it should unless it is `left` on an inode of the ram filesystem.
-/
import TinyKernel.Alloc.SlabRun
import TinyKernel.Alloc.Kalloc

namespace TinyKernel

/-! ## The source -/

/-- The fields of `struct inode_vtable`. -/
inductive InodeOp
  | get | put | close | left
  deriving Repr, DecidableEq

/-- The filesystems. -/
inductive FsKind
  | fat | ram
  deriving Repr, DecidableEq

/-- A function pointer, by the function it points to. -/
inductive FnPtr
  | null
  | fatfsGet | fatfsClose | fatfsLeft
  | ramfsGet | ramfsPut | ramfsClose
  /-- Any other address. -/
  | other (address : Nat)
  deriving Repr, DecidableEq

/-- The filesystem that a function belongs to. -/
def FnPtr.owner : FnPtr → Option FsKind
  | .fatfsGet | .fatfsClose | .fatfsLeft => some .fat
  | .ramfsGet | .ramfsPut | .ramfsClose => some .ram
  | .null | .other _ => none

/-- `struct inode`.  `stored op` is not in memory: it says whether the pointer was stored since
    the slot was allocated. -/
structure Inode where
  implInode : Nat
  vtable : InodeOp → FnPtr
  stored : InodeOp → Bool

/-- An inode that was opened and not closed: the filesystem and the data it was made with. -/
structure OpenedInode where
  inode : Nat
  filesystem : FsKind
  implInode : Nat
  deriving Repr, DecidableEq

/-- `sizeof(struct inode)` and `FS_INODE_MAX`. -/
def sizeofInode : Nat := 40
def fsInodeMax : Nat := 32

/-- `sizeof(struct ram_inode)`, `sizeof(struct ram_file)` and `sizeof(struct fat_inode)`. -/
def sizeofRamInode : Nat := 16
def sizeofRamFile : Nat := 56
def sizeofFatInode : Nat := 536

/-- The size of the data behind an inode. -/
def FsKind.implSize : FsKind → Nat
  | .fat => sizeofFatInode
  | .ram => sizeofRamInode

/-- The memory of the two filesystems, with the inodes that are open. -/
structure InodeState where
  /-- Where `fs_init_slab` put the slab. -/
  zone : Nat
  slabMem : Mem
  inodes : Nat → Inode
  heap : HeapState
  opened : List OpenedInode

namespace InodeState

/-- `inode_slab`. -/
def inodeSlab (st : InodeState) : Slab := createdSlab sizeofInode fsInodeMax st.zone

/-- `fs_allocate_inode`: the slot keeps its contents. -/
def fsAllocateInode (st : InodeState) : Except Fault (Nat × InodeState) := do
  let (p, mem) ← slabAllocate st.inodeSlab st.slabMem
  return (p, { st with
    slabMem := mem
    inodes := Function.update st.inodes p { st.inodes p with stored := fun _ => false } })

/-- `fs_free_inode`. -/
def fsFreeInode (st : InodeState) (p : Nat) : Except Fault InodeState := do
  let (_, mem) ← slabFree st.inodeSlab st.slabMem p
  return { st with slabMem := mem }

/-- `kalloc`, on this heap. -/
def kalloc (st : InodeState) (size : Nat) : Nat × InodeState :=
  let (q, heap) := st.heap.kalloc size
  (q, { st with heap := heap })

/-- `inode->impl_inode = q`. -/
def setImplInode (st : InodeState) (p q : Nat) : InodeState :=
  { st with inodes := Function.update st.inodes p { st.inodes p with implInode := q } }

/-- `inode->vtable.op = f`. -/
def setVtable (st : InodeState) (p : Nat) (op : InodeOp) (f : FnPtr) : InodeState :=
  { st with inodes := Function.update st.inodes p
              { st.inodes p with vtable := Function.update (st.inodes p).vtable op f
                                 stored := Function.update (st.inodes p).stored op true } }

/-- The ghost of an open: `fs` made the inode at `p`. -/
def opens (st : InodeState) (p : Nat) (fs : FsKind) : InodeState :=
  { st with opened := ⟨p, fs, (st.inodes p).implInode⟩ :: st.opened }

/-- `ramfs_allocate_inode`.  It stores nothing to `vtable.left`. -/
def ramfsAllocateInode (st : InodeState) : Except Fault InodeState := do
  let (inode, st) ← st.fsAllocateInode
  let (ramInode, st) := st.kalloc sizeofRamInode
  if inode = 0 then throw .nullPointer
  let st := st.setImplInode inode ramInode
  let st := st.setVtable inode .close .ramfsClose
  let st := st.setVtable inode .get .ramfsGet
  let st := st.setVtable inode .put .ramfsPut
  -- `ram_inode->ram_file = ram_file`
  if ramInode = 0 then throw .nullPointer
  return st.opens inode .ram

/-- `ramfs_create_internal`: the file, its buffer, and an inode on it. -/
def ramfsCreate (st : InodeState) : Except Fault InodeState := do
  let (setup, st) := st.kalloc sizeofRamFile
  if setup = 0 then throw .nullPointer
  let (_, st) := st.kalloc 4096
  st.ramfsAllocateInode

/-- `fatfs_open`, once the name has been looked up. -/
def fatfsOpen (st : InodeState) : Except Fault InodeState := do
  let (inode, st) ← st.fsAllocateInode
  let (fatInode, st) := st.kalloc sizeofFatInode
  if inode = 0 then throw .nullPointer
  let st := st.setImplInode inode fatInode
  -- `fat_inode->fat_handle = fat_handle`
  if fatInode = 0 then throw .nullPointer
  let st := st.setVtable inode .close .fatfsClose
  let st := st.setVtable inode .get .fatfsGet
  let st := st.setVtable inode .put .null
  let st := st.setVtable inode .left .fatfsLeft
  return st.opens inode .fat

/-- `ramfs_close` and `fatfs_close`, which are the same code. -/
def closeInode (st : InodeState) (p : Nat) : Except Fault InodeState := do
  let st := { st with heap := st.heap.kfree (st.inodes p).implInode }
  let st ← st.fsFreeInode p
  return { st with opened := st.opened.filter (·.inode ≠ p) }

end InodeState

/-! ## Runs -/

/-- What may happen: opens that find their file, creates, calls through an opened inode, and the
    heap's other clients. -/
inductive InodeEvent
  | fatOpen
  | ramCreate
  | ramOpen
  /-- `fs_inode_get`, `fs_inode_put`, `fs_inode_close` or `fs_inode_left`. -/
  | call (op : InodeOp) (l : OpenedInode)
  | heap (e : HeapEvent)

/-- The call `op` through the opened inode `l` reaches a function that its own filesystem stored
    there, and the data it is applied to is the inode's own. -/
structure DispatchesRight (st : InodeState) (op : InodeOp) (l : OpenedInode) : Prop where
  stored : (st.inodes l.inode).stored op = true
  owner : ((st.inodes l.inode).vtable op).owner = some l.filesystem
  implInode : (st.inodes l.inode).implInode = l.implInode
  data : (l.implInode, l.filesystem.implSize) ∈ st.heap.live
  own : ∀ l' ∈ st.opened, l'.implInode = l.implInode → l' = l

/-- What a call that goes right does: close gives up the inode, the others change its data only. -/
def CallEffect (st : InodeState) (l : OpenedInode) (st' : InodeState) : InodeOp → Prop
  | .close => st.closeInode l.inode = .ok st'
  | .get | .put | .left => st' = st

/-- One step.  A call through `put` is made only if the pointer is not `NULL`; a call that goes
    wrong may do anything.  The heap's other clients free neither an inode's data nor the slab. -/
def InodeStep (st : InodeState) : InodeEvent → InodeState → Prop
  | .fatOpen, st' => st.fatfsOpen = .ok st'
  | .ramCreate, st' => st.ramfsCreate = .ok st'
  | .ramOpen, st' => st.ramfsAllocateInode = .ok st'
  | .call op l, st' => l ∈ st.opened ∧ (op = .put → (st.inodes l.inode).vtable .put ≠ .null) ∧
      (DispatchesRight st op l → CallEffect st l st' op)
  | .heap e, st' => (∃ heap', HeapStep st.heap e heap' ∧ st' = { st with heap := heap' }) ∧
      ∀ p size, e = .free p size → p ≠ st.zone ∧ ∀ l ∈ st.opened, l.implInode ≠ p

/-- From `fs_init_slab` on: any contents of the slab's memory, nothing opened. -/
def inodeMachine : Machine InodeState InodeEvent where
  start st := kernelHeapMachine.Reach st.heap ∧
    (st.zone, slabGetNeededSize sizeofInode fsInodeMax) ∈ st.heap.live ∧
    (∃ m, st.slabMem = (slabCreate sizeofInode fsInodeMax st.zone m).2) ∧ st.opened = []
  step := InodeStep

/-! ## The invariant -/

/-- The pointer that each filesystem stores for each operation; `none` if it stores nothing. -/
def FsKind.stores : FsKind → InodeOp → Option FnPtr
  | .fat, .get => some .fatfsGet
  | .fat, .put => some .null
  | .fat, .close => some .fatfsClose
  | .fat, .left => some .fatfsLeft
  | .ram, .get => some .ramfsGet
  | .ram, .put => some .ramfsPut
  | .ram, .close => some .ramfsClose
  | .ram, .left => none

/-- The inode as `fs` leaves it: the pointers it stores, and no other pointer counts as stored. -/
structure Inode.FilledBy (x : Inode) (fs : FsKind) : Prop where
  pointer : ∀ op f, fs.stores op = some f → x.vtable op = f
  stored : ∀ op, x.stored op = (fs.stores op).isSome

/-- Opened inodes are distinct slots of the slab that hold what their filesystem stored, and their
    data are distinct live regions of the heap. -/
structure InodeInv (st : InodeState) : Prop where
  heap : KernelHeapInv st.heap
  zone : (st.zone, slabGetNeededSize sizeofInode fsInodeMax) ∈ st.heap.live
  slab : SlabInv st.inodeSlab ⟨st.slabMem, st.opened.map (·.inode)⟩
  implInode : ∀ l ∈ st.opened, (st.inodes l.inode).implInode = l.implInode
  filled : ∀ l ∈ st.opened, (st.inodes l.inode).FilledBy l.filesystem
  data : ∀ l ∈ st.opened, (l.implInode, l.filesystem.implSize) ∈ st.heap.live
  own : (st.opened.map (·.implInode)).Nodup

theorem FsKind.implSize_pos (fs : FsKind) : fs.implSize ≠ 0 := by
  cases fs <;> decide

/-- A region of the heap is a good place for the inode slab. -/
theorem inodeSlab_placed {heap : HeapState} (h : KernelHeapInv heap) {zone : Nat}
    (hz : (zone, slabGetNeededSize sizeofInode fsInodeMax) ∈ heap.live) :
    (createdSlab sizeofInode fsInodeMax zone).Placed := by
  have hin := (h.inside hz).2
  exact slabCreate_placed (fun _ => 0) (by decide) (by decide) (by decide +kernel)
    (Nat.le_trans hin (by decide))

namespace InodeInv

variable {st st' : InodeState}

/-- The invariant after `fs_init_slab`. -/
theorem start (h : inodeMachine.start st) : InodeInv st := by
  obtain ⟨hheap, hzone, ⟨m, hm⟩, hopened⟩ := h
  have hinv := KernelHeapInv.reach hheap
  have hslab := SlabInv.created m (inodeSlab_placed hinv hzone)
  rw [← hm] at hslab
  refine ⟨hinv, hzone, ?_, ?_, ?_, ?_, ?_⟩ <;> rw [hopened]
  · exact hslab
  · exact fun _ hl => absurd hl List.not_mem_nil
  · exact fun _ hl => absurd hl List.not_mem_nil
  · exact fun _ hl => absurd hl List.not_mem_nil
  · exact List.nodup_nil

theorem placed (h : InodeInv st) : st.inodeSlab.Placed := inodeSlab_placed h.heap h.zone

/-- An open: a new slot of the slab filled in by `fs`, with new data. -/
theorem opens (h : InodeInv st) {p q : Nat} {mem : Mem} {heap : HeapState} {fs : FsKind} {x : Inode}
    (hslab : slabAllocate st.inodeSlab st.slabMem = .ok (p, mem))
    (hkalloc : st.heap.kalloc fs.implSize = (q, heap)) (hq : q ≠ 0) (himpl : x.implInode = q)
    (hfill : x.FilledBy fs) :
    InodeInv ⟨st.zone, mem, Function.update st.inodes p x, heap, ⟨p, fs, q⟩ :: st.opened⟩ := by
  have hnew := h.slab.allocated h.placed hslab
  have hout : ∀ l ∈ st.opened, l.inode ≠ p := by
    rintro l hl rfl
    exact (List.nodup_cons.mp hnew.nodup).1 (List.mem_map_of_mem hl)
  rcases h.heap.kalloc_cases fs.implSize_pos with heq | ⟨q', heap', heq, -, hlive, hinv, hfresh⟩
  · rw [heq] at hkalloc
    exact absurd (Prod.mk.inj hkalloc).1.symm hq
  rw [heq] at hkalloc
  obtain ⟨rfl, rfl⟩ := Prod.mk.inj hkalloc
  have hmem : ∀ a ∈ st.heap.live, a ∈ heap'.live := by
    intro a ha
    rw [hlive]
    exact List.mem_cons_of_mem _ ha
  refine ⟨hinv, hmem _ h.zone, hnew, ?_, ?_, ?_, ?_⟩
  · rintro l hl
    rcases List.mem_cons.mp hl with rfl | hl
    · simp only [Function.update_self, himpl]
    · simp only [Function.update_of_ne (hout l hl)]
      exact h.implInode l hl
  · rintro l hl
    rcases List.mem_cons.mp hl with rfl | hl
    · simp only [Function.update_self]
      exact hfill
    · simp only [Function.update_of_ne (hout l hl)]
      exact h.filled l hl
  · rintro l hl
    rcases List.mem_cons.mp hl with rfl | hl
    · rw [hlive]
      exact List.mem_cons_self
    · exact hmem _ (h.data l hl)
  · refine List.nodup_cons.mpr ⟨fun hm => ?_, h.own⟩
    obtain ⟨l, hl, heq⟩ := List.mem_map.mp hm
    exact hfresh _ (h.data l hl) heq

/-- Another heap with the slab and the data of opened inodes in it. -/
theorem setHeap (h : InodeInv st) {heap : HeapState} (hheap : KernelHeapInv heap)
    (hzone : (st.zone, slabGetNeededSize sizeofInode fsInodeMax) ∈ heap.live)
    (hdata : ∀ l ∈ st.opened, (l.implInode, l.filesystem.implSize) ∈ heap.live) :
    InodeInv { st with heap := heap } :=
  ⟨hheap, hzone, h.slab, h.implInode, h.filled, hdata, h.own⟩

/-- Other regions may come and go, as long as the slab and the data of opened inodes stay. -/
theorem heapStep (h : InodeInv st) {e : HeapEvent} {heap : HeapState}
    (hstep : HeapStep st.heap e heap)
    (hother : ∀ p size, e = .free p size → p ≠ st.zone ∧ ∀ l ∈ st.opened, l.implInode ≠ p) :
    InodeInv { st with heap := heap } := by
  refine h.setHeap (h.heap.heapStep hstep) ?_ fun l hl => ?_
  · exact hstep.keeps h.zone fun he => (hother _ _ he).1 rfl
  · exact hstep.keeps (h.data l hl) fun he => (hother _ _ he).2 l hl rfl

/-- `kalloc` for something else than an inode. -/
theorem kalloc (h : InodeInv st) (size : Nat) : InodeInv (st.kalloc size).2 := by
  refine h.heapStep (e := .alloc size) (st.heap.kalloc_step size) ?_
  intro p size he
  cases he

end InodeInv

/-! ## Each filesystem stores what it should -/

/-- What `fs_allocate_inode`, `kalloc` and the stores of an open amount to. -/
def OpensWith (st st' : InodeState) (fs : FsKind) : Prop :=
  ∃ p q mem heap x, slabAllocate st.inodeSlab st.slabMem = .ok (p, mem) ∧
    st.heap.kalloc fs.implSize = (q, heap) ∧ q ≠ 0 ∧ x.implInode = q ∧ x.FilledBy fs ∧
    st' = ⟨st.zone, mem, Function.update st.inodes p x, heap, ⟨p, fs, q⟩ :: st.opened⟩

theorem fsAllocateInode_ok {st st1 : InodeState} {p : Nat}
    (h : st.fsAllocateInode = .ok (p, st1)) : ∃ mem,
    slabAllocate st.inodeSlab st.slabMem = .ok (p, mem) ∧
    st1 = ⟨st.zone, mem, Function.update st.inodes p
      { st.inodes p with stored := fun _ => false }, st.heap, st.opened⟩ := by
  obtain ⟨⟨p', mem⟩, hslab, hret⟩ := bind_eq_ok h
  obtain ⟨rfl, rfl⟩ := Prod.mk.inj (Except.ok.inj hret)
  exact ⟨mem, hslab, rfl⟩

theorem ramfsAllocateInode_ok {st st' : InodeState} (h : st.ramfsAllocateInode = .ok st') :
    OpensWith st st' .ram := by
  obtain ⟨⟨p, st1⟩, halloc, hrest⟩ := bind_eq_ok h
  obtain ⟨mem, hslab, rfl⟩ := fsAllocateInode_ok halloc
  rcases hk : st.heap.kalloc sizeofRamInode with ⟨q, heap⟩
  simp only [InodeState.kalloc, hk] at hrest
  obtain ⟨-, hrest⟩ := guard_eq_ok hrest
  obtain ⟨hq, hrest⟩ := guard_eq_ok hrest
  refine ⟨p, q, mem, heap,
    { implInode := q
      vtable := Function.update (Function.update (Function.update (st.inodes p).vtable
        .close .ramfsClose) .get .ramfsGet) .put .ramfsPut
      stored := Function.update (Function.update (Function.update (fun _ => false)
        .close true) .get true) .put true },
    hslab, hk, hq, rfl, ?_, ?_⟩
  · constructor
    · intro op f hf
      cases op <;> cases hf <;> rfl
    · intro op
      cases op <;> rfl
  · rw [← Except.ok.inj hrest]
    simp only [InodeState.setImplInode, InodeState.setVtable, InodeState.opens,
      Function.update_self, Function.update_idem]

theorem ramfsCreate_ok {st st' : InodeState} (h : st.ramfsCreate = .ok st') :
    OpensWith ((st.kalloc sizeofRamFile).2.kalloc 4096).2 st' .ram := by
  rcases hk : st.kalloc sizeofRamFile with ⟨p, st1⟩
  rcases hk' : st1.kalloc 4096 with ⟨p', st2⟩
  simp only [InodeState.ramfsCreate, hk, hk'] at h
  exact ramfsAllocateInode_ok (guard_eq_ok h).2

theorem fatfsOpen_ok {st st' : InodeState} (h : st.fatfsOpen = .ok st') :
    OpensWith st st' .fat := by
  obtain ⟨⟨p, st1⟩, halloc, hrest⟩ := bind_eq_ok h
  obtain ⟨mem, hslab, rfl⟩ := fsAllocateInode_ok halloc
  rcases hk : st.heap.kalloc sizeofFatInode with ⟨q, heap⟩
  simp only [InodeState.kalloc, hk] at hrest
  obtain ⟨-, hrest⟩ := guard_eq_ok hrest
  obtain ⟨hq, hrest⟩ := guard_eq_ok hrest
  refine ⟨p, q, mem, heap,
    { implInode := q
      vtable := Function.update (Function.update (Function.update (Function.update
        (st.inodes p).vtable .close .fatfsClose) .get .fatfsGet) .put .null) .left .fatfsLeft
      stored := Function.update (Function.update (Function.update (Function.update (fun _ => false)
        .close true) .get true) .put true) .left true },
    hslab, hk, hq, rfl, ?_, ?_⟩
  · constructor
    · intro op f hf
      cases op <;> cases hf <;> rfl
    · intro op
      cases op <;> rfl
  · rw [← Except.ok.inj hrest]
    simp only [InodeState.setImplInode, InodeState.setVtable, InodeState.opens,
      Function.update_self, Function.update_idem]

/-- `fs_allocate_inode` with a slot of the slab. -/
theorem fsAllocateInode_of_slab {st : InodeState} {p : Nat} {mem : Mem}
    (hslab : slabAllocate st.inodeSlab st.slabMem = .ok (p, mem)) :
    st.fsAllocateInode = .ok (p, { st with
      slabMem := mem
      inodes := Function.update st.inodes p { st.inodes p with stored := fun _ => false } }) := by
  rw [InodeState.fsAllocateInode, hslab]
  rfl

/-- `fatfs_open` returns when the slab has a slot and the heap has room. -/
theorem fatfsOpen_returns {st : InodeState} {p : Nat} {mem : Mem}
    (hslab : slabAllocate st.inodeSlab st.slabMem = .ok (p, mem)) (hp : p ≠ 0)
    (hroom : (st.heap.kalloc sizeofFatInode).1 ≠ 0) : ∃ st', st.fatfsOpen = .ok st' := by
  rw [InodeState.fatfsOpen, fsAllocateInode_of_slab hslab, ok_bind]
  simp only [InodeState.kalloc]
  rw [if_neg hp]
  exact ⟨_, if_neg hroom⟩

/-- `fs_allocate_inode` finds a slot. -/
def InodeState.HasSlot (st : InodeState) : Prop :=
  ∃ p mem, slabAllocate st.inodeSlab st.slabMem = .ok (p, mem) ∧ p ≠ 0

/-- It does as long as not all inodes are open. -/
theorem InodeInv.hasSlot {st : InodeState} (h : InodeInv st) (hfew : st.opened.length < fsInodeMax) :
    st.HasSlot := by
  have hlen : (st.opened.map (·.inode)).length < st.inodeSlab.maxStore := by
    rw [List.length_map]
    exact hfew
  obtain ⟨k, hk, -, -, hslab⟩ := h.placed.allocate st.slabMem (h.slab.exists_free h.placed hlen)
  exact ⟨_, _, hslab, Nat.ne_of_gt (h.placed.slotAddr_pos k)⟩

/-- `fatfs_open` returns exactly when there are a slot and room for its data. -/
theorem fatfsOpen_returns_iff {st : InodeState} : (∃ st', st.fatfsOpen = .ok st') ↔
    st.HasSlot ∧ (st.heap.kalloc sizeofFatInode).1 ≠ 0 := by
  constructor
  · rintro ⟨st', h⟩
    obtain ⟨⟨p, st1⟩, halloc, hrest⟩ := bind_eq_ok h
    obtain ⟨mem, hslab, rfl⟩ := fsAllocateInode_ok halloc
    obtain ⟨hp, hrest⟩ := guard_eq_ok hrest
    exact ⟨⟨p, mem, hslab, hp⟩, (guard_eq_ok hrest).1⟩
  · rintro ⟨⟨p, mem, hslab, hp⟩, hroom⟩
    exact fatfsOpen_returns hslab hp hroom

/-- So does `ramfs_allocate_inode`. -/
theorem ramfsAllocateInode_returns_iff {st : InodeState} :
    (∃ st', st.ramfsAllocateInode = .ok st') ↔
      st.HasSlot ∧ (st.heap.kalloc sizeofRamInode).1 ≠ 0 := by
  constructor
  · rintro ⟨st', h⟩
    obtain ⟨⟨p, st1⟩, halloc, hrest⟩ := bind_eq_ok h
    obtain ⟨mem, hslab, rfl⟩ := fsAllocateInode_ok halloc
    obtain ⟨hp, hrest⟩ := guard_eq_ok hrest
    exact ⟨⟨p, mem, hslab, hp⟩, (guard_eq_ok hrest).1⟩
  · rintro ⟨⟨p, mem, hslab, hp⟩, hroom⟩
    rw [InodeState.ramfsAllocateInode, fsAllocateInode_of_slab hslab, ok_bind]
    simp only [InodeState.kalloc]
    rw [if_neg hp]
    exact ⟨_, if_neg hroom⟩

/-- What a close does. -/
theorem closeInode_ok {st st' : InodeState} {p : Nat} (h : st.closeInode p = .ok st') :
    ∃ r mem, slabFree st.inodeSlab st.slabMem p = .ok (r, mem) ∧ st' = { st with
      slabMem := mem
      heap := st.heap.kfree (st.inodes p).implInode
      opened := st.opened.filter (·.inode ≠ p) } := by
  obtain ⟨st1, hst1, hret⟩ := bind_eq_ok h
  obtain ⟨⟨r, mem⟩, hfree, hret'⟩ := bind_eq_ok hst1
  obtain rfl := Except.ok.inj hret'
  obtain rfl := Except.ok.inj hret
  exact ⟨r, mem, hfree, rfl⟩

namespace InodeInv

variable {st st' : InodeState}

theorem opensWith (h : InodeInv st) {fs : FsKind} (hopen : OpensWith st st' fs) : InodeInv st' := by
  obtain ⟨p, q, mem, heap, x, hslab, hkalloc, hq, himpl, hfill, rfl⟩ := hopen
  exact h.opens hslab hkalloc hq himpl hfill

/-- What an open does to the heap: the regions stay, and the new inode's data is none of them. -/
theorem opened_heap (h : InodeInv st) {fs : FsKind} (hopen : OpensWith st st' fs) :
    InodeInv st' ∧ (∀ a ∈ st.heap.live, a ∈ st'.heap.live) ∧
      ∀ l ∈ st'.opened, l ∈ st.opened ∨ ∀ a ∈ st.heap.live, a.1 ≠ l.implInode := by
  refine ⟨h.opensWith hopen, ?_⟩
  obtain ⟨p, q, mem, heap, x, -, hkalloc, hq, -, -, rfl⟩ := hopen
  refine ⟨fun a ha => ?_, fun l hl => ?_⟩
  · have hin := HeapState.mem_kalloc_live ha fs.implSize
    rw [hkalloc] at hin
    exact hin
  · rcases List.mem_cons.mp hl with rfl | hl
    · have hnew : (st.heap.kalloc fs.implSize).1 ≠ 0 → _ := h.heap.kalloc_fresh
      rw [hkalloc] at hnew
      exact Or.inr (hnew hq)
    · exact Or.inl hl

/-- A call through an opened inode goes right exactly if the filesystem stored a function for it. -/
theorem dispatches_iff (h : InodeInv st) {op : InodeOp} {l : OpenedInode} (hl : l ∈ st.opened) :
    DispatchesRight st op l ↔ ∃ f, l.filesystem.stores op = some f ∧ f ≠ .null := by
  have hfill := h.filled l hl
  constructor
  · intro hright
    have hstored := hfill.stored op
    rw [hright.stored] at hstored
    obtain ⟨f, hf⟩ := Option.isSome_iff_exists.mp hstored.symm
    refine ⟨f, hf, ?_⟩
    rintro rfl
    have howner := hright.owner
    rw [hfill.pointer op _ hf] at howner
    cases howner
  · rintro ⟨f, hf, hne⟩
    refine ⟨by rw [hfill.stored, hf]; rfl, ?_, h.implInode l hl, h.data l hl, ?_⟩
    · rw [hfill.pointer op f hf]
      generalize l.filesystem = fs at hf
      cases fs <;> cases op <;> cases hf <;> first | rfl | exact absurd rfl hne
    · exact fun l' hl' heq => List.inj_on_of_nodup_map h.own hl' hl heq

/-- The slots of the inodes that stay open when `p` is closed. -/
theorem slots_filter (h : InodeInv st) (p : Nat) :
    (st.opened.filter (·.inode ≠ p)).map (·.inode) = (st.opened.map (·.inode)).erase p := by
  rw [h.slab.nodup.erase_eq_filter, List.filter_map]
  refine congrArg _ (List.filter_congr fun l _ => ?_)
  by_cases hp : l.inode = p
  · simp [hp]
  · simp [hp]

/-- Closing an opened inode gives up its slot and its data, and touches no other inode. -/
theorem close (h : InodeInv st) {l : OpenedInode} (hl : l ∈ st.opened)
    (hclose : st.closeInode l.inode = .ok st') : InodeInv st' := by
  obtain ⟨mem, hfree, hslab⟩ := h.slab.freed h.placed (List.mem_map_of_mem hl)
  obtain ⟨r, mem', hfree', rfl⟩ := closeInode_ok hclose
  obtain ⟨-, rfl⟩ := Prod.mk.inj (Except.ok.inj (hfree.symm.trans hfree'))
  have hkeep : ∀ l' ∈ st.opened.filter (·.inode ≠ l.inode), l' ∈ st.opened ∧ l' ≠ l := by
    intro l' hl'
    obtain ⟨hmem, hne⟩ := List.mem_filter.mp hl'
    refine ⟨hmem, ?_⟩
    rintro rfl
    simp at hne
  have himpl := h.implInode l hl
  refine ⟨?_, ?_, ?_, ?_, ?_, ?_, ?_⟩
  · rw [himpl]
    exact h.heap.kfree_inv (h.data l hl)
  · refine List.mem_filter.mpr ⟨h.zone, ?_⟩
    rw [himpl]
    refine decide_eq_true fun hz => ?_
    -- the slab and the data of an inode have different sizes, so they are different regions
    have hsame : slabGetNeededSize sizeofInode fsInodeMax = l.filesystem.implSize :=
      congrArg Prod.snd (h.heap.holds.eq_of_ptr h.zone (h.data l hl) hz)
    generalize l.filesystem = fs at hsame
    cases fs <;> exact absurd hsame (by decide +kernel)
  · simp only [h.slots_filter]
    exact hslab
  · exact fun l' hl' => h.implInode l' (hkeep l' hl').1
  · exact fun l' hl' => h.filled l' (hkeep l' hl').1
  · intro l' hl'
    obtain ⟨hmem, hne⟩ := hkeep l' hl'
    refine List.mem_filter.mpr ⟨h.data l' hmem, ?_⟩
    rw [himpl]
    refine decide_eq_true fun heq => hne ?_
    exact List.inj_on_of_nodup_map h.own hmem hl heq
  · exact h.own.sublist (List.filter_sublist.map _)

end InodeInv

/-- Closing an opened inode returns. -/
theorem InodeInv.close_returns {st : InodeState} (h : InodeInv st) {l : OpenedInode}
    (hl : l ∈ st.opened) : ∃ st', st.closeInode l.inode = .ok st' := by
  obtain ⟨mem, hfree, -⟩ := h.slab.freed h.placed (List.mem_map_of_mem hl)
  have hslab : ∀ heap, ({ st with heap := heap } : InodeState).fsFreeInode l.inode
      = .ok { st with heap := heap, slabMem := mem } := by
    intro heap
    show (slabFree st.inodeSlab st.slabMem l.inode >>= _) = _
    rw [hfree, ok_bind]
    rfl
  rw [InodeState.closeInode, hslab, ok_bind]
  exact ⟨_, rfl⟩

/-- The condition: `fs_inode_left` is not called on an inode of the ram filesystem. -/
def NoRamLeft (e : InodeEvent) : Prop := ∀ l, e = .call .left l → l.filesystem = .fat

/-- Every call of the step goes right. -/
def CallGoesRight (st : InodeState) (e : InodeEvent) : Prop :=
  ∀ op l, e = .call op l → DispatchesRight st op l

/-- One step. -/
theorem InodeInv.step {st st' : InodeState} (h : InodeInv st) {e : InodeEvent}
    (hstep : InodeStep st e st') :
    (CallGoesRight st e ↔ NoRamLeft e) ∧ (NoRamLeft e → InodeInv st') := by
  have hplain : InodeInv st' → (∀ op l, e ≠ .call op l) →
      (CallGoesRight st e ↔ NoRamLeft e) ∧ (NoRamLeft e → InodeInv st') := by
    intro hinv hne
    refine ⟨⟨fun _ l he => absurd he (hne _ l), fun _ op l he => absurd he (hne op l)⟩, fun _ => hinv⟩
  cases e with
  | fatOpen => exact hplain (h.opensWith (fatfsOpen_ok hstep)) (fun _ _ he => by cases he)
  | ramCreate =>
    refine hplain ?_ (fun _ _ he => by cases he)
    exact ((h.kalloc _).kalloc _).opensWith (ramfsCreate_ok hstep)
  | ramOpen => exact hplain (h.opensWith (ramfsAllocateInode_ok hstep)) (fun _ _ he => by cases he)
  | heap e =>
    obtain ⟨⟨heap, hheap, rfl⟩, hother⟩ := hstep
    exact hplain (h.heapStep hheap hother) (fun _ _ he => by cases he)
  | call op l =>
    obtain ⟨hl, hput, heffect⟩ := hstep
    have hiff : DispatchesRight st op l ↔ (op = .left → l.filesystem = .fat) := by
      rw [h.dispatches_iff hl]
      have hpointer := (h.filled l hl).pointer op
      generalize l.filesystem = fs at hpointer
      cases fs <;> cases op
      case fat.put => exact absurd (hpointer .null rfl) (hput rfl)
      all_goals simp [FsKind.stores]
    have hgoes : CallGoesRight st (.call op l) ↔ DispatchesRight st op l := by
      constructor
      · exact fun hgoes => hgoes op l rfl
      · rintro hright op' l' he
        obtain ⟨rfl, rfl⟩ := InodeEvent.call.inj he
        exact hright
    have hcond : NoRamLeft (.call op l) ↔ (op = .left → l.filesystem = .fat) := by
      constructor
      · rintro hno rfl
        exact hno l rfl
      · rintro hno l' he
        obtain ⟨hop, rfl⟩ := InodeEvent.call.inj he
        exact hno hop
    rw [hgoes, hcond]
    refine ⟨hiff, fun hno => ?_⟩
    have heff := heffect (hiff.mpr hno)
    cases op with
    | close => exact h.close hl heff
    | get | put | left =>
      obtain rfl := heff
      exact h

/-- **Calls through inodes over whole runs.**  From `fs_init_slab` on, whatever the slab's memory
    held, every call that a run makes through an opened inode reaches a function of the filesystem
    that made the inode, stored by it and applied to the inode's own data, if and only if the run
    never calls `fs_inode_left` on an inode of the ram filesystem.  `ramfs_allocate_inode` sets
    three of the four functions: `left` keeps what the slot of the slab held, and that is the
    function of a FAT inode, if one was there before. -/
theorem inode_dispatch_iff {st st' : InodeState} {tr : List (InodeState × InodeEvent × InodeState)}
    (h0 : inodeMachine.start st) (hr : inodeMachine.Run st tr st') :
    (∀ a e b, (a, e, b) ∈ tr → CallGoesRight a e) ↔ (∀ a e b, (a, e, b) ∈ tr → NoRamLeft e) := by
  refine hr.forall_iff_of_invariant (I := InodeInv) (P := fun a e _ => CallGoesRight a e)
    (Q := fun _ e _ => NoRamLeft e) ?_ ?_ (InodeInv.start h0)
  · exact fun a e b h hstep => (h.step hstep).1
  · exact fun a e b h hstep hno => (h.step hstep).2 hno

/-! ## A run in which `left` is stale -/

/-- The kernel after `fs_init_slab`, on memory that was clear. -/
def inodesAtBoot : InodeState where
  zone := 0x40180000
  slabMem := (slabCreate sizeofInode fsInodeMax 0x40180000 fun _ => 0).2
  inodes := fun _ => ⟨0, fun _ => .null, fun _ => false⟩
  heap := ((⟨kernelHeap, fun _ => 0, []⟩ : HeapState).kalloc
    (slabGetNeededSize sizeofInode fsInodeMax)).2
  opened := []

/-- The inode that the slab gives out first. -/
def firstInode : Nat := 0x40180500

/-- A file is opened on the FAT filesystem, closed, and a ram file created. -/
def closedThenCreated : Except Fault (InodeState × InodeState × InodeState) := do
  let a ← inodesAtBoot.fatfsOpen
  let b ← a.closeInode firstInode
  let c ← b.ramfsCreate
  return (a, b, c)

theorem inodesAtBoot_start : inodeMachine.start inodesAtBoot := by
  have h0 : kernelHeapMachine.start ⟨kernelHeap, fun _ => 0, []⟩ := ⟨⟨_, setupHeap_clear⟩, rfl⟩
  have hstep : kernelHeapMachine.step ⟨kernelHeap, fun _ => 0, []⟩
      (.alloc (slabGetNeededSize sizeofInode fsInodeMax)) inodesAtBoot.heap :=
    HeapState.kalloc_step _ _
  refine ⟨(Machine.Reach.start h0).step hstep, ?_, ⟨_, rfl⟩, rfl⟩
  decide +kernel

theorem closedThenCreated_ok : ∃ a b c, inodesAtBoot.fatfsOpen = .ok a ∧
    a.closeInode firstInode = .ok b ∧ b.ramfsCreate = .ok c ∧
    a.opened = [⟨firstInode, .fat, 0x40181000⟩] ∧ c.opened = [⟨firstInode, .ram, 0x40183000⟩] ∧
    (c.inodes firstInode).vtable .left = .fatfsLeft := by
  have hrun : (match closedThenCreated with
      | .ok (a, _, c) => decide (a.opened = [⟨firstInode, .fat, 0x40181000⟩] ∧
          c.opened = [⟨firstInode, .ram, 0x40183000⟩] ∧
          (c.inodes firstInode).vtable .left = .fatfsLeft)
      | .error _ => false) = true := by
    decide +kernel
  rcases hres : closedThenCreated with _ | ⟨a, b, c⟩
  · rw [hres] at hrun
    cases hrun
  · rw [hres] at hrun
    obtain ⟨a', ha, hrest⟩ := bind_eq_ok hres
    obtain ⟨b', hb, hrest⟩ := bind_eq_ok hrest
    obtain ⟨c', hc, hret⟩ := bind_eq_ok hrest
    obtain ⟨rfl, rest⟩ := Prod.mk.inj (Except.ok.inj hret)
    obtain ⟨rfl, rfl⟩ := Prod.mk.inj rest
    exact ⟨a', b', c', ha, hb, hc, of_decide_eq_true hrun⟩

/-- Opening a file on the FAT filesystem and closing it: the close goes right. -/
theorem inode_dispatch_iff_close : ∃ a b, inodeMachine.Run inodesAtBoot
    [(inodesAtBoot, .fatOpen, a), (a, .call .close ⟨firstInode, .fat, 0x40181000⟩, b)] b ∧
    CallGoesRight a (.call .close ⟨firstInode, .fat, 0x40181000⟩) := by
  obtain ⟨a, b, -, hopen, hclose, -, hopened, -⟩ := closedThenCreated_ok
  have hstep : inodeMachine.step inodesAtBoot .fatOpen a := hopen
  have hcall : inodeMachine.step a (.call .close ⟨firstInode, .fat, 0x40181000⟩) b :=
    ⟨by rw [hopened]; exact List.mem_cons_self, nofun, fun _ => hclose⟩
  have hrun : inodeMachine.Run inodesAtBoot [(inodesAtBoot, .fatOpen, a),
      (a, .call .close ⟨firstInode, .fat, 0x40181000⟩, b)] b :=
    .cons hstep (.cons hcall (.nil b))
  refine ⟨a, b, hrun, (inode_dispatch_iff inodesAtBoot_start hrun).mpr ?_ _ _ b
    (List.mem_cons_of_mem _ List.mem_cons_self)⟩
  rintro a' e b' hm l rfl
  simp only [List.mem_cons, Prod.mk.injEq, reduceCtorEq, InodeEvent.call.injEq, false_and,
    and_false, List.not_mem_nil, or_false] at hm

/-- The slot of a closed FAT inode is given to a ram inode, and `fs_inode_left` on it calls
    `fatfs_left`. -/
theorem ram_inode_left_is_stale : ∃ a b c l, inodeMachine.start inodesAtBoot ∧
    inodeMachine.Run inodesAtBoot [(inodesAtBoot, .fatOpen, a),
      (a, .call .close ⟨firstInode, .fat, 0x40181000⟩, b), (b, .ramCreate, c),
      (c, .call .left l, c)] c ∧
    l ∈ c.opened ∧ l.filesystem = .ram ∧ (c.inodes l.inode).vtable .left = .fatfsLeft ∧
    ¬ CallGoesRight c (.call .left l) := by
  obtain ⟨a, b, c, hopen, hclose, hcreate, hopened, hopened', hleft⟩ := closedThenCreated_ok
  have hmem : (⟨firstInode, .ram, 0x40183000⟩ : OpenedInode) ∈ c.opened := by
    rw [hopened']
    exact List.mem_cons_self
  have hstep : inodeMachine.step inodesAtBoot .fatOpen a := hopen
  have hcall : inodeMachine.step a (.call .close ⟨firstInode, .fat, 0x40181000⟩) b :=
    ⟨by rw [hopened]; exact List.mem_cons_self, nofun, fun _ => hclose⟩
  have hstep' : inodeMachine.step b .ramCreate c := hcreate
  have hcall' : inodeMachine.step c (.call .left ⟨firstInode, .ram, 0x40183000⟩) c :=
    ⟨hmem, nofun, fun _ => rfl⟩
  refine ⟨a, b, c, ⟨firstInode, .ram, 0x40183000⟩, inodesAtBoot_start,
    .cons hstep (.cons hcall (.cons hstep' (.cons hcall' (.nil c)))),
    hmem, rfl, hleft, fun hgoes => ?_⟩
  have howner := (hgoes .left _ rfl).owner
  rw [hleft] at howner
  cases howner

end TinyKernel
