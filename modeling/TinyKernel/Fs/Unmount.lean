/-
  Mounting and unmounting: what `fat_clear`, `fatfs_deletefs` and `ramfs_deletefs` give back.

  `fat_load` has two regions of the heap, the table and the root directory.  `fat_clear` frees each
  pointer if it IS `NULL`, so it never frees either, and hands `NULL` to `kfree` instead.
  `fatfs_deletefs` does not call it: it frees the handle and the filesystem.  `ramfs_deletefs` is
  the same code, and does not walk the list of files either.

  The handle, the filesystems, the files and their buffers are regions of one block each, so what is
  live after any sequence of creates and closes is known exactly (`RamMount.regions`), and the heap
  is as it was before if and only if there was nothing to forget (`unmount_iff`).

  The contents of the regions are objects of their own here, apart from the table of the heap.
-/
import TinyKernel.Alloc.HeapWith
import TinyKernel.Fs.FatLoad
import TinyKernel.Fs.RamDirRun

namespace TinyKernel

/-! ## The source -/

/-- The heap with the calls of `kfree` so far, which are not in memory: the heap that each one
    found, and its argument. -/
structure FreeLog where
  heap : HeapState
  frees : List (HeapState × Nat)

/-- `kfree`, logged. -/
def FreeLog.kfree (t : FreeLog) (p : Nat) : FreeLog := ⟨t.heap.kfree p, (t.heap, p) :: t.frees⟩

/-- `sizeof(struct fat_handle)`. -/
def sizeofFatHandle : Nat := 584

/-- A `struct fat_handle`, with its two pointers besides what they point to. -/
structure LoadedFat where
  handle : FatHandle
  fat : Nat
  entries : Nat

/-- The allocations of `fat_load_table` and `fat_load_entries`. -/
def fatLoadTable (handle : FatHandle) (heap : HeapState) : Nat × HeapState :=
  heap.kalloc handle.fatSizeBytes
def fatLoadEntries (handle : FatHandle) (heap : HeapState) : Nat × HeapState :=
  heap.kalloc handle.dirEntrySizeBytes

/-- `fat_load` and its allocations. -/
def fatLoadOn (disk : Disk) (handleMem fatMem entriesMem : Mem) (heap : HeapState) :
    Except Fault (LoadedFat × HeapState) := do
  let handle ← fatLoad disk handleMem fatMem entriesMem
  let (fat, heap) := fatLoadTable handle heap
  let (entries, heap) := fatLoadEntries handle heap
  return (⟨handle, fat, entries⟩, heap)

/-- `fat_clear`. -/
def fatClear (h : LoadedFat) (t : FreeLog) : LoadedFat × FreeLog :=
  let t := if h.fat = 0 then t.kfree h.fat else t
  let t := if h.entries = 0 then t.kfree h.entries else t
  ({ h with fat := 0, entries := 0 }, t)

/-- A `struct filesystem`: where it is, and its `arguments`. -/
structure Filesystem where
  address : Nat
  arguments : Nat

/-- `fatfs_createfs`. -/
def fatfsCreatefs (disk : Disk) (handleMem fatMem entriesMem : Mem) (heap : HeapState) :
    Except Fault (Filesystem × HeapState) := do
  let (fat, heap) := heap.kalloc sizeofFatHandle
  let (_, heap) ← fatLoadOn disk handleMem fatMem entriesMem heap
  -- `*fat = ..`
  if fat = 0 then throw .nullPointer
  let (fs, heap) := heap.kalloc sizeofFilesystem
  -- `fs->arguments = ..`
  if fs = 0 then throw .nullPointer
  return (⟨fs, fat⟩, heap)

/-- `kfree(filesystem->arguments); kfree(filesystem)`. -/
def deletefs (fs : Filesystem) (t : FreeLog) : FreeLog := (t.kfree fs.arguments).kfree fs.address

/-- `fatfs_deletefs` and `ramfs_deletefs`, which are the same code. -/
def fatfsDeletefs : Filesystem → FreeLog → FreeLog := deletefs
def ramfsDeletefs : Filesystem → FreeLog → FreeLog := deletefs

/-- A mounted ram filesystem.  `inodes` and `frees` are not in memory: the inodes that were created
    on it and not closed, and the calls of `kfree` so far. -/
structure RamMount where
  dir : RamDir
  filesystem : Nat
  inodes : List Nat
  frees : List (HeapState × Nat)

namespace RamMount

/-- `ramfs_createfs`, and the pointer that it returns. -/
def createfs (fs : InodeState) (mem : Mem) : Except Fault RamMount := do
  let dir ← ramfsCreatefs fs mem
  return ⟨dir, (fs.kalloc sizeofFilesystem).1, [], []⟩

/-- `ramfs_create_internal`. -/
def create (m : RamMount) (rounds : Nat) (filename : List Byte) : Except Fault RamMount := do
  let (inode, dir) ← m.dir.ramfsCreateInternal rounds filename
  return { m with dir := dir, inodes := inode :: m.inodes }

/-- `ramfs_close`. -/
def close (m : RamMount) (inode : Nat) : Except Fault RamMount := do
  let fs ← m.dir.fs.closeInode inode
  return { m with
    dir := { m.dir with fs := fs }
    inodes := m.inodes.erase inode
    frees := (m.dir.fs.heap, (m.dir.fs.inodes inode).implInode) :: m.frees }

/-- `ramfs_deletefs`. -/
def delete (m : RamMount) : FreeLog :=
  ramfsDeletefs ⟨m.filesystem, m.dir.arguments⟩ ⟨m.dir.fs.heap, m.frees⟩

end RamMount

inductive RamMountEvent
  /-- `ramfs_create_internal` of a string with these characters. -/
  | create (filename : List Byte)
  /-- `ramfs_close`. -/
  | close (inode : Nat)

/-- One step.  Only inodes that were created on the filesystem are closed, and only once. -/
def RamMountStep (m : RamMount) : RamMountEvent → RamMount → Prop
  | .create filename, m' => 0 ∉ filename ∧ ∃ rounds, m.create rounds filename = .ok m'
  | .close inode, m' => inode ∈ m.inodes ∧ m.close inode = .ok m'

/-- From `ramfs_createfs` on, with whatever the memory holds. -/
def ramMountMachine (fs : InodeState) : Machine RamMount RamMountEvent where
  start m := ∃ mem, RamMount.createfs fs mem = .ok m
  step := RamMountStep

/-- The kernel after `fs_init_slab` and a run in which every call through an inode went right. -/
def InodesReached (fs : InodeState) : Prop :=
  ∃ st tr, inodeMachine.start st ∧ inodeMachine.Run st tr fs ∧
    ∀ a e b, (a, e, b) ∈ tr → CallGoesRight a e

/-- Unmounting leaves the heap as it was before mounting, and no `kfree` in between frees a region
    that is older. -/
structure Unmounted (before : HeapState) (t : FreeLog) : Prop where
  back : GivesBack before t.heap
  own : ∀ c ∈ t.frees, FreesOwn before c.1 c.2

/-- The bytes that `fat_load` asks for: the table and the root directory. -/
def tableBytes (disk : Disk) : Nat := 2 * (fat16HeaderOf disk).sectors
def rootBytes (disk : Disk) : Nat := (fat16HeaderOf disk).possibleRootEntries * fat16DirEntrySize

/-! ## The FAT filesystem -/

/-- What `fat_load` allocates. -/
theorem fatLoadOn_ok {disk : Disk} {handleMem fatMem entriesMem : Mem} {heap loaded : HeapState}
    {h : LoadedFat} (hload : fatLoadOn disk handleMem fatMem entriesMem heap = .ok (h, loaded)) :
    h.fat = (heap.kalloc (tableBytes disk)).1 ∧
      h.entries = ((heap.kalloc (tableBytes disk)).2.kalloc (rootBytes disk)).1 ∧
      loaded = ((heap.kalloc (tableBytes disk)).2.kalloc (rootBytes disk)).2 := by
  obtain ⟨handle, hfat, hret⟩ := bind_eq_ok hload
  have hsizes : handle.fatSizeBytes = tableBytes disk ∧
      handle.dirEntrySizeBytes = rootBytes disk := by
    unfold fatLoad at hfat
    rw [fat16HeaderOf_loaded] at hfat
    obtain ⟨_, -, hfat⟩ := bind_eq_ok hfat
    obtain ⟨_, -, hfat⟩ := bind_eq_ok hfat
    obtain ⟨_, -, hfat⟩ := bind_eq_ok hfat
    obtain rfl := Except.ok.inj hfat
    exact ⟨rfl, rfl⟩
  obtain ⟨rfl, rfl⟩ := Prod.mk.inj (Except.ok.inj hret)
  rw [← hsizes.1, ← hsizes.2]
  exact ⟨rfl, rfl, rfl⟩

section Fat

variable {before st : HeapState} {own : List (Nat × Nat)}

/-- `fat_load`, on a heap with these regions. -/
theorem HeapWith.fatLoadOn {disk : Disk} {handleMem fatMem entriesMem : Mem} {loaded : HeapState}
    {h : LoadedFat} (hw : HeapWith before st own)
    (hload : fatLoadOn disk handleMem fatMem entriesMem st = .ok (h, loaded)) :
    HeapWith before loaded ((h.entries, rootBytes disk) :: (h.fat, tableBytes disk) :: own) ∧
      (h.fat = 0 ∧ h.entries = 0 ↔ NoRoom st (tableBytes disk) ∧ NoRoom st (rootBytes disk)) := by
  obtain ⟨hfat, hentries, rfl⟩ := fatLoadOn_ok hload
  rw [hfat, hentries]
  refine ⟨(hw.kalloc _).kalloc _, ?_⟩
  rw [← hw.inv.kalloc_null_iff, ← hw.inv.kalloc_null_iff]
  refine and_congr_right fun hnull => ?_
  -- without a table the heap is the same
  rw [hw.inv.kalloc_unchanged hnull]

/-- **`fat_load` and `fat_clear`.**  The heap is as it was if and only if there was no room for the
    table and the directory, and the byte that `kfree(NULL)` looks at is not marked. -/
theorem fatClear_iff {disk : Disk} {handleMem fatMem entriesMem : Mem} {loaded : HeapState}
    {h : LoadedFat} (hw : HeapWith before before [])
    (hload : fatLoadOn disk handleMem fatMem entriesMem before = .ok (h, loaded)) :
    Unmounted before (fatClear h ⟨loaded, []⟩).2 ↔
      (NoRoom before (tableBytes disk) ∧ NoRoom before (rootBytes disk)) ∧ IgnoresNull before := by
  obtain ⟨hloaded, hroom⟩ := hw.fatLoadOn hload
  rw [← hroom]
  simp only [fatClear]
  by_cases hfat : h.fat = 0
  · by_cases hentries : h.entries = 0
    · -- `kfree(NULL)` twice
      rw [if_pos hfat, if_pos hentries, hfat, hentries, ← hloaded.freesOwn_null_iff]
      constructor
      · rintro ⟨-, hown⟩
        exact ⟨⟨rfl, rfl⟩, hown (loaded, 0) (List.mem_cons_of_mem _ List.mem_cons_self)⟩
      · rintro ⟨-, hfrees⟩
        have hkfree := hloaded.kfree_null (hloaded.freesOwn_null_iff.mp hfrees)
        simp only [FreeLog.kfree, hkfree]
        refine ⟨hloaded.givesBack_iff.mpr ?_, fun c hc => ?_⟩
        · simp [hfat, hentries]
        · rcases List.mem_cons.mp hc with rfl | hc
          · exact hfrees
          · rw [List.mem_singleton.mp hc]
            exact hfrees
    · refine ⟨fun hun => ?_, fun hcond => absurd hcond.1.2 hentries⟩
      -- the directory stays live
      rw [if_neg hentries] at hun
      obtain ⟨hlive, hnot⟩ := hloaded.mem_live List.mem_cons_self hentries
      refine absurd ((hun.back.live _).mp ?_) hnot
      rw [if_pos hfat, hfat]
      exact List.mem_filter.mpr ⟨hlive, decide_eq_true hentries⟩
  · refine ⟨fun hun => ?_, fun hcond => absurd hcond.1.1 hfat⟩
    -- the table stays live
    obtain ⟨hlive, hnot⟩ := hloaded.mem_live (List.mem_cons_of_mem _ List.mem_cons_self) hfat
    refine absurd ((hun.back.live _).mp ?_) hnot
    rw [if_neg hfat]
    split
    · rename_i hentries
      rw [hentries]
      exact List.mem_filter.mpr ⟨hlive, decide_eq_true hfat⟩
    · exact hlive

/-- `deletefs` of a filesystem whose two structures are among the regions. -/
theorem HeapWith.deletefs {rest : List (Nat × Nat)} {argSize : Nat} (hw : HeapWith before st own)
    (fs : Filesystem)
    (hown : own.Perm ((fs.arguments, argSize) :: (fs.address, sizeofFilesystem) :: rest))
    (hargs : fs.arguments ≠ 0) (hfs : fs.address ≠ 0) (hone : allocBlocks argSize = 1)
    {frees : List (HeapState × Nat)} (hfrees : ∀ c ∈ frees, FreesOwn before c.1 c.2) :
    Unmounted before (TinyKernel.deletefs fs ⟨st, frees⟩) ↔ ∀ a ∈ rest, a.1 = 0 := by
  have hw₁ := hw.kfree hown hargs hone
  have hw₂ := hw₁.kfree (List.Perm.refl _) hfs (show allocBlocks sizeofFilesystem = 1 by decide)
  constructor
  · rintro ⟨hback, -⟩
    exact hw₂.givesBack_iff.mp hback
  · intro hnone
    refine ⟨hw₂.givesBack_iff.mpr hnone, fun c hc => ?_⟩
    rcases List.mem_cons.mp hc with rfl | hc
    · exact hw₁.freesOwn List.mem_cons_self hfs
    · rcases List.mem_cons.mp hc with rfl | hc
      · exact (hw.perm hown).freesOwn List.mem_cons_self hargs
      · exact hfrees c hc

/-- `deletefs` of a filesystem whose `arguments` are `NULL`. -/
theorem HeapWith.deletefs_null {rest : List (Nat × Nat)} (hw : HeapWith before st own)
    (fs : Filesystem) (hown : own.Perm ((fs.address, sizeofFilesystem) :: rest))
    (hargs : fs.arguments = 0) (hfs : fs.address ≠ 0)
    {frees : List (HeapState × Nat)} (hfrees : ∀ c ∈ frees, FreesOwn before c.1 c.2) :
    Unmounted before (TinyKernel.deletefs fs ⟨st, frees⟩) ↔
      (∀ a ∈ rest, a.1 = 0) ∧ IgnoresNull before := by
  have hnull := hw.freesOwn_null_iff
  simp only [TinyKernel.deletefs, FreeLog.kfree, hargs]
  constructor
  · rintro ⟨hback, hall⟩
    have hignored := hnull.mp (hall (st, 0) (List.mem_cons_of_mem _ List.mem_cons_self))
    rw [hw.kfree_null hignored] at hback
    have hw₁ := hw.kfree hown hfs (show allocBlocks sizeofFilesystem = 1 by decide)
    exact ⟨hw₁.givesBack_iff.mp hback, hignored⟩
  · rintro ⟨hnone, hignored⟩
    rw [hw.kfree_null hignored]
    have hw₁ := hw.kfree hown hfs (show allocBlocks sizeofFilesystem = 1 by decide)
    refine ⟨hw₁.givesBack_iff.mpr hnone, fun c hc => ?_⟩
    rcases List.mem_cons.mp hc with rfl | hc
    · exact (hw.perm hown).freesOwn List.mem_cons_self hfs
    · rcases List.mem_cons.mp hc with rfl | hc
      · exact hnull.mpr hignored
      · exact hfrees c hc

/-- **`fatfs_createfs` and `fatfs_deletefs`.**  The heap is as it was if and only if there was no
    room for the table and the directory. -/
theorem fatfsDeletefs_iff {disk : Disk} {handleMem fatMem entriesMem : Mem} {created : HeapState}
    {fs : Filesystem} (hw : HeapWith before before [])
    (hcreate : fatfsCreatefs disk handleMem fatMem entriesMem before = .ok (fs, created)) :
    Unmounted before (fatfsDeletefs fs ⟨created, []⟩) ↔
      NoRoom (before.kalloc sizeofFatHandle).2 (tableBytes disk) ∧
        NoRoom (before.kalloc sizeofFatHandle).2 (rootBytes disk) := by
  have hw₁ := hw.kalloc sizeofFatHandle
  rw [fatfsCreatefs] at hcreate
  generalize before.kalloc sizeofFatHandle = handle at *
  obtain ⟨⟨h, loaded⟩, hload, hrest⟩ := bind_eq_ok hcreate
  obtain ⟨hargs, hrest⟩ := guard_eq_ok hrest
  obtain ⟨hfs, hret⟩ := guard_eq_ok hrest
  obtain ⟨rfl, rfl⟩ := Prod.mk.inj (Except.ok.inj hret)
  obtain ⟨hw₂, hroom⟩ := hw₁.fatLoadOn hload
  have hw₃ := hw₂.kalloc sizeofFilesystem
  have hperm : ∀ a b c d : Nat × Nat, [a, b, c, d].Perm [d, a, b, c] := fun a b c d =>
    show ([a, b, c] ++ [d]).Perm ([d] ++ [a, b, c]) from List.perm_append_comm
  refine (hw₃.deletefs _ (hperm _ _ _ _) hargs hfs (show allocBlocks sizeofFatHandle = 1 by decide)
    fun c hc => absurd hc List.not_mem_nil).trans ?_
  rw [← hroom]
  simp [and_comm]

end Fat

/-! ## The ram filesystem -/

/-- The regions of the files: the node and the buffer of each. -/
def fileRegions (files : List CreatedFile) : List (Nat × Nat) :=
  files.flatMap fun f => [(f.node, sizeofRamFile), (f.content, ramfileStartsize)]

/-- The regions of a mounted filesystem. -/
def RamMount.regions (m : RamMount) : List (Nat × Nat) :=
  m.inodes.map (fun p => ((m.dir.fs.inodes p).implInode, sizeofRamInode)) ++
    fileRegions m.dir.created ++
    [(m.dir.arguments, sizeofRamFilesystem), (m.filesystem, sizeofFilesystem)]

/-- What is live is what was live before, and the regions of the filesystem. -/
structure RamMountInv (before : HeapState) (m : RamMount) : Prop where
  slab : InodeInv m.dir.fs
  opened : ∀ p ∈ m.inodes, ⟨p, .ram, (m.dir.fs.inodes p).implInode⟩ ∈ m.dir.fs.opened
  nodup : m.inodes.Nodup
  filesystem : m.filesystem ≠ 0
  nodes : ∀ f ∈ m.dir.created, f.node ≠ 0
  heap : HeapWith before m.dir.fs.heap m.regions
  frees : ∀ c ∈ m.frees, FreesOwn before c.1 c.2

/-- An open takes one region. -/
theorem OpensWith.heap_eq {st st' : InodeState} {fs : FsKind} (h : OpensWith st st' fs) :
    st'.heap = (st.heap.kalloc fs.implSize).2 := by
  obtain ⟨p, q, mem, heap, x, -, hkalloc, -, -, -, rfl⟩ := h
  rw [hkalloc]

/-- An open puts the new inode to a slot of its own. -/
theorem OpensWith.slot {st st' : InodeState} {fs : FsKind} (h : OpensWith st st' fs)
    (hinv : InodeInv st) : ∃ p,
    st'.opened = ⟨p, fs, (st'.inodes p).implInode⟩ :: st.opened ∧
      (st'.inodes p).implInode = (st.heap.kalloc fs.implSize).1 ∧
      ∀ l ∈ st.opened, l.inode ≠ p ∧ st'.inodes l.inode = st.inodes l.inode := by
  have hslots := (hinv.opensWith h).slab.nodup
  obtain ⟨p, q, mem, heap, x, -, hkalloc, -, himpl, -, rfl⟩ := h
  have himpl' : (Function.update st.inodes p x p).implInode = q := by
    rw [Function.update_self, himpl]
  have hout := (List.nodup_cons.mp hslots).1
  refine ⟨p, ?_, ?_, fun l hl => ?_⟩
  · rw [himpl']
  · rw [himpl', hkalloc]
  · have hne : l.inode ≠ p := by
      rintro rfl
      exact hout (List.mem_map.mpr ⟨l, hl, rfl⟩)
    exact ⟨hne, Function.update_of_ne hne _ _⟩

/-- The inodes are in order, and the counter of the heap fits. -/
theorem InodesReached.inv {fs : InodeState} (h : InodesReached fs) :
    InodeInv fs ∧ fs.heap.Bounded := by
  obtain ⟨st, tr, h0, hr, hright⟩ := h
  refine hr.invariant (I := fun st => InodeInv st ∧ st.heap.Bounded)
    (Q := fun a e _ => CallGoesRight a e) ?_
    ⟨InodeInv.start h0, HeapState.Bounded.reach h0.1⟩ hright
  rintro a e b ⟨hinv, hb⟩ hstep hgoes
  obtain ⟨hiff, hkeep⟩ := hinv.step hstep
  refine ⟨hkeep (hiff.mp hgoes), ?_⟩
  cases e with
  | fatOpen =>
    rw [(fatfsOpen_ok hstep).heap_eq]
    exact hb.kalloc _
  | ramCreate =>
    rw [(ramfsCreate_ok hstep).heap_eq]
    exact ((hb.kalloc _).kalloc _).kalloc _
  | ramOpen =>
    rw [(ramfsAllocateInode_ok hstep).heap_eq]
    exact hb.kalloc _
  | heap e =>
    obtain ⟨⟨heap, hheap, rfl⟩, -⟩ := hstep
    exact hb.step hheap
  | call op l =>
    have heffect := hstep.2.2 (hgoes op l rfl)
    cases op with
    | close =>
      obtain ⟨r, mem, -, rfl⟩ := closeInode_ok heffect
      exact hb.kfree _
    | get | put | left =>
      obtain rfl := heffect
      exact hb

/-- What a create does to the inodes and the heap. -/
theorem RamDir.ramfsCreateInternal_opens {st st' : RamDir} {rounds inode : Nat}
    {filename : List Byte} (h : st.ramfsCreateInternal rounds filename = .ok (inode, st')) :
    let node := st.fs.heap.kalloc sizeofRamFile
    let content := node.2.kalloc ramfileStartsize
    OpensWith { st.fs with heap := content.2 } st'.fs .ram ∧
      inode = (st'.fs.opened.head?.map (·.inode)).getD 0 ∧ node.1 ≠ 0 ∧
      st'.arguments = st.arguments ∧ st'.created = st.created ++ [⟨node.1, filename, content.1⟩] := by
  obtain ⟨link, -, hrest⟩ := bind_eq_ok h
  obtain ⟨hsetup, hrest⟩ := guard_eq_ok hrest
  obtain ⟨fs, hfs, hret⟩ := bind_eq_ok hrest
  obtain ⟨rfl, rfl⟩ := Prod.mk.inj (Except.ok.inj hret)
  exact ⟨TinyKernel.ramfsAllocateInode_ok hfs, rfl, hsetup, rfl, rfl⟩

namespace RamMountInv

variable {before : HeapState} {m m' : RamMount}

/-- After `ramfs_createfs`. -/
theorem start {fs : InodeState} (hinv : InodeInv fs) (hb : fs.heap.Bounded)
    (h0 : (ramMountMachine fs).start m) : RamMountInv fs.heap m ∧ m.dir.created = [] ∧
      m.dir.arguments = ((fs.heap.kalloc sizeofFilesystem).2.kalloc sizeofRamFilesystem).1 := by
  obtain ⟨mem, hcreate⟩ := h0
  obtain ⟨dir, hdir, hret⟩ := bind_eq_ok hcreate
  obtain ⟨hne, hret'⟩ := guard_eq_ok hdir
  obtain rfl := Except.ok.inj hret'
  obtain rfl := Except.ok.inj hret
  refine ⟨⟨(hinv.kalloc _).kalloc _, fun p hp => absurd hp List.not_mem_nil, List.nodup_nil, hne,
    fun f hf => absurd hf List.not_mem_nil, ?_, fun c hc => absurd hc List.not_mem_nil⟩, rfl, rfl⟩
  exact ((HeapWith.start hinv.heap hb).kalloc _).kalloc _

/-- The regions after a create: the data of the inode, the buffer and the node are new. -/
theorem regions_perm (m m' : RamMount) {inode : Nat} {f : CreatedFile}
    (hfs : m'.filesystem = m.filesystem) (hargs : m'.dir.arguments = m.dir.arguments)
    (hcreated : m'.dir.created = m.dir.created ++ [f])
    (hinodes : m'.inodes = inode :: m.inodes)
    (hkeep : ∀ p ∈ m.inodes, m'.dir.fs.inodes p = m.dir.fs.inodes p) :
    (((m'.dir.fs.inodes inode).implInode, sizeofRamInode) :: (f.content, ramfileStartsize) ::
      (f.node, sizeofRamFile) :: m.regions).Perm m'.regions := by
  have hmap : (m.inodes.map fun p => ((m'.dir.fs.inodes p).implInode, sizeofRamInode))
      = m.inodes.map fun p => ((m.dir.fs.inodes p).implInode, sizeofRamInode) :=
    List.map_congr_left fun p hp => by rw [hkeep p hp]
  refine List.perm_iff_count.mpr fun a => ?_
  simp only [RamMount.regions, hfs, hargs, hcreated, hinodes, hmap, List.map_cons,
    fileRegions, List.flatMap_append, List.flatMap_cons, List.flatMap_nil, List.append_nil,
    List.cons_append, List.count_append, List.count_cons, List.count_nil]
  omega

/-- A create adds three regions: the node, the buffer and the data of the inode. -/
theorem create (h : RamMountInv before m) {rounds : Nat} {filename : List Byte}
    (hcreate : m.create rounds filename = .ok m') : RamMountInv before m' ∧
      m'.dir.created ≠ [] ∧ m'.dir.arguments = m.dir.arguments := by
  obtain ⟨⟨inode, dir⟩, hdir, hret⟩ := bind_eq_ok hcreate
  obtain rfl := Except.ok.inj hret
  obtain ⟨hopens, hinode, hnode, hargs, hcreated⟩ := RamDir.ramfsCreateInternal_opens hdir
  have hslab := (h.slab.kalloc sizeofRamFile).kalloc ramfileStartsize
  have hw := ((h.heap.kalloc sizeofRamFile).kalloc ramfileStartsize).kalloc sizeofRamInode
  obtain ⟨p, hopened, himpl, hother⟩ := hopens.slot hslab
  obtain rfl : inode = p := by rw [hinode, hopened]; rfl
  have hold : ∀ p ∈ m.inodes, p ≠ inode ∧ dir.fs.inodes p = m.dir.fs.inodes p :=
    fun p hp => hother _ (h.opened p hp)
  refine ⟨⟨hslab.opensWith hopens, fun p hp => ?_, ?_, h.filesystem, fun f hf => ?_, ?_, h.frees⟩,
    ?_, hargs⟩
  · dsimp only at hp ⊢
    rw [hopened]
    rcases List.mem_cons.mp hp with rfl | hp
    · exact List.mem_cons_self
    · rw [(hold p hp).2]
      exact List.mem_cons_of_mem _ (h.opened p hp)
  · exact List.nodup_cons.mpr ⟨fun hin => (hold inode hin).1 rfl, h.nodup⟩
  · dsimp only at hf
    rw [hcreated] at hf
    rcases List.mem_append.mp hf with hf | hf
    · exact h.nodes f hf
    · rw [List.mem_singleton.mp hf]
      exact hnode
  · show HeapWith before dir.fs.heap _
    rw [hopens.heap_eq]
    refine hw.perm ?_
    have hperm := regions_perm m ⟨dir, m.filesystem, inode :: m.inodes, m.frees⟩ rfl hargs
      hcreated rfl fun p hp => (hold p hp).2
    dsimp only at hperm
    rwa [himpl] at hperm
  · show dir.created ≠ []
    rw [hcreated]
    exact List.append_ne_nil_of_right_ne_nil _ (List.cons_ne_nil _ _)

/-- A close gives the data of the inode back. -/
theorem close (h : RamMountInv before m) {inode : Nat} (hin : inode ∈ m.inodes)
    (hclose : m.close inode = .ok m') : RamMountInv before m' ∧
      m'.dir.created = m.dir.created ∧ m'.dir.arguments = m.dir.arguments := by
  obtain ⟨fs, hfs, hret⟩ := bind_eq_ok hclose
  obtain rfl := Except.ok.inj hret
  have hopened := h.opened inode hin
  have hinv := h.slab.close hopened hfs
  have hlive := (h.slab.heap.inside (h.slab.data _ hopened)).1
  have hne : (m.dir.fs.inodes inode).implInode ≠ 0 := by
    dsimp only at hlive
    omega
  have hperm : m.regions.Perm (((m.dir.fs.inodes inode).implInode, sizeofRamInode) ::
      ((m.inodes.erase inode).map (fun p => ((m.dir.fs.inodes p).implInode, sizeofRamInode)) ++
        fileRegions m.dir.created ++
        [(m.dir.arguments, sizeofRamFilesystem), (m.filesystem, sizeofFilesystem)])) :=
    (((List.perm_cons_erase hin).map _).append_right _).append_right _
  have hheap := h.heap.kfree hperm hne (show allocBlocks sizeofRamInode = 1 by decide)
  obtain ⟨r, mem, -, rfl⟩ := closeInode_ok hfs
  refine ⟨⟨hinv, fun p hp => ?_, h.nodup.erase _, h.filesystem, h.nodes, ?_, fun c hc => ?_⟩, rfl,
    rfl⟩
  · obtain ⟨hp', hmem⟩ := (h.nodup.mem_erase_iff).mp hp
    exact List.mem_filter.mpr ⟨h.opened p hmem, decide_eq_true hp'⟩
  · exact hheap
  · rcases List.mem_cons.mp hc with rfl | hc
    · exact (h.heap.perm hperm).freesOwn List.mem_cons_self hne
    · exact h.frees c hc

/-- **Any sequence of creates and closes**: nothing but the regions of the filesystem is new, and
    there is a file if and only if one was created. -/
theorem run {fs : InodeState} {tr : List (RamMount × RamMountEvent × RamMount)}
    (hr : (ramMountMachine fs).Run m tr m') : RamMountInv before m → RamMountInv before m' ∧
      (m'.dir.created = [] ↔ m.dir.created = [] ∧ ∀ a name b, (a, .create name, b) ∉ tr) ∧
      m'.dir.arguments = m.dir.arguments := by
  induction hr with
  | nil m => exact fun h => ⟨h, (and_iff_left fun _ _ _ => List.not_mem_nil).symm, rfl⟩
  | @cons a b u e tr hstep _ ih =>
    intro h
    cases e with
    | create name =>
      obtain ⟨-, rounds, hcreate⟩ := hstep
      obtain ⟨hinv, hsome, hargs⟩ := h.create hcreate
      obtain ⟨hinv', hfiles, hargs'⟩ := ih hinv
      refine ⟨hinv', hfiles.trans ?_, hargs'.trans hargs⟩
      exact ⟨fun hnone => absurd hnone.1 hsome, fun hnone => absurd List.mem_cons_self (hnone.2 _ _ _)⟩
    | close inode =>
      obtain ⟨hinv, hsame, hargs⟩ := h.close hstep.1 hstep.2
      obtain ⟨hinv', hfiles, hargs'⟩ := ih hinv
      refine ⟨hinv', hfiles.trans ?_, hargs'.trans hargs⟩
      rw [hsame]
      simp

/-- **`ramfs_deletefs`**, once all inodes are closed. -/
theorem delete_iff (h : RamMountInv before m) (hclosed : m.inodes = []) :
    Unmounted before m.delete ↔
      m.dir.created = [] ∧ (m.dir.arguments = 0 → IgnoresNull before) := by
  have hregions : m.regions = fileRegions m.dir.created ++
      [(m.dir.arguments, sizeofRamFilesystem), (m.filesystem, sizeofFilesystem)] := by
    rw [RamMount.regions, hclosed]
    rfl
  have hnone : (∀ a ∈ fileRegions m.dir.created, a.1 = 0) ↔ m.dir.created = [] := by
    constructor
    · intro hall
      refine List.eq_nil_iff_forall_not_mem.mpr fun f hf => h.nodes f hf ?_
      exact hall (f.node, sizeofRamFile) (List.mem_flatMap.mpr ⟨f, hf, List.mem_cons_self⟩)
    · intro hnil
      rw [hnil]
      exact fun a ha => absurd ha List.not_mem_nil
  have hw := h.heap
  rw [hregions] at hw
  by_cases hargs : m.dir.arguments = 0
  · have hperm : (fileRegions m.dir.created ++ [(m.dir.arguments, sizeofRamFilesystem),
        (m.filesystem, sizeofFilesystem)]).Perm ((m.filesystem, sizeofFilesystem) ::
          (m.dir.arguments, sizeofRamFilesystem) :: fileRegions m.dir.created) :=
      List.perm_append_comm.trans (List.Perm.swap _ _ _)
    have hiff := hw.deletefs_null ⟨m.filesystem, m.dir.arguments⟩ hperm hargs h.filesystem
      h.frees
    rw [List.forall_mem_cons, hnone] at hiff
    refine hiff.trans ?_
    rw [and_iff_right hargs]
    exact and_congr_right fun _ => ⟨fun hignored _ => hignored, fun hignored => hignored hargs⟩
  · have hiff := hw.deletefs ⟨m.filesystem, m.dir.arguments⟩ List.perm_append_comm hargs
      h.filesystem (show allocBlocks sizeofRamFilesystem = 1 by decide) h.frees
    refine (hiff.trans hnone).trans ?_
    exact (and_iff_left fun hzero => absurd hzero hargs).symm

end RamMountInv

/-! ## All three -/

/-- **Unmounting gives the memory back** if and only if there was nothing to forget.  From every
    heap that the kernel reaches:

    * `fat_load` and `fat_clear`: when there was no room for the table and none for the directory,
      and the byte that `kfree(NULL)` looks at is not marked;
    * `fatfs_createfs` and `fatfs_deletefs`: when there was no room for the two;
    * `ramfs_createfs`, creates and closes in any order, and `ramfs_deletefs`, with no inode left
      open: when no file was created, and `filesystem->arguments` is not `NULL` or `kfree(NULL)` is
      harmless. -/
theorem unmount_iff {heap : HeapState} (hheap : kernelHeapMachine.Reach heap) {fs : InodeState}
    (hfs : InodesReached fs) (disk : Disk) (handleMem fatMem entriesMem : Mem) :
    (∀ h loaded, fatLoadOn disk handleMem fatMem entriesMem heap = .ok (h, loaded) →
      (Unmounted heap (fatClear h ⟨loaded, []⟩).2 ↔
        (NoRoom heap (tableBytes disk) ∧ NoRoom heap (rootBytes disk)) ∧ IgnoresNull heap)) ∧
    (∀ m created, fatfsCreatefs disk handleMem fatMem entriesMem heap = .ok (m, created) →
      (Unmounted heap (fatfsDeletefs m ⟨created, []⟩) ↔
        NoRoom (heap.kalloc sizeofFatHandle).2 (tableBytes disk) ∧
          NoRoom (heap.kalloc sizeofFatHandle).2 (rootBytes disk))) ∧
    ∀ m tr m', (ramMountMachine fs).start m → (ramMountMachine fs).Run m tr m' → m'.inodes = [] →
      (Unmounted fs.heap m'.delete ↔ (∀ a name b, (a, .create name, b) ∉ tr) ∧
        (NoRoom (fs.heap.kalloc sizeofFilesystem).2 sizeofRamFilesystem → IgnoresNull fs.heap)) := by
  have hw := HeapWith.start (KernelHeapInv.reach hheap) (HeapState.Bounded.reach hheap)
  obtain ⟨hinv, hb⟩ := hfs.inv
  refine ⟨fun h loaded hload => fatClear_iff hw hload,
    fun m created hcreate => fatfsDeletefs_iff hw hcreate, fun m tr m' h0 hr hclosed => ?_⟩
  obtain ⟨hstart, hempty, hargs⟩ := RamMountInv.start hinv hb h0
  obtain ⟨hfinal, hfiles, hargs'⟩ := RamMountInv.run hr hstart
  rw [hfinal.delete_iff hclosed, hfiles, hargs', hargs,
    (hinv.heap.kalloc_inv _).kalloc_null_iff, and_iff_right hempty]

/-- The heap after `setup_heap`, on memory that was clear. -/
def heapAtBoot : HeapState := ⟨kernelHeap, fun _ => 0, []⟩

theorem heapAtBoot_reach : kernelHeapMachine.Reach heapAtBoot := .start ⟨⟨_, setupHeap_clear⟩, rfl⟩

/-- A volume of no sectors and a ram filesystem without files: all is given back. -/
theorem unmount_iff_empty :
    (∃ h loaded, fatLoadOn (fun _ => 0) (fun _ => 0) (fun _ => 0) (fun _ => 0) heapAtBoot
      = .ok (h, loaded) ∧ Unmounted heapAtBoot (fatClear h ⟨loaded, []⟩).2) ∧
    ∃ m, RamMount.createfs inodesAtBoot (fun _ => 0) = .ok m ∧
      Unmounted inodesAtBoot.heap m.delete := by
  have hreached : InodesReached inodesAtBoot :=
    ⟨inodesAtBoot, [], inodesAtBoot_start, .nil _, nofun⟩
  obtain ⟨hfat, -, hram⟩ := unmount_iff heapAtBoot_reach hreached
    (fun _ => 0) (fun _ => 0) (fun _ => 0) (fun _ => 0)
  constructor
  · have hok : (fatLoadOn (fun _ => 0) (fun _ => 0) (fun _ => 0) (fun _ => 0) heapAtBoot).isOk
        = true := by
      decide +kernel
    rcases hload : fatLoadOn (fun _ => 0) (fun _ => 0) (fun _ => 0) (fun _ => 0) heapAtBoot with
      _ | ⟨h, loaded⟩
    · rw [hload] at hok
      cases hok
    · have hsizes : tableBytes (fun _ => 0) = 0 ∧ rootBytes (fun _ => 0) = 0 := by decide +kernel
      exact ⟨h, loaded, rfl, (hfat h loaded hload).mpr
        ⟨⟨Or.inl hsizes.1, Or.inl hsizes.2⟩, by unfold IgnoresNull heapAtBoot; decide⟩⟩
  · have hok : (RamMount.createfs inodesAtBoot fun _ => 0).isOk = true := by decide +kernel
    rcases hcreate : RamMount.createfs inodesAtBoot (fun _ => 0) with _ | m
    · rw [hcreate] at hok
      cases hok
    · have hclosed : m.inodes = [] := by
        obtain ⟨dir, -, hret⟩ := bind_eq_ok hcreate
        rw [← Except.ok.inj hret]
      refine ⟨m, rfl, (hram m [] m ⟨_, hcreate⟩ (.nil m) hclosed).mpr ⟨nofun, fun _ => ?_⟩⟩
      unfold IgnoresNull
      decide +kernel

/-- On `smallVolume`, the table and the directory are still live after `fat_clear`. -/
theorem fat_clear_frees_nothing : ∃ h loaded,
    fatLoadOn smallVolume (fun _ => 0) (fun _ => 0) (fun _ => 0) heapAtBoot = .ok (h, loaded) ∧
      (fatClear h ⟨loaded, []⟩).2.heap.live = [(0x40181000, 512), (0x40180000, 16)] ∧
      (fatClear h ⟨loaded, []⟩).2.heap.heap.freeBlocks = 0xfffe ∧
      ¬ Unmounted heapAtBoot (fatClear h ⟨loaded, []⟩).2 := by
  have hrun : (match fatLoadOn smallVolume (fun _ => 0) (fun _ => 0) (fun _ => 0) heapAtBoot with
      | .ok (h, loaded) => decide (
          (fatClear h ⟨loaded, []⟩).2.heap.live = [(0x40181000, 512), (0x40180000, 16)] ∧
          (fatClear h ⟨loaded, []⟩).2.heap.heap.freeBlocks = 0xfffe)
      | .error _ => false) = true := by
    decide +kernel
  rcases hload : fatLoadOn smallVolume (fun _ => 0) (fun _ => 0) (fun _ => 0) heapAtBoot with
    _ | ⟨h, loaded⟩
  · rw [hload] at hrun
    cases hrun
  · rw [hload] at hrun
    obtain ⟨hlive, hcount⟩ := of_decide_eq_true hrun
    refine ⟨h, loaded, rfl, hlive, hcount, fun hun => ?_⟩
    have hfree : (fatClear h ⟨loaded, []⟩).2.heap.heap.freeBlocks = 0x10000 := hun.back.freeBlocks
    rw [hcount] at hfree
    exact absurd hfree (by decide)

end TinyKernel
