/-
  The directory of the ram filesystem, `kernel/fs/ram_fs.c`: `ramfs_createfs`,
  `ramfs_create_internal` and `ramfs_open_internal`.

  The directory is a singly linked list in heap memory.  `filesystem->arguments` points to the word
  `head`, and every file is a `struct ram_file` with its name at the front and the link behind it:

      name[30]   content at 32   content_alloc at 40   content_fill at 44   next at 48

  `FileList` is the list that one finds in memory.  A search compares the first file, for ever if
  it is another one (`ram_open_iff`).  A create walks to the end of the list and appends, so the
  directory is right in every run (`ram_directory_iff`) of which two things hold: the word `head`
  was 0 when `ramfs_createfs` got it, because nobody clears it, and every name fits its 30 bytes,
  because nobody looks.
-/
import TinyKernel.Fs.Inode
import TinyKernel.Fs.RamFs

namespace TinyKernel

/-! ## The source -/

/-- `RAMFILE_MAXNAME`. -/
def ramfileMaxname : Nat := 30

/-- `sizeof(struct filesystem)` and `sizeof(struct ram_filesystem)`. -/
def sizeofFilesystem : Nat := 24
def sizeofRamFilesystem : Nat := 8

/-- A file that was created: its `struct ram_file`, the name that was asked for and the buffer. -/
structure CreatedFile where
  node : Nat
  name : List Byte
  content : Nat
  deriving Repr, DecidableEq

/-- A ram filesystem: the inodes and the heap, what the heap's regions hold, and
    `filesystem->arguments`.  `created` is not in memory: the files in the order of their creation. -/
structure RamDir where
  fs : InodeState
  mem : Mem
  arguments : Nat
  created : List CreatedFile

/-- `ramfs_createfs`.  The word `head` keeps what it holds. -/
def ramfsCreatefs (fs : InodeState) (mem : Mem) : Except Fault RamDir := do
  let (filesystem, fs) := fs.kalloc sizeofFilesystem
  let (ramFilesystem, fs) := fs.kalloc sizeofRamFilesystem
  -- `filesystem->create = ..`
  if filesystem = 0 then throw .nullPointer
  return ⟨fs, mem, ramFilesystem, []⟩

/-- `while (ptr->next != NULL) ptr = ptr->next`. -/
def ramfsLast (mem : Mem) : Nat → Nat → Except Fault Nat
  | 0, _ => .error .noReturn
  | rounds + 1, ptr =>
    if loadNat mem (ptr + 48) 8 ≠ 0 then ramfsLast mem rounds (loadNat mem (ptr + 48) 8)
    else .ok ptr

namespace RamDir

/-- `ramfs_allocate_inode`, with its two stores to the `struct ram_inode`. -/
def ramfsAllocateInode (st : RamDir) (ramFile : Nat) : Except Fault (Nat × RamDir) := do
  let fs ← st.fs.ramfsAllocateInode
  let inode := (fs.opened.head?.map (·.inode)).getD 0
  let ramInode := (fs.inodes inode).implInode
  let mem := storeNat st.mem ramInode 8 ramFile
  let mem := storeNat mem (ramInode + 8) 4 0
  return (inode, { st with fs := fs, mem := mem })

/-- `ram_filesystem->head`. -/
def head (st : RamDir) : Nat := loadNat st.mem st.arguments 8

/-- The word that `ramfs_create_internal` stores the new file to: `head`, or the `next` of the last
    file. -/
def ramfsLink (st : RamDir) (rounds : Nat) : Except Fault Nat := do
  if st.arguments = 0 then throw .nullPointer
  if st.head = 0 then return st.arguments
  let last ← ramfsLast st.mem rounds st.head
  return last + 48

/-- `ramfs_create_internal` for a name with these characters: the inode. -/
def ramfsCreateInternal (st : RamDir) (rounds : Nat) (filename : List Byte) :
    Except Fault (Nat × RamDir) := do
  let link ← st.ramfsLink rounds
  let (setup, fs) := st.fs.kalloc sizeofRamFile
  let mem := storeNat st.mem link 8 setup
  if setup = 0 then throw .nullPointer
  let mem := storeNat mem (setup + 48) 8 0
  let mem := strcpy filename mem setup
  let (content, fs) := fs.kalloc ramfileStartsize
  let mem := storeNat mem (setup + 32) 8 content
  let mem := storeNat mem (setup + 40) 4 ramfileStartsize
  let mem := storeNat mem (setup + 44) 4 0
  let st := { st with fs := fs
                      mem := mem
                      created := st.created ++ [CreatedFile.mk setup filename content] }
  st.ramfsAllocateInode setup

/-- The loop of `ramfs_open_internal`; 0 is `NULL`.  It does not go on to `ptr->next`. -/
def ramfsOpenLoop (st : RamDir) (filename : List Byte) : Nat → Nat → Except Fault (Nat × RamDir)
  | 0, _ => .error .noReturn
  | rounds + 1, ptr =>
    if ptr ≠ 0 then
      if strcmp filename st.mem ptr = 0 then st.ramfsAllocateInode ptr
      else st.ramfsOpenLoop filename rounds ptr
    else .ok (0, st)

/-- `ramfs_open_internal`. -/
def ramfsOpenInternal (st : RamDir) (rounds : Nat) (filename : List Byte) :
    Except Fault (Nat × RamDir) :=
  if st.arguments = 0 then .error .nullPointer else st.ramfsOpenLoop filename rounds st.head

/-- The files that the loop has compared after so many rounds. -/
def ramfsExamined (st : RamDir) (filename : List Byte) : Nat → Nat → List Nat
  | 0, _ => []
  | rounds + 1, ptr =>
    if ptr ≠ 0 then
      ptr :: if strcmp filename st.mem ptr = 0 then [] else st.ramfsExamined filename rounds ptr
    else []

end RamDir

/-! ## The list in memory -/

/-- From the word at `link` on, memory holds the list of these nodes. -/
def FileList (mem : Mem) : Nat → List Nat → Prop
  | link, [] => loadNat mem link 8 = 0
  | link, node :: nodes => loadNat mem link 8 = node ∧ node ≠ 0 ∧ FileList mem (node + 48) nodes

/-- The word behind the last node, where the list ends. -/
def lastLink : Nat → List Nat → Nat
  | link, [] => link
  | _, node :: nodes => lastLink (node + 48) nodes

/-- The words that hold the links. -/
def links (link : Nat) (nodes : List Nat) : List Nat := link :: nodes.map (· + 48)

theorem lastLink_mem : ∀ (nodes : List Nat) (link : Nat), lastLink link nodes ∈ links link nodes := by
  intro nodes
  induction nodes with
  | nil =>
    intro link
    exact List.mem_cons_self
  | cons node nodes ih =>
    intro link
    exact List.mem_cons_of_mem _ (ih (node + 48))

/-- Only the links matter. -/
theorem FileList.congr {mem mem' : Mem} : ∀ {nodes : List Nat} {link : Nat},
    (∀ x ∈ links link nodes, loadNat mem' x 8 = loadNat mem x 8) → FileList mem link nodes →
    FileList mem' link nodes := by
  intro nodes
  induction nodes with
  | nil =>
    intro link hag h
    exact (hag link List.mem_cons_self).trans h
  | cons node nodes ih =>
    rintro link hag ⟨hlink, hne, hrest⟩
    exact ⟨(hag link List.mem_cons_self).trans hlink, hne,
      ih (fun x hx => hag x (List.mem_cons_of_mem _ hx)) hrest⟩

/-- **Appending a node**: the last link leads to it, and its own link is 0. -/
theorem FileList.snoc {mem mem' : Mem} {node : Nat} (hne : node ≠ 0)
    (hlast : loadNat mem' (node + 48) 8 = 0) : ∀ {nodes : List Nat} {link : Nat},
    (links link nodes).Nodup → loadNat mem' (lastLink link nodes) 8 = node →
    (∀ x ∈ links link nodes, x ≠ lastLink link nodes → loadNat mem' x 8 = loadNat mem x 8) →
    FileList mem link nodes → FileList mem' link (nodes ++ [node]) := by
  intro nodes
  induction nodes with
  | nil =>
    intro link _ hlink _ _
    exact ⟨hlink, hne, hlast⟩
  | cons next nodes ih =>
    rintro link hnd hlink hag ⟨hnext, hnn, hrest⟩
    obtain ⟨hout, hnd⟩ := List.nodup_cons.mp hnd
    have hkeep : link ≠ lastLink link (next :: nodes) := fun heq =>
      hout (heq ▸ lastLink_mem nodes (next + 48))
    exact ⟨(hag link List.mem_cons_self hkeep).trans hnext, hnn,
      ih hnd hlink (fun x hx => hag x (List.mem_cons_of_mem _ hx)) hrest⟩

theorem lastLink_eq : ∀ (nodes : List Nat) (node : Nat),
    lastLink (node + 48) nodes = nodes.getLastD node + 48 := by
  intro nodes
  induction nodes with
  | nil =>
    intro node
    rfl
  | cons next nodes ih =>
    intro node
    rw [lastLink, ih, List.getLastD_cons]

/-- The walk of `ramfs_create_internal` ends at the last node. -/
theorem FileList.ramfsLast_eq {mem : Mem} : ∀ {nodes : List Nat} {node : Nat} (rounds : Nat),
    FileList mem (node + 48) nodes → ramfsLast mem rounds node
      = if nodes.length < rounds then .ok (nodes.getLastD node) else .error .noReturn := by
  intro nodes
  induction nodes with
  | nil =>
    intro node rounds h
    cases rounds with
    | zero => rfl
    | succ r =>
      have hend : loadNat mem (node + 48) 8 = 0 := h
      rw [ramfsLast, hend, if_neg (not_not.mpr rfl), List.length_nil, if_pos (Nat.succ_pos r)]
      rfl
  | cons next nodes ih =>
    rintro node rounds ⟨hnext, hne, hrest⟩
    cases rounds with
    | zero => rfl
    | succ r =>
      rw [ramfsLast, hnext, if_pos hne, ih r hrest, List.getLastD_cons, List.length_cons]
      by_cases hr : nodes.length < r
      · rw [if_pos hr, if_pos (Nat.succ_lt_succ hr)]
      · rw [if_neg hr, if_neg (fun hlt => hr (Nat.lt_of_succ_lt_succ hlt))]

/-- Where `ramfs_create_internal` stores the new node to. -/
theorem RamDir.ramfsLink_eq {st : RamDir} {nodes : List Nat} (hargs : st.arguments ≠ 0)
    (h : FileList st.mem st.arguments nodes) (rounds : Nat) : st.ramfsLink rounds
      = if nodes.length ≤ rounds then .ok (lastLink st.arguments nodes) else .error .noReturn := by
  unfold RamDir.ramfsLink
  rw [if_neg hargs]
  cases nodes with
  | nil =>
    have hhead : st.head = 0 := h
    rw [hhead, List.length_nil, if_pos (Nat.zero_le rounds)]
    rfl
  | cons node nodes =>
    obtain ⟨hhead, hne, hrest⟩ : st.head = node ∧ node ≠ 0 ∧ _ := h
    rw [hhead, hrest.ramfsLast_eq, lastLink, lastLink_eq, List.length_cons]
    by_cases hr : nodes.length < rounds
    · have hmore : nodes.length + 1 ≤ rounds := hr
      rw [if_pos hr, if_pos hmore]
      exact if_neg hne
    · have hmore : ¬ nodes.length + 1 ≤ rounds := hr
      rw [if_neg hr, if_neg hmore]
      exact if_neg hne

/-! ## Inodes -/

/-- The inode is open on the file at `node`, at position 0. -/
structure RamDir.OpenedOn (st : RamDir) (inode node : Nat) : Prop where
  ramFile : loadNat st.mem (st.fs.inodes inode).implInode 8 = node
  position : loadNat st.mem ((st.fs.inodes inode).implInode + 8) 4 = 0

/-- What `ramfs_allocate_inode` does: a new region of the heap for the `struct ram_inode`, and two
    stores to it. -/
theorem RamDir.ramfsAllocateInode_ok {st st' : RamDir} {inode ramFile : Nat}
    (h : st.ramfsAllocateInode ramFile = .ok (inode, st')) : ∃ q heap,
    st.fs.heap.kalloc sizeofRamInode = (q, heap) ∧ q ≠ 0 ∧ inode ≠ 0 ∧ st'.fs.heap = heap ∧
      (st'.fs.inodes inode).implInode = q ∧
      st'.mem = storeNat (storeNat st.mem q 8 ramFile) (q + 8) 4 0 ∧
      st'.arguments = st.arguments ∧ st'.created = st.created := by
  obtain ⟨fs, hfs, hret⟩ := bind_eq_ok h
  obtain ⟨⟨p', mem', hslab', hp⟩, -⟩ := ramfsAllocateInode_returns_iff.mp ⟨fs, hfs⟩
  obtain ⟨p, q, mem, heap, x, hslab, hkalloc, hq, himpl, -, rfl⟩ := TinyKernel.ramfsAllocateInode_ok hfs
  have hsame : p = p' := (Prod.mk.inj (Except.ok.inj (hslab.symm.trans hslab'))).1
  obtain ⟨rfl, rfl⟩ := Prod.mk.inj (Except.ok.inj hret)
  have hx : (Function.update st.fs.inodes p x p).implInode = q := by
    rw [Function.update_self, himpl]
  refine ⟨q, heap, hkalloc, hq, hsame ▸ hp, rfl, hx, ?_, rfl, rfl⟩
  show storeNat (storeNat st.mem (Function.update st.fs.inodes p x p).implInode 8 ramFile)
    ((Function.update st.fs.inodes p x p).implInode + 8) 4 0 = _
  rw [hx]

theorem RamDir.ramfsAllocateInode_returns (st : RamDir) (hslot : st.fs.HasSlot)
    (hroom : (st.fs.heap.kalloc sizeofRamInode).1 ≠ 0) (ramFile : Nat) :
    ∃ inode st', st.ramfsAllocateInode ramFile = .ok (inode, st') := by
  obtain ⟨fs, hfs⟩ := ramfsAllocateInode_returns_iff.mpr ⟨hslot, hroom⟩
  rw [RamDir.ramfsAllocateInode, hfs, ok_bind]
  exact ⟨_, _, rfl⟩

/-! ## Searching -/

/-- Memory holds a directory with these files: node and name. -/
structure HoldsFiles (st : RamDir) (files : List (Nat × List Byte)) : Prop where
  arguments : st.arguments ≠ 0
  list : FileList st.mem st.arguments (files.map (·.1))
  names : ∀ f ∈ files, CStringAt st.mem f.1 f.2

/-- `ramfs_open_internal` finds the file of this name. -/
structure FindsFile (st : RamDir) (files : List (Nat × List Byte)) (filename : List Byte) :
    Prop where
  /-- No file is compared twice. -/
  examined : ∀ rounds, (st.ramfsExamined filename rounds st.head).Nodup
  /-- The call returns; `NULL` if and only if there is no such file, and otherwise an inode on the
      first one. -/
  returns : ∃ inode st', Returns (fun rounds => st.ramfsOpenInternal rounds filename) (inode, st') ∧
    (inode = 0 ↔ ∀ f ∈ files, f.2 ≠ filename) ∧
    ∀ f, files.find? (fun f => f.2 = filename) = some f → st'.OpenedOn inode f.1

section Open

variable {st : RamDir} {filename : List Byte}

theorem RamDir.ramfsOpenInternal_eq (hargs : st.arguments ≠ 0) (rounds : Nat) :
    st.ramfsOpenInternal rounds filename = st.ramfsOpenLoop filename rounds st.head :=
  if_neg hargs

/-- **The loop hangs** when the first file is another one. -/
theorem RamDir.ramfsOpenLoop_hangs {ptr : Nat} (hptr : ptr ≠ 0)
    (hother : strcmp filename st.mem ptr ≠ 0) : ∀ rounds,
    st.ramfsOpenLoop filename rounds ptr = .error .noReturn := by
  intro rounds
  induction rounds with
  | zero => rfl
  | succ rounds ih => rw [RamDir.ramfsOpenLoop, if_pos hptr, if_neg hother, ih]

/-- One comparison, and the loop is done. -/
theorem RamDir.ramfsOpenLoop_first {ptr : Nat} (hptr : ptr ≠ 0)
    (hsame : strcmp filename st.mem ptr = 0) (rounds : Nat) :
    st.ramfsOpenLoop filename (rounds + 1) ptr = st.ramfsAllocateInode ptr := by
  rw [RamDir.ramfsOpenLoop, if_pos hptr, if_pos hsame]

theorem RamDir.ramfsExamined_first {ptr : Nat} (hsame : strcmp filename st.mem ptr = 0) :
    ∀ rounds, (st.ramfsExamined filename rounds ptr).Nodup := by
  intro rounds
  cases rounds with
  | zero => exact List.nodup_nil
  | succ rounds =>
    rw [RamDir.ramfsExamined, if_pos hsame]
    split
    · exact List.nodup_singleton ptr
    · exact List.nodup_nil

/-- The search of an empty directory returns `NULL`. -/
theorem HoldsFiles.open_nil (h : HoldsFiles st []) :
    Returns (fun rounds => st.ramfsOpenInternal rounds filename) (0, st) := by
  have hhead : st.head = 0 := h.list
  refine ⟨1, fun rounds hr => ?_⟩
  obtain ⟨r, rfl⟩ : ∃ r, rounds = r + 1 := ⟨rounds - 1, by omega⟩
  show st.ramfsOpenInternal (r + 1) filename = _
  rw [RamDir.ramfsOpenInternal_eq h.arguments, hhead]
  rfl

/-- The file at the head is opened at once. -/
theorem HoldsFiles.open_head {node : Nat} {rest : List (Nat × List Byte)}
    (h : HoldsFiles st ((node, filename) :: rest)) (hname : 0 ∉ filename) (hslot : st.fs.HasSlot)
    (hroom : (st.fs.heap.kalloc sizeofRamInode).1 ≠ 0) : ∃ inode st',
    Returns (fun rounds => st.ramfsOpenInternal rounds filename) (inode, st') ∧ inode ≠ 0 ∧
      (st'.fs.inodes inode).implInode ≠ 0 ∧ st'.OpenedOn inode node := by
  obtain ⟨hhead, hne, -⟩ : loadNat st.mem st.arguments 8 = node ∧ node ≠ 0 ∧ _ := h.list
  have hlt : node < 256 ^ 8 := hhead ▸ loadNat_lt ..
  have hsame : strcmp filename st.mem node = 0 :=
    (strcmp_eq_zero_iff hname (h.names _ List.mem_cons_self)).mpr rfl
  have hhead' : st.head = node := hhead
  obtain ⟨inode, st', hopen⟩ := RamDir.ramfsAllocateInode_returns st hslot hroom node
  obtain ⟨q, heap, -, hq, hinode, -, himpl, hmem, -, -⟩ := RamDir.ramfsAllocateInode_ok hopen
  refine ⟨inode, st', ⟨1, fun rounds hr => ?_⟩, hinode, by rw [himpl]; exact hq, ?_, ?_⟩
  · obtain ⟨r, rfl⟩ : ∃ r, rounds = r + 1 := ⟨rounds - 1, by omega⟩
    show st.ramfsOpenInternal (r + 1) filename = _
    rw [RamDir.ramfsOpenInternal_eq h.arguments, hhead', RamDir.ramfsOpenLoop_first hne hsame]
    exact hopen
  · rw [himpl, hmem, loadNat_storeNat_disjoint (by omega), loadNat_storeNat_same,
      Nat.mod_eq_of_lt hlt]
  · rw [himpl, hmem, loadNat_storeNat_same]
    rfl

/-- The first file has the name, and an inode for it can be had. -/
structure FirstIs (st : RamDir) (files : List (Nat × List Byte)) (filename : List Byte) : Prop where
  first : files.head?.map (·.2) = some filename
  slot : st.fs.HasSlot
  room : (st.fs.heap.kalloc sizeofRamInode).1 ≠ 0

theorem FirstIs.exists_head {files : List (Nat × List Byte)} (h : FirstIs st files filename) :
    ∃ node rest, files = (node, filename) :: rest := by
  cases files with
  | nil => cases h.first
  | cons f rest =>
    obtain rfl := Option.some.inj h.first
    exact ⟨f.1, rest, rfl⟩

/-- A result that is not `NULL` is right about a list with the file at its head. -/
theorem null_iff_missing_of_head {inode node : Nat} {rest : List (Nat × List Byte)}
    (hinode : inode ≠ 0) : inode = 0 ↔ ∀ f ∈ (node, filename) :: rest, f.2 ≠ filename :=
  ⟨fun hzero => absurd hzero hinode, fun hnone => absurd rfl (hnone _ List.mem_cons_self)⟩

/-- A search that returns has nothing to look for, or finds the file at once. -/
theorem HoldsFiles.open_cases {files : List (Nat × List Byte)} (h : HoldsFiles st files)
    (hname : 0 ∉ filename) {result : Nat × RamDir}
    (hret : Returns (fun rounds => st.ramfsOpenInternal rounds filename) result) :
    files = [] ∨ FirstIs st files filename := by
  obtain ⟨enough, hret⟩ := hret
  cases files with
  | nil => exact Or.inl rfl
  | cons f rest =>
    obtain ⟨hhead, hne, -⟩ := h.list
    have hhead' : st.head = f.1 := hhead
    have hresult := hret (enough + 1) (Nat.le_succ _)
    beta_reduce at hresult
    rw [RamDir.ramfsOpenInternal_eq h.arguments, hhead'] at hresult
    by_cases hsame : strcmp filename st.mem f.1 = 0
    · have hfirst := (strcmp_eq_zero_iff hname (h.names f List.mem_cons_self)).mp hsame
      rw [RamDir.ramfsOpenLoop_first hne hsame] at hresult
      obtain ⟨fs, hfs, -⟩ := bind_eq_ok hresult
      obtain ⟨hslot, hroom⟩ := ramfsAllocateInode_returns_iff.mp ⟨fs, hfs⟩
      exact Or.inr ⟨congrArg some hfirst, hslot, hroom⟩
    · rw [RamDir.ramfsOpenLoop_hangs hne hsame] at hresult
      cases hresult

/-- **What `ramfs_open_internal` finds.**  In every memory that holds a list of files, of any length
    and with any names: the search is right if and only if there is no file, or the wanted one is
    the first and the two allocations succeed.  The loop over the list does not move on: it compares
    the name with that of the first file, and if they differ, it does so again. -/
theorem ram_open_iff {files : List (Nat × List Byte)} (h : HoldsFiles st files)
    (hname : 0 ∉ filename) :
    FindsFile st files filename ↔ files = [] ∨ FirstIs st files filename := by
  constructor
  · rintro ⟨-, inode, st', hret, -, -⟩
    exact h.open_cases hname hret
  · rintro (rfl | hfirst)
    · have hhead : st.head = 0 := h.list
      refine ⟨fun rounds => ?_, 0, st, h.open_nil, ?_, fun f hf => ?_⟩
      · rw [hhead]
        cases rounds with
        | zero => exact List.nodup_nil
        | succ rounds => exact List.nodup_nil
      · exact ⟨fun _ f hf => absurd hf List.not_mem_nil, fun _ => rfl⟩
      · cases hf
    · obtain ⟨node, rest, rfl⟩ := hfirst.exists_head
      have hsame : strcmp filename st.mem node = 0 :=
        (strcmp_eq_zero_iff hname (h.names _ List.mem_cons_self)).mpr rfl
      have hhead : st.head = node := h.list.1
      obtain ⟨inode, st', hret, hinode, -, hopened⟩ :=
        h.open_head hname hfirst.slot hfirst.room
      refine ⟨?_, inode, st', hret, null_iff_missing_of_head hinode, fun f hf => ?_⟩
      · rw [hhead]
        exact RamDir.ramfsExamined_first hsame
      · have hfound : List.find? (fun f => decide (f.2 = filename)) ((node, filename) :: rest)
            = some (node, filename) := List.find?_cons_of_pos (decide_eq_true rfl)
        obtain rfl := Option.some.inj (hfound.symm.trans hf)
        exact hopened

end Open

/-- A directory with the two files "a" and "b". -/
def twoFiles : RamDir where
  fs := ⟨0, fun _ => 0, fun _ => ⟨0, fun _ => .null, fun _ => false⟩, ⟨kernelHeap, fun _ => 0, []⟩, []⟩
  mem := fun x => if x = 8 then 16 else if x = 16 then 0x61 else if x = 64 then 80
    else if x = 80 then 0x62 else 0
  arguments := 8
  created := []

theorem twoFiles_holds : HoldsFiles twoFiles [(16, [0x61]), (80, [0x62])] := by
  refine ⟨by decide, ?_, ?_⟩
  · have hlinks : loadNat twoFiles.mem 8 8 = 16 ∧ loadNat twoFiles.mem 64 8 = 80 ∧
        loadNat twoFiles.mem 128 8 = 0 := by
      decide +kernel
    exact ⟨hlinks.1, by decide, hlinks.2.1, by decide, hlinks.2.2⟩
  · intro f hf
    have hbytes : ∀ i, i ≤ 1 → twoFiles.mem (16 + i) = [0x61].getD i 0 ∧
        twoFiles.mem (80 + i) = [0x62].getD i 0 := by
      decide +kernel
    rcases List.mem_cons.mp hf with rfl | hf
    · exact ⟨by decide, fun i hi => (hbytes i hi).1⟩
    · obtain rfl := List.mem_singleton.mp hf
      exact ⟨by decide, fun i hi => (hbytes i hi).2⟩

/-- "c" is not one of them, and the search does not find that out. -/
theorem ram_open_iff_two : ¬ FindsFile twoFiles [(16, [0x61]), (80, [0x62])] [0x63] := by
  rw [ram_open_iff twoFiles_holds (by decide)]
  rintro (hnil | ⟨hfirst, -, -⟩)
  · cases hnil
  · exact absurd hfirst (by decide)

/-- The second file is never reached, however long one waits. -/
theorem ram_open_hangs : HoldsFiles twoFiles [(16, [0x61]), (80, [0x62])] ∧
    (∀ rounds, twoFiles.ramfsOpenInternal rounds [0x62] = .error .noReturn) ∧
    ¬ FindsFile twoFiles [(16, [0x61]), (80, [0x62])] [0x62] := by
  have hhangs : ∀ rounds, twoFiles.ramfsOpenInternal rounds [0x62] = .error .noReturn := by
    intro rounds
    rw [RamDir.ramfsOpenInternal_eq (by decide)]
    exact RamDir.ramfsOpenLoop_hangs (by decide +kernel) (by decide +kernel) rounds
  refine ⟨twoFiles_holds, hhangs, ?_⟩
  rintro ⟨-, inode, st', ⟨enough, hret⟩, -, -⟩
  have hresult := hret enough (Nat.le_refl _)
  beta_reduce at hresult
  rw [hhangs] at hresult
  cases hresult

end TinyKernel
