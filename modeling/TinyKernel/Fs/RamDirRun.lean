/-
  The directory of the ram filesystem over whole runs.

  `ramDirMachine` makes a filesystem in any memory and then creates files, between whatever the
  heap's other clients do.  The directory holds what was created (`DirectoryHolds`) in all of the run
  if and only if the word `head` was 0 from the start, and every create asks for a name that fits
  and finds room for the buffer (`ram_directory_iff`).

  The invariant `RamDirInv` adds what the proofs live on: the word `head`, the nodes and the buffers
  are different regions of the heap.  A create stores to new regions and to the last link, and to
  nothing else (`ramfsCreatedMem_spec`, `RamDirInv.appends`).

  The two failures are of different kinds.  `ramfs_createfs` takes `struct ram_filesystem` from
  `kalloc` and does not clear it, so `head` is whatever the memory held: in clear memory the list is
  empty, and otherwise the first create follows a pointer that nobody stored (`ram_directory_garbage`).
  `ramfs_create_internal` copies the name with `strcpy`, so a name of 32 characters or more runs over
  the fields behind the array.  And the buffer of a file is not checked: a refused `kalloc` makes a
  file whose content is at 0.

  The list is followed as a chain of links (`links`): the word `head` and the `next` fields of the
  nodes.  A create walks to the last one, which is the only one that it stores to, so every file keeps
  its node, its buffer and its place.  What the caller sees is that the names come out in the order in
  which they went in.
-/
import TinyKernel.Lib.Machine
import TinyKernel.Fs.RamDir

namespace TinyKernel

/-! ## What the directory holds -/

/-- The `struct ram_file` of a file that was created: its full name, its buffer, and no byte in it. -/
structure CreatedFile.HeldIn (f : CreatedFile) (mem : Mem) : Prop where
  name : CStringAt mem f.node f.name
  fits : f.name.length < ramfileMaxname
  content : loadNat mem (f.node + 32) 8 = f.content
  contentAlloc : loadNat mem (f.node + 40) 4 = ramfileStartsize
  contentFill : loadNat mem (f.node + 44) 4 = 0

/-- The list from `head` on is finite and consists of the created files in order, each with a buffer
    of its own. -/
structure DirectoryHolds (st : RamDir) : Prop where
  arguments : st.arguments ≠ 0
  list : FileList st.mem st.arguments (st.created.map (·.node))
  files : ∀ f ∈ st.created, f.HeldIn st.mem
  own : (st.created.map (·.content)).Nodup
  buffers : ∀ f ∈ st.created, (f.content, ramfileStartsize) ∈ st.fs.heap.live

/-- The files of `st` are files of `st'`, with the same name, buffer, lengths and contents. -/
def KeepsFiles (st st' : RamDir) : Prop :=
  ∀ f ∈ st.created, f ∈ st'.created ∧
    (∀ x, f.node ≤ x → x < f.node + 48 → st'.mem x = st.mem x) ∧
    ∀ x, f.content ≤ x → x < f.content + ramfileStartsize → st'.mem x = st.mem x

/-! ## Runs -/

/-- What happens in a run. -/
inductive RamDirEvent
  /-- `ramfs_create_internal` of a string with these characters. -/
  | create (filename : List Byte)
  /-- The heap's other clients. -/
  | other (e : HeapEvent)

/-- The regions of the directory, by address. -/
def RamDir.pointers (st : RamDir) : List Nat :=
  (st.arguments :: st.created.map (·.node)) ++ st.created.map (·.content)

/-- The addresses in them. -/
def RamDir.Owns (st : RamDir) (x : Nat) : Prop :=
  (st.arguments ≤ x ∧ x < st.arguments + sizeofRamFilesystem) ∨ ∃ f ∈ st.created,
    (f.node ≤ x ∧ x < f.node + sizeofRamFile) ∨
      (f.content ≤ x ∧ x < f.content + ramfileStartsize)

/-- One step.  The other clients neither free what is the directory's nor store to it. -/
def RamDirStep (st : RamDir) : RamDirEvent → RamDir → Prop
  | .create filename, st' => 0 ∉ filename ∧
      ∃ rounds inode, st.ramfsCreateInternal rounds filename = .ok (inode, st')
  | .other e, st' => HeapStep st.fs.heap e st'.fs.heap ∧
      (∀ p size, e = .free p size → p ∉ st.pointers) ∧
      (∀ x, st.Owns x → st'.mem x = st.mem x) ∧ st'.arguments = st.arguments ∧
      st'.created = st.created

/-- From `ramfs_createfs` on, with whatever the memory holds. -/
def ramDirMachine : Machine RamDir RamDirEvent where
  start st := ∃ fs mem, kernelHeapMachine.Reach fs.heap ∧ ramfsCreatefs fs mem = .ok st
  step := RamDirStep

/-- What a create has to be asked: a name that fits its array with its terminator, and room for the
    buffer behind the node. -/
def FitsDirectory (st : RamDir) : RamDirEvent → Prop
  | .create filename => filename.length < ramfileMaxname ∧
      ((st.fs.heap.kalloc sizeofRamFile).2.kalloc ramfileStartsize).1 ≠ 0
  | .other _ => True

/-- The names that were asked for, in order. -/
def namesCreated (tr : List (RamDir × RamDirEvent × RamDir)) : List (List Byte) :=
  tr.filterMap fun t => match t.2.1 with
    | .create filename => some filename
    | .other _ => none

/-! ## What a create stores -/

/-- Memory after the stores of `ramfs_create_internal`. -/
def ramfsCreatedMem (mem : Mem) (link setup content : Nat) (filename : List Byte) : Mem :=
  storeNat (storeNat (storeNat
    (strcpy filename (storeNat (storeNat mem link 8 setup) (setup + 48) 8 0) setup)
    (setup + 32) 8 content) (setup + 40) 4 ramfileStartsize) (setup + 44) 4 0

section Stores

variable {mem : Mem} {link setup content : Nat} {filename : List Byte}

/-- The bytes before the buffer's address, and the ones outside of the node. -/
theorem ramfsCreatedMem_apply {x : Nat} (hx : x < setup + 32 ∨ setup + 48 ≤ x) :
    ramfsCreatedMem mem link setup content filename x
      = if setup ≤ x ∧ x ≤ setup + filename.length then filename.getD (x - setup) 0
        else storeNat (storeNat mem link 8 setup) (setup + 48) 8 0 x := by
  unfold ramfsCreatedMem
  rw [storeNat_of_disjoint (by omega), storeNat_of_disjoint (by omega),
    storeNat_of_disjoint (by omega), strcpy_apply]

/-- A load of the node or of a link that is stored last. -/
theorem ramfsCreatedMem_load (hfits : filename.length < ramfileMaxname) {a n : Nat}
    (ha : a + n ≤ setup ∨ setup + 48 ≤ a) :
    loadNat (ramfsCreatedMem mem link setup content filename) a n
      = loadNat (storeNat (storeNat mem link 8 setup) (setup + 48) 8 0) a n := by
  unfold ramfileMaxname at hfits
  apply loadNat_congr
  intro i hi
  rw [ramfsCreatedMem_apply (by omega), if_neg (by omega)]

/-- **What the stores of a create amount to**: the last link leads to a node with everything in it,
    and no other byte is changed. -/
theorem ramfsCreatedMem_spec (mem : Mem) (hname : 0 ∉ filename) (hfits : filename.length < ramfileMaxname)
    (hapart : link + 8 ≤ setup ∨ setup + sizeofRamFile ≤ link) (hsetup : setup < 256 ^ 8)
    (hcontent : content < 256 ^ 8) :
    (CreatedFile.mk setup filename content).HeldIn
      (ramfsCreatedMem mem link setup content filename) ∧
    loadNat (ramfsCreatedMem mem link setup content filename) link 8 = setup ∧
    loadNat (ramfsCreatedMem mem link setup content filename) (setup + 48) 8 = 0 ∧
    ∀ x, (x < link ∨ link + 8 ≤ x) → (x < setup ∨ setup + sizeofRamFile ≤ x) →
      ramfsCreatedMem mem link setup content filename x = mem x := by
  have hmax : filename.length < 30 := hfits
  have hsize : sizeofRamFile = 56 := rfl
  rw [hsize] at hapart ⊢
  constructor
  · refine ⟨⟨hname, fun i hi => ?_⟩, hfits, ?_, ?_, ?_⟩
    · beta_reduce at hi ⊢
      dsimp only at hi ⊢
      rw [ramfsCreatedMem_apply (by omega), if_pos (by omega), Nat.add_sub_cancel_left]
    · dsimp only
      unfold ramfsCreatedMem
      rw [loadNat_storeNat_disjoint (by omega), loadNat_storeNat_disjoint (by omega),
        loadNat_storeNat_same, Nat.mod_eq_of_lt hcontent]
    · dsimp only
      unfold ramfsCreatedMem
      rw [loadNat_storeNat_disjoint (by omega), loadNat_storeNat_same]
      rfl
    · dsimp only
      unfold ramfsCreatedMem
      rw [loadNat_storeNat_same]
      rfl
  · refine ⟨?_, ?_, fun x hlink hnode => ?_⟩
    · rw [ramfsCreatedMem_load hfits (by omega), loadNat_storeNat_disjoint (by omega),
        loadNat_storeNat_same, Nat.mod_eq_of_lt hsetup]
    · rw [ramfsCreatedMem_load hfits (by omega), loadNat_storeNat_same]
      rfl
    · rw [ramfsCreatedMem_apply (by omega), if_neg (by omega),
        storeNat_of_disjoint (by omega), storeNat_of_disjoint (by omega)]

end Stores

/-- **What a create does**: three regions of the heap, the stores to the first one and to the last
    link, and two stores to the third. -/
theorem RamDir.ramfsCreateInternal_ok {st st' : RamDir} {rounds inode : Nat} {filename : List Byte}
    (h : st.ramfsCreateInternal rounds filename = .ok (inode, st')) : ∃ link setup h₁ content h₂ q h₃,
    st.ramfsLink rounds = .ok link ∧ st.fs.heap.kalloc sizeofRamFile = (setup, h₁) ∧ setup ≠ 0 ∧
    h₁.kalloc ramfileStartsize = (content, h₂) ∧ h₂.kalloc sizeofRamInode = (q, h₃) ∧ q ≠ 0 ∧
    st'.fs.heap = h₃ ∧
    st'.mem = storeNat (storeNat (ramfsCreatedMem st.mem link setup content filename) q 8 setup)
      (q + 8) 4 0 ∧
    st'.arguments = st.arguments ∧ st'.created = st.created ++ [⟨setup, filename, content⟩] := by
  obtain ⟨link, hlink, hrest⟩ := bind_eq_ok h
  rcases hk : st.fs.heap.kalloc sizeofRamFile with ⟨setup, h₁⟩
  rcases hk' : h₁.kalloc ramfileStartsize with ⟨content, h₂⟩
  simp only [InodeState.kalloc, hk, hk'] at hrest
  obtain ⟨hsetup, hrest⟩ := guard_eq_ok hrest
  obtain ⟨q, h₃, hk'', hq, -, hheap, -, hmem, hargs, hcreated⟩ :=
    RamDir.ramfsAllocateInode_ok hrest
  exact ⟨link, setup, h₁, content, h₂, q, h₃, hlink, rfl, hsetup, hk', hk'', hq, hheap, hmem, hargs,
    hcreated⟩

/-! ## The invariant -/

/-- The directory holds what was created, in different regions of the heap. -/
structure RamDirInv (st : RamDir) : Prop where
  heap : KernelHeapInv st.fs.heap
  holds : DirectoryHolds st
  arguments : (st.arguments, sizeofRamFilesystem) ∈ st.fs.heap.live
  nodes : ∀ f ∈ st.created, (f.node, sizeofRamFile) ∈ st.fs.heap.live
  pointers : st.pointers.Nodup

/-- The file `f` is appended to the directory, in new regions of the heap. -/
structure AppendsFile (st st' : RamDir) (f : CreatedFile) : Prop where
  heap : KernelHeapInv st'.fs.heap
  created : st'.created = st.created ++ [f]
  arguments : st'.arguments = st.arguments
  live : ∀ a ∈ (f.node, sizeofRamFile) :: (f.content, ramfileStartsize) :: st.fs.heap.live,
    a ∈ st'.fs.heap.live
  fresh : ∀ a ∈ st.fs.heap.live, a.1 ≠ f.node ∧ a.1 ≠ f.content
  node : f.node ≠ 0 ∧ f.node ≠ f.content
  held : f.HeldIn st'.mem
  link : loadNat st'.mem (lastLink st.arguments (st.created.map (·.node))) 8 = f.node
  last : loadNat st'.mem (f.node + 48) 8 = 0
  /-- Of the older regions, only the last link is changed. -/
  frame : ∀ a ∈ st.fs.heap.live, ∀ x, a.1 ≤ x → x < a.1 + a.2 →
    x < lastLink st.arguments (st.created.map (·.node)) ∨
      lastLink st.arguments (st.created.map (·.node)) + 8 ≤ x → st'.mem x = st.mem x

/-- A file depends on the 48 bytes of its node. -/
theorem CreatedFile.HeldIn.congr {f : CreatedFile} {mem mem' : Mem} (h : f.HeldIn mem)
    (hsame : ∀ x, f.node ≤ x → x < f.node + 48 → mem' x = mem x) : f.HeldIn mem' := by
  have hload : ∀ a n, f.node ≤ a → a + n ≤ f.node + 48 → loadNat mem' a n = loadNat mem a n := by
    intro a n ha hn
    apply loadNat_congr
    intro i hi
    exact hsame (a + i) (by omega) (by omega)
  have hfits : f.name.length < 30 := h.fits
  refine ⟨⟨h.name.nonzero, fun i hi => ?_⟩, h.fits, ?_, ?_, ?_⟩
  · rw [hsame _ (by omega) (by omega), h.name.bytes i hi]
  · rw [hload _ _ (by omega) (by omega), h.content]
  · rw [hload _ _ (by omega) (by omega), h.contentAlloc]
  · rw [hload _ _ (by omega) (by omega), h.contentFill]

namespace RamDirInv

variable {st st' : RamDir}

/-- Every link lies in a live region of its own. -/
theorem link_region (h : RamDirInv st) {x : Nat} (hx : x ∈ links st.arguments (st.created.map (·.node))) :
    ∃ a ∈ st.fs.heap.live, a.1 ≤ x ∧ x + 8 ≤ a.1 + a.2 := by
  rcases List.mem_cons.mp hx with rfl | hx
  · exact ⟨_, h.arguments, Nat.le_refl _, Nat.le_refl _⟩
  · obtain ⟨node, hnode, rfl⟩ := List.mem_map.mp hx
    obtain ⟨f, hf, rfl⟩ := List.mem_map.mp hnode
    exact ⟨_, h.nodes f hf, Nat.le_add_right _ _, Nat.le_refl _⟩

/-- No link is twice on the list. -/
theorem links_nodup (h : RamDirInv st) : (links st.arguments (st.created.map (·.node))).Nodup := by
  obtain ⟨hout, hnodes⟩ := List.nodup_cons.mp (List.nodup_append.mp h.pointers).1
  refine List.nodup_cons.mpr ⟨fun hm => ?_, hnodes.map fun a b hab => Nat.add_right_cancel hab⟩
  -- the word `head` does not lie in a node
  obtain ⟨node, hnode, heq⟩ := List.mem_map.mp hm
  have hne : st.arguments ≠ node := fun hsame => hout (hsame ▸ hnode)
  obtain ⟨f, hf, rfl⟩ := List.mem_map.mp hnode
  have hapart := h.heap.apart h.arguments (h.nodes f hf) hne
  have hsizes : sizeofRamFilesystem = 8 ∧ sizeofRamFile = 56 := ⟨rfl, rfl⟩
  dsimp only at hapart heq
  omega

/-- The last link is neither in what a search compares of a file nor in a buffer. -/
theorem lastLink_outside (h : RamDirInv st) {f : CreatedFile} (hf : f ∈ st.created) {x : Nat}
    (hx : x ∈ links st.arguments (st.created.map (·.node))) :
    (x + 8 ≤ f.node ∨ f.node + 48 ≤ x) ∧ (x + 8 ≤ f.content ∨ f.content + ramfileStartsize ≤ x) := by
  obtain ⟨hfront, -, hdisj⟩ := List.nodup_append.mp h.pointers
  obtain ⟨hout, -⟩ := List.nodup_cons.mp hfront
  have hcontent : f.content ∈ st.created.map (·.content) := List.mem_map_of_mem hf
  have hsizes : sizeofRamFilesystem = 8 ∧ sizeofRamFile = 56 := ⟨rfl, rfl⟩
  rcases List.mem_cons.mp hx with rfl | hx
  · have hne : st.arguments ≠ f.node := fun heq => hout (heq ▸ List.mem_map_of_mem hf)
    have hne' : st.arguments ≠ f.content := hdisj _ List.mem_cons_self _ hcontent
    have h1 := h.heap.apart h.arguments (h.nodes f hf) hne
    have h2 := h.heap.apart h.arguments (h.holds.buffers f hf) hne'
    dsimp only at h1 h2
    omega
  · obtain ⟨node, hnode, rfl⟩ := List.mem_map.mp hx
    have hne' : node ≠ f.content := hdisj _ (List.mem_cons_of_mem _ hnode) _ hcontent
    obtain ⟨g, hg, rfl⟩ := List.mem_map.mp hnode
    have h2 := h.heap.apart (h.nodes g hg) (h.holds.buffers f hf) hne'
    by_cases heq : g.node = f.node
    · dsimp only at h2
      omega
    · have h1 := h.heap.apart (h.nodes g hg) (h.nodes f hf) heq
      dsimp only at h1 h2
      omega

/-- After `ramfs_createfs`: the directory is empty if and only if the word `head` is 0. -/
theorem start (h : ramDirMachine.start st) : (DirectoryHolds st ↔ st.arguments ≠ 0 ∧ st.head = 0) ∧
    (DirectoryHolds st → RamDirInv st) := by
  obtain ⟨fs, mem, hheap, hcreate⟩ := h
  have hinv := KernelHeapInv.reach hheap
  unfold ramfsCreatefs at hcreate
  rcases hk : fs.heap.kalloc sizeofFilesystem with ⟨p, h₁⟩
  rcases hk' : h₁.kalloc sizeofRamFilesystem with ⟨q, h₂⟩
  simp only [InodeState.kalloc, hk, hk'] at hcreate
  obtain ⟨-, hret⟩ := guard_eq_ok hcreate
  obtain rfl := Except.ok.inj hret
  constructor
  · constructor
    · rintro ⟨hargs, hlist, -⟩
      exact ⟨hargs, hlist⟩
    · rintro ⟨hargs, hhead⟩
      exact ⟨hargs, hhead, fun f hf => absurd hf List.not_mem_nil, List.nodup_nil,
        fun f hf => absurd hf List.not_mem_nil⟩
  · intro hholds
    have hinv₁ : KernelHeapInv h₁ := by
      have := hinv.kalloc_inv sizeofFilesystem
      rwa [hk] at this
    have hinv₂ : KernelHeapInv h₂ := by
      have := hinv₁.kalloc_inv sizeofRamFilesystem
      rwa [hk'] at this
    have hlive : (q, sizeofRamFilesystem) ∈ h₂.live := by
      have hq : (h₁.kalloc sizeofRamFilesystem).1 ≠ 0 := by
        rw [hk']
        exact hholds.arguments
      have := HeapState.kalloc_mem hq
      rwa [hk'] at this
    exact ⟨hinv₂, hholds, hlive, fun f hf => absurd hf List.not_mem_nil, List.nodup_singleton q⟩

/-- What the heap's other clients do changes nothing in the directory. -/
theorem other (h : RamDirInv st) {e : HeapEvent} (hstep : RamDirStep st (.other e) st') :
    RamDirInv st' ∧ KeepsFiles st st' := by
  obtain ⟨hheap, hfree, hmem, hargs, hcreated⟩ := hstep
  have hsizes : sizeofRamFilesystem = 8 ∧ sizeofRamFile = 56 := ⟨rfl, rfl⟩
  have hlive : ∀ a ∈ st.fs.heap.live, a.1 ∈ st.pointers → a ∈ st'.fs.heap.live := by
    intro a ha hptr
    exact hheap.keeps ha fun he => hfree _ _ he hptr
  have hnode : ∀ f ∈ st.created, f.node ∈ st.pointers := fun f hf =>
    List.mem_append_left _ (List.mem_cons_of_mem _ (List.mem_map_of_mem hf))
  have hcontent : ∀ f ∈ st.created, f.content ∈ st.pointers := fun f hf =>
    List.mem_append_right _ (List.mem_map_of_mem hf)
  have hfile : ∀ f ∈ st.created, ∀ x, f.node ≤ x → x < f.node + sizeofRamFile →
      st'.mem x = st.mem x := fun f hf x h1 h2 => hmem x (Or.inr ⟨f, hf, Or.inl ⟨h1, h2⟩⟩)
  have hlinks : ∀ x ∈ links st.arguments (st.created.map (·.node)),
      loadNat st'.mem x 8 = loadNat st.mem x 8 := by
    intro x hx
    apply loadNat_congr
    intro i hi
    rcases List.mem_cons.mp hx with rfl | hx
    · exact hmem _ (Or.inl ⟨by omega, by omega⟩)
    · obtain ⟨node, hn, rfl⟩ := List.mem_map.mp hx
      obtain ⟨f, hf, rfl⟩ := List.mem_map.mp hn
      exact hfile f hf _ (by omega) (by omega)
  have hpointers : st'.pointers = st.pointers := by
    unfold RamDir.pointers
    rw [hargs, hcreated]
  refine ⟨⟨h.heap.heapStep hheap, ⟨?_, ?_, ?_, ?_, ?_⟩, ?_, ?_, ?_⟩, ?_⟩
  · rw [hargs]
    exact h.holds.arguments
  · rw [hargs, hcreated]
    exact h.holds.list.congr hlinks
  · intro f hf
    rw [hcreated] at hf
    exact (h.holds.files f hf).congr fun x h1 h2 => hfile f hf x h1 (by omega)
  · rw [hcreated]
    exact h.holds.own
  · intro f hf
    rw [hcreated] at hf
    exact hlive _ (h.holds.buffers f hf) (hcontent f hf)
  · rw [hargs]
    exact hlive _ h.arguments (List.mem_append_left _ List.mem_cons_self)
  · intro f hf
    rw [hcreated] at hf
    exact hlive _ (h.nodes f hf) (hnode f hf)
  · rw [hpointers]
    exact h.pointers
  · intro f hf
    rw [hcreated]
    exact ⟨hf, fun x h1 h2 => hfile f hf x h1 (by omega),
      fun x h1 h2 => hmem x (Or.inr ⟨f, hf, Or.inr ⟨h1, h2⟩⟩)⟩

/-- Two links are different words. -/
theorem links_apart (h : RamDirInv st) {x y : Nat}
    (hx : x ∈ links st.arguments (st.created.map (·.node)))
    (hy : y ∈ links st.arguments (st.created.map (·.node))) (hne : x ≠ y) :
    x + 8 ≤ y ∨ y + 8 ≤ x := by
  obtain ⟨hout, -⟩ := List.nodup_cons.mp (List.nodup_append.mp h.pointers).1
  have hhead : ∀ node ∈ st.created.map (·.node),
      st.arguments + 8 ≤ node ∨ node + sizeofRamFile ≤ st.arguments := by
    intro node hnode
    have hne : st.arguments ≠ node := fun heq => hout (heq ▸ hnode)
    obtain ⟨f, hf, rfl⟩ := List.mem_map.mp hnode
    exact h.heap.apart h.arguments (h.nodes f hf) hne
  have hsizes : sizeofRamFile = 56 := rfl
  rcases List.mem_cons.mp hx with rfl | hx
  · rcases List.mem_cons.mp hy with rfl | hy
    · exact absurd rfl hne
    · obtain ⟨node, hnode, rfl⟩ := List.mem_map.mp hy
      have hapart := hhead node hnode
      omega
  · obtain ⟨node, hnode, rfl⟩ := List.mem_map.mp hx
    rcases List.mem_cons.mp hy with rfl | hy
    · have hapart := hhead node hnode
      omega
    · obtain ⟨node', hnode', rfl⟩ := List.mem_map.mp hy
      obtain ⟨f, hf, rfl⟩ := List.mem_map.mp hnode
      obtain ⟨g, hg, rfl⟩ := List.mem_map.mp hnode'
      have hapart := h.heap.apart (h.nodes f hf) (h.nodes g hg)
        (fun heq => hne (congrArg (· + 48) heq))
      dsimp only at hapart
      omega

/-- Two more pointers. -/
theorem pointers_snoc {args setup content : Nat} {nodes contents : List Nat}
    (h : ((args :: nodes) ++ contents).Nodup)
    (hsetup : ∀ p ∈ (args :: nodes) ++ contents, p ≠ setup)
    (hcontent : ∀ p ∈ (args :: nodes) ++ contents, p ≠ content) (hne : setup ≠ content) :
    ((args :: (nodes ++ [setup])) ++ (contents ++ [content])).Nodup := by
  have hperm : ((args :: (nodes ++ [setup])) ++ (contents ++ [content])).Perm
      (content :: setup :: ((args :: nodes) ++ contents)) := by
    rw [← List.append_assoc]
    refine (List.perm_append_singleton _ _).trans (List.Perm.cons content ?_)
    show (((args :: nodes) ++ [setup]) ++ contents).Perm _
    rw [List.append_assoc]
    exact List.perm_middle
  rw [hperm.nodup_iff]
  refine List.nodup_cons.mpr ⟨fun hm => ?_, List.nodup_cons.mpr ⟨fun hm => hsetup _ hm rfl, h⟩⟩
  rcases List.mem_cons.mp hm with heq | hm
  · exact hne heq.symm
  · exact hcontent _ hm rfl

/-- Every pointer of the directory is the address of a live region. -/
theorem pointer_live (h : RamDirInv st) {p : Nat} (hp : p ∈ st.pointers) :
    ∃ size, (p, size) ∈ st.fs.heap.live := by
  rcases List.mem_append.mp hp with hp | hp
  · rcases List.mem_cons.mp hp with rfl | hp
    · exact ⟨_, h.arguments⟩
    · obtain ⟨f, hf, rfl⟩ := List.mem_map.mp hp
      exact ⟨_, h.nodes f hf⟩
  · obtain ⟨f, hf, rfl⟩ := List.mem_map.mp hp
    exact ⟨_, h.holds.buffers f hf⟩

/-- **A create that fits** gets two new regions, and changes nothing in the older ones but the last
    link. -/
theorem appends (h : RamDirInv st) {filename : List Byte} (hstep : RamDirStep st (.create filename) st')
    (hfits : FitsDirectory st (.create filename)) : ∃ f, AppendsFile st st' f := by
  obtain ⟨hname, rounds, inode, hcreate⟩ := hstep
  obtain ⟨hshort, hroom⟩ := hfits
  obtain ⟨link, setup, h₁, content, h₂, q, h₃, hlink, hk, hsetup, hk', hk'', hq, hheap, hmem, hargs,
    hcreated⟩ := RamDir.ramfsCreateInternal_ok hcreate
  have hcontent : content ≠ 0 := by
    rw [hk] at hroom
    dsimp only at hroom
    rw [hk'] at hroom
    exact hroom
  obtain rfl : link = lastLink st.arguments (st.created.map (·.node)) := by
    rw [RamDir.ramfsLink_eq h.holds.arguments h.holds.list] at hlink
    split at hlink
    · exact (Except.ok.inj hlink).symm
    · cases hlink
  -- the three new regions
  obtain ⟨hinv₁, hlive₁, hend₁, hnew₁⟩ := h.heap.kalloc_new hk hsetup
  obtain ⟨hinv₂, hlive₂, hend₂, hnew₂⟩ := hinv₁.kalloc_new hk' hcontent
  obtain ⟨hinv₃, hlive₃, -, hnew₃⟩ := hinv₂.kalloc_new hk'' hq
  rw [hlive₂] at hnew₃
  rw [hlive₁] at hnew₂ hnew₃
  have hsetup' := hnew₃ (setup, sizeofRamFile) (List.mem_cons_of_mem _ List.mem_cons_self)
  have hcontent' := hnew₂ (setup, sizeofRamFile) List.mem_cons_self
  have hold₂ : ∀ a ∈ st.fs.heap.live, a.1 ≠ content := fun a ha =>
    (hnew₂ a (List.mem_cons_of_mem _ ha)).1
  have hold₃ : ∀ a ∈ st.fs.heap.live, a.1 + a.2 ≤ q ∨ q + sizeofRamInode ≤ a.1 := fun a ha =>
    (hnew₃ a (List.mem_cons_of_mem _ (List.mem_cons_of_mem _ ha))).2
  have hsizes : sizeofRamFilesystem = 8 ∧ sizeofRamFile = 56 ∧ sizeofRamInode = 16 ∧
    ramfileStartsize = 4096 := ⟨rfl, rfl, rfl, rfl⟩
  -- the last link lies in an older one
  obtain ⟨r, hr, hfrom, hto⟩ := h.link_region (lastLink_mem (st.created.map (·.node)) st.arguments)
  have hr₁ := (hnew₁ r hr).2
  have hr₃ := hold₃ r hr
  obtain ⟨hnew, hnext, hlast, hframe⟩ := ramfsCreatedMem_spec st.mem hname hshort
    (by omega : _ ∨ setup + sizeofRamFile ≤ lastLink st.arguments (st.created.map (·.node)))
    (by omega : setup < 256 ^ 8) (by omega : content < 256 ^ 8)
  have hstores : ∀ x, (x < q ∨ q + sizeofRamInode ≤ x) → st'.mem x = ramfsCreatedMem st.mem
      (lastLink st.arguments (st.created.map (·.node))) setup content filename x := by
    intro x hx
    rw [hmem, storeNat_of_disjoint (by omega), storeNat_of_disjoint (by omega)]
  have hload : ∀ a n, (a + n ≤ q ∨ q + sizeofRamInode ≤ a) → loadNat st'.mem a n
      = loadNat (ramfsCreatedMem st.mem (lastLink st.arguments (st.created.map (·.node))) setup content
        filename) a n := by
    intro a n ha
    apply loadNat_congr
    intro i hi
    exact hstores (a + i) (by omega)
  refine ⟨⟨setup, filename, content⟩, ⟨hheap ▸ hinv₃, hcreated, hargs, ?_, ?_,
    ⟨hsetup, hcontent'.1⟩, ?_, ?_, ?_, ?_⟩⟩
  · intro a ha
    rw [hheap, hlive₃, hlive₂, hlive₁]
    exact List.mem_cons_of_mem _ ((List.Perm.swap _ _ _).mem_iff.mp ha)
  · exact fun a ha => ⟨(hnew₁ a ha).1, hold₂ a ha⟩
  · refine hnew.congr fun x h1 h2 => hstores x ?_
    dsimp only at h1 h2 hsetup'
    omega
  · rw [hload _ _ (by omega), hnext]
  · dsimp only at hsetup' ⊢
    rw [hload _ _ (by omega), hlast]
  · intro a ha x h1 h2 hx
    have ha₁ := (hnew₁ a ha).2
    have ha₃ := hold₃ a ha
    rw [hstores x (by omega), hframe x hx (by omega)]

/-- **A create that fits** keeps the invariant and changes no other file. -/
theorem create (h : RamDirInv st) {f : CreatedFile} (ha : AppendsFile st st' f) :
    RamDirInv st' ∧ KeepsFiles st st' := by
  have hlast := lastLink_mem (st.created.map (·.node)) st.arguments
  have hkeep : ∀ a ∈ st.fs.heap.live, a ∈ st'.fs.heap.live := fun a hm =>
    ha.live a (List.mem_cons_of_mem _ (List.mem_cons_of_mem _ hm))
  have hfiles : ∀ g ∈ st.created, ∀ x, g.node ≤ x → x < g.node + 48 → st'.mem x = st.mem x := by
    intro g hg x h1 h2
    have hout := (h.lastLink_outside hg hlast).1
    exact ha.frame _ (h.nodes g hg) x h1 (Nat.lt_trans h2 (by unfold sizeofRamFile; omega))
      (by omega)
  have hnodes : st'.created.map (·.node) = st.created.map (·.node) ++ [f.node] := by
    rw [ha.created, List.map_append]
    rfl
  have hcontents : st'.created.map (·.content) = st.created.map (·.content) ++ [f.content] := by
    rw [ha.created, List.map_append]
    rfl
  have hpointers : st'.pointers.Nodup := by
    unfold RamDir.pointers
    rw [ha.arguments, hnodes, hcontents]
    refine pointers_snoc h.pointers ?_ ?_ ha.node.2
    · intro p hp
      obtain ⟨size, hlive⟩ := h.pointer_live hp
      exact (ha.fresh _ hlive).1
    · intro p hp
      obtain ⟨size, hlive⟩ := h.pointer_live hp
      exact (ha.fresh _ hlive).2
  have hmem_created : ∀ g ∈ st'.created, g ∈ st.created ∨ g = f := by
    intro g hg
    rw [ha.created] at hg
    rcases List.mem_append.mp hg with hg | hg
    · exact Or.inl hg
    · exact Or.inr (List.mem_singleton.mp hg)
  refine ⟨⟨ha.heap, ⟨?_, ?_, ?_, ?_, ?_⟩, ?_, ?_, hpointers⟩, ?_⟩
  · rw [ha.arguments]
    exact h.holds.arguments
  · rw [ha.arguments, hnodes]
    refine FileList.snoc ha.node.1 ha.last h.links_nodup ha.link ?_ h.holds.list
    intro x hx hne
    obtain ⟨a, hm, h1, h2⟩ := h.link_region hx
    have hout := h.links_apart hx hlast hne
    apply loadNat_congr
    intro i hi
    exact ha.frame a hm _ (by omega) (by omega) (by omega)
  · intro g hg
    rcases hmem_created g hg with hg | rfl
    · exact (h.holds.files g hg).congr (hfiles g hg)
    · exact ha.held
  · exact (List.nodup_append.mp hpointers).2.1
  · intro g hg
    rcases hmem_created g hg with hg | rfl
    · exact hkeep _ (h.holds.buffers g hg)
    · exact ha.live _ (List.mem_cons_of_mem _ List.mem_cons_self)
  · rw [ha.arguments]
    exact hkeep _ h.arguments
  · intro g hg
    rcases hmem_created g hg with hg | rfl
    · exact hkeep _ (h.nodes g hg)
    · exact ha.live _ List.mem_cons_self
  · intro g hg
    refine ⟨?_, hfiles g hg, fun x h1 h2 => ?_⟩
    · rw [ha.created]
      exact List.mem_append_left _ hg
    · have hout := (h.lastLink_outside hg hlast).2
      exact ha.frame _ (h.holds.buffers g hg) x h1 h2 (by omega)

/-- A file in a directory that holds fits. -/
theorem fits (h : RamDirInv st) {filename : List Byte} (hstep : RamDirStep st (.create filename) st')
    (hholds : DirectoryHolds st') : FitsDirectory st (.create filename) := by
  obtain ⟨-, rounds, inode, hcreate⟩ := hstep
  obtain ⟨link, setup, h₁, content, h₂, q, h₃, -, hk, -, hk', hk'', -, hheap, -, -, hcreated⟩ :=
    RamDir.ramfsCreateInternal_ok hcreate
  have hmem : ⟨setup, filename, content⟩ ∈ st'.created := by
    rw [hcreated]
    exact List.mem_append_right _ List.mem_cons_self
  have hinv : KernelHeapInv st'.fs.heap := by
    have h3 := ((h.heap.kalloc_inv sizeofRamFile).kalloc_inv ramfileStartsize).kalloc_inv
      sizeofRamInode
    rw [hk] at h3
    dsimp only at h3
    rw [hk'] at h3
    dsimp only at h3
    rw [hk''] at h3
    rw [hheap]
    exact h3
  have hin := (hinv.inside (hholds.buffers _ hmem)).1
  refine ⟨(hholds.files _ hmem).fits, ?_⟩
  rw [hk]
  dsimp only
  rw [hk']
  dsimp only at hin ⊢
  omega

/-- One step. -/
theorem step (h : RamDirInv st) {e : RamDirEvent} (hstep : RamDirStep st e st') :
    (DirectoryHolds st' ∧ KeepsFiles st st' ↔ FitsDirectory st e) ∧
      (FitsDirectory st e → RamDirInv st') := by
  cases e with
  | create filename =>
    constructor
    · constructor
      · rintro ⟨hholds, -⟩
        exact h.fits hstep hholds
      · intro hfits
        obtain ⟨f, happends⟩ := h.appends hstep hfits
        exact ⟨(h.create happends).1.holds, (h.create happends).2⟩
    · intro hfits
      obtain ⟨f, happends⟩ := h.appends hstep hfits
      exact (h.create happends).1
  | other e =>
    obtain ⟨hinv, hkeep⟩ := h.other hstep
    exact ⟨⟨fun _ => trivial, fun _ => ⟨hinv.holds, hkeep⟩⟩, fun _ => hinv⟩

end RamDirInv

/-- The files that were created are the ones that were asked for. -/
theorem ramDir_names {st st' : RamDir} {tr : List (RamDir × RamDirEvent × RamDir)}
    (hr : ramDirMachine.Run st tr st') : st'.created.map (·.name)
      = st.created.map (·.name) ++ namesCreated tr := by
  induction hr with
  | nil st => exact (List.append_nil _).symm
  | @cons st next last e tr hstep _ ih =>
    cases e with
    | create filename =>
      obtain ⟨-, rounds, inode, hcreate⟩ := hstep
      obtain ⟨_, _, _, _, _, _, _, -, -, -, -, -, -, -, -, -, hcreated⟩ :=
        RamDir.ramfsCreateInternal_ok hcreate
      rw [ih, hcreated, List.map_append, List.append_assoc]
      rfl
    | other e =>
      obtain ⟨-, -, -, -, hcreated⟩ := hstep
      rw [ih, hcreated]
      rfl

/-- **The directory over whole runs.**  From `ramfs_createfs` on, in whatever memory: the list holds
    exactly what was created, in order, and every step leaves the earlier files as they are, if and
    only if the word `head` was 0 at the start and every create asked for a name that fits and found
    room for its buffer.  `ramfs_createfs` does not set `head`, which is in memory from `kalloc`;
    and `strcpy` writes a name of any length to the field of the file. -/
theorem ram_directory_iff {st st' : RamDir} {tr : List (RamDir × RamDirEvent × RamDir)}
    (h0 : ramDirMachine.start st) (hr : ramDirMachine.Run st tr st') :
    ((DirectoryHolds st ∧ ∀ a e b, (a, e, b) ∈ tr → DirectoryHolds b ∧ KeepsFiles a b) ↔
      ((st.arguments ≠ 0 ∧ st.head = 0) ∧ ∀ a e b, (a, e, b) ∈ tr → FitsDirectory a e)) ∧
    st'.created.map (·.name) = namesCreated tr := by
  obtain ⟨hiff, hinv⟩ := RamDirInv.start h0
  constructor
  · rw [← hiff]
    refine and_congr_right fun hholds => ?_
    refine hr.forall_iff_of_invariant (I := RamDirInv)
      (P := fun a _ b => DirectoryHolds b ∧ KeepsFiles a b) (Q := fun a e _ => FitsDirectory a e)
      ?_ ?_ (hinv hholds)
    · exact fun a e b h hstep => (h.step hstep).1
    · exact fun a e b h hstep hfits => (h.step hstep).2 hfits
  · have hempty : st.created = [] := by
      obtain ⟨fs, mem, -, hcreate⟩ := h0
      obtain ⟨-, hret⟩ := guard_eq_ok hcreate
      rw [← Except.ok.inj hret]
    rw [ramDir_names hr, hempty]
    rfl

/-! ## Filesystems made at boot -/

/-- `ramfs_createfs` after `fs_init_slab`, in any memory. -/
theorem ramfsCreatefs_boot (mem : Mem) : ∃ st, ramDirMachine.start st ∧ st.mem = mem ∧
    st.arguments = 0x40182000 ∧ st.created = [] ∧
    st.fs = ((inodesAtBoot.kalloc sizeofFilesystem).2.kalloc sizeofRamFilesystem).2 := by
  have hptr : (inodesAtBoot.kalloc sizeofFilesystem).1 ≠ 0 ∧
      ((inodesAtBoot.kalloc sizeofFilesystem).2.kalloc sizeofRamFilesystem).1 = 0x40182000 := by
    decide +kernel
  refine ⟨⟨((inodesAtBoot.kalloc sizeofFilesystem).2.kalloc sizeofRamFilesystem).2, mem,
    ((inodesAtBoot.kalloc sizeofFilesystem).2.kalloc sizeofRamFilesystem).1, []⟩, ?_, rfl, hptr.2, rfl,
    rfl⟩
  refine ⟨inodesAtBoot, mem, inodesAtBoot_start.1, ?_⟩
  exact if_neg hptr.1

instance (st : RamDir) (filename : List Byte) : Decidable (FitsDirectory st (.create filename)) :=
  inferInstanceAs (Decidable (_ ∧ _))

/-- In clear memory, the files "a", "b.c" and "d" are created, each behind those before it. -/
theorem ram_directory_iff_three : ∃ st st₁ st₂ st₃, ramDirMachine.start st ∧
    ramDirMachine.Run st [(st, .create [0x61], st₁), (st₁, .create [0x62, 0x2e, 0x63], st₂),
      (st₂, .create [0x64], st₃)] st₃ ∧
    DirectoryHolds st₃ ∧ KeepsFiles st₂ st₃ ∧
    st₃.created.map (·.name) = [[0x61], [0x62, 0x2e, 0x63], [0x64]] := by
  obtain ⟨st, h0, hmem, hargs, hcreated, hfs⟩ := ramfsCreatefs_boot fun _ => 0
  obtain ⟨fs, mem, args, created⟩ := st
  dsimp only at hmem hargs hcreated hfs
  subst hmem hargs hcreated hfs
  -- the list is empty, the three calls return, and each name and buffer fits
  have hok : let clear : RamDir := ⟨((inodesAtBoot.kalloc sizeofFilesystem).2.kalloc
      sizeofRamFilesystem).2, fun _ => 0, 0x40182000, []⟩
      (decide (clear.arguments ≠ 0 ∧ clear.head = 0) && decide (FitsDirectory clear (.create [0x61]))
        && match clear.ramfsCreateInternal 0 [0x61] with
      | .error _ => false
      | .ok (_, st₁) => decide (FitsDirectory st₁ (.create [0x62, 0x2e, 0x63])) &&
        match st₁.ramfsCreateInternal 1 [0x62, 0x2e, 0x63] with
        | .error _ => false
        | .ok (_, st₂) => decide (FitsDirectory st₂ (.create [0x64])) &&
          match st₂.ramfsCreateInternal 2 [0x64] with
          | .error _ => false
          | .ok _ => true) = true := by
    decide +kernel
  obtain ⟨hclear, hok⟩ := Bool.and_eq_true_iff.mp hok
  obtain ⟨hclear, hfits₁⟩ := Bool.and_eq_true_iff.mp hclear
  split at hok
  · cases hok
  rename_i inode₁ st₁ hcreate₁
  obtain ⟨hfits₂, hok⟩ := Bool.and_eq_true_iff.mp hok
  split at hok
  · cases hok
  rename_i inode₂ st₂ hcreate₂
  obtain ⟨hfits₃, hok⟩ := Bool.and_eq_true_iff.mp hok
  split at hok
  · cases hok
  rename_i result hcreate₃
  obtain ⟨inode₃, st₃⟩ := result
  have hrun₃ : ramDirMachine.Run st₂ [(st₂, .create [0x64], st₃)] st₃ :=
    .cons ⟨by decide, 2, inode₃, hcreate₃⟩ (.nil st₃)
  have hrun₂ := Machine.Run.cons (M := ramDirMachine) (e := .create [0x62, 0x2e, 0x63])
    ⟨by decide, 1, inode₂, hcreate₂⟩ hrun₃
  have hrun := Machine.Run.cons (M := ramDirMachine) (e := .create [0x61])
    ⟨by decide, 0, inode₁, hcreate₁⟩ hrun₂
  obtain ⟨hiff, hnames⟩ := ram_directory_iff h0 hrun
  have hholds := hiff.mpr ⟨of_decide_eq_true hclear, fun a e b hm => ?_⟩
  · obtain ⟨hlast, hkeeps⟩ := hholds.2 st₂ (.create [0x64]) st₃ (by simp)
    exact ⟨_, st₁, st₂, st₃, h0, hrun, hlast, hkeeps, hnames⟩
  · simp only [List.mem_cons, Prod.mk.injEq, List.not_mem_nil, or_false] at hm
    obtain ⟨rfl, rfl, -⟩ | ⟨rfl, rfl, -⟩ | ⟨rfl, rfl, -⟩ := hm
    · exact of_decide_eq_true hfits₁
    · exact of_decide_eq_true hfits₂
    · exact of_decide_eq_true hfits₃

/-- In memory full of ones the directory is no list of files, and creating a file never returns. -/
theorem ram_directory_garbage : ∃ st, ramDirMachine.start st ∧ st.created = [] ∧ ¬ DirectoryHolds st ∧
    ∀ rounds filename, st.ramfsCreateInternal rounds filename = .error .noReturn := by
  obtain ⟨st, h0, hmem, hargs, hcreated, -⟩ := ramfsCreatefs_boot fun _ => 1
  have hword : ∀ a, loadNat st.mem a 8 ≠ 0 := by
    intro a hzero
    rw [hmem, loadNat] at hzero
    have hfirst : (1 : Byte).toNat = 1 := rfl
    omega
  have hlast : ∀ rounds ptr, ramfsLast st.mem rounds ptr = .error .noReturn := by
    intro rounds
    induction rounds with
    | zero =>
      intro ptr
      rfl
    | succ rounds ih =>
      intro ptr
      rw [ramfsLast, if_pos (hword _), ih]
  refine ⟨st, h0, hcreated, fun hholds => ?_, fun rounds filename => ?_⟩
  · have hhead : loadNat st.mem st.arguments 8 = 0 := by
      have hlist := hholds.list
      rw [hcreated] at hlist
      exact hlist
    exact hword _ hhead
  · have hne : st.arguments ≠ 0 := by
      rw [hargs]
      decide
    have hhead : st.head ≠ 0 := hword _
    have hlink : st.ramfsLink rounds = .error .noReturn := by
      rw [RamDir.ramfsLink, if_neg hne]
      show (if st.head = 0 then _ else _) = _
      rw [if_neg hhead, hlast]
      rfl
    rw [RamDir.ramfsCreateInternal, hlink]
    rfl

end TinyKernel
