/-
  What starting a program does to memory.

  A spawn stores to memory in five places: the copy of the name, the buffer with the file, the
  three buffers of the parser, the translation tables, and the frames of the new program.  The first
  three are regions that the heap has just given out, so they are apart from everything that is in
  use; `job_create_paging` changes tables and nothing else; and the program goes through the new
  address space, which maps nothing but its own frames above `JOB_BASE_USER`.  So the address spaces
  of all other jobs stay what they are (`jobCreateFromFile_spaces`).

  Each of the five has one lemma that says where it stores, and all of them end in the same
  two facts about `SpacesInv`: stores to memory that was free change no address space
  (`SpacesInv.memory`), and neither do stores to the user zone (`SpacesInv.userZone`).

  * `loadFile_spaces` — the file goes to a new region, and the inode is closed;
  * `parseElf_spaces` — so do the parser's buffers;
  * `DumpPlaces.frames` — the program goes to the frames of its own address space;
  * `withName_spaces`, `fileSpaces`, `spawn_spaces` — the call with the copy of the name, from the
    opening of the file on, and as a whole.

  The number of frames and tables that are left is followed through them too, so that whether
  the next spawn fits is a matter of the first state alone.
-/
import TinyKernel.Elf.ElfLoad
import TinyKernel.Mp.Spawn

namespace TinyKernel

/-! ## Storing the file -/

theorem storeBytes_of_outside : ∀ {l : List Byte} {m : Mem} {p x : Nat},
    x < p ∨ p + l.length ≤ x → storeBytes m p l x = m x := by
  intro l
  induction l with
  | nil =>
    intro m p x _
    rfl
  | cons c l ih =>
    intro m p x hx
    rw [List.length_cons] at hx
    rw [storeBytes, ih (by omega), Function.update_of_ne (by omega)]

theorem storeBytes_get : ∀ {l : List Byte} {m : Mem} {p i : Nat} {c : Byte},
    l[i]? = some c → storeBytes m p l (p + i) = c := by
  intro l
  induction l with
  | nil =>
    intro m p i c h
    cases h
  | cons b l ih =>
    intro m p i c h
    cases i with
    | zero =>
      obtain rfl : b = c := Option.some.inj h
      rw [storeBytes, storeBytes_of_outside (by omega), Nat.add_zero, Function.update_self]
    | succ i =>
      rw [storeBytes, show p + (i + 1) = p + 1 + i by omega]
      exact ih h

variable {volume : Volume} {garbage : Garbage} {rounds : Nat}

/-- The loop over `fs_inode_get` delivers as many bytes as `fs_inode_left` promised, in more rounds.
    The induction is on the rounds; each one moves the position on by one. -/
theorem fatfsGetAll_length : ∀ {fuel n : Nat} {inode : FatInode} {entry : Fat16DirEntry}
    {bytes : List Byte}, inode.fat16DirEntry = some entry → 0 ≤ inode.position →
    inode.position < 2147483648 → inode.position ≤ entry.filesizeBytes →
    fatfsGetAll volume garbage rounds fuel n inode = .ok bytes →
    inode.position + bytes.length = entry.filesizeBytes ∧ entry.filesizeBytes < 2147483648 ∧
      bytes.length < fuel := by
  intro fuel
  induction fuel with
  | zero =>
    intro _ _ _ _ _ _ _ _ h
    cases h
  | succ fuel ih =>
    intro n inode entry bytes hentry hpos hsmall hle h
    have hposition : (toUint32 inode.position : Int) = inode.position := by
      unfold toUint32
      omega
    obtain ⟨⟨c, inode'⟩, hget, h⟩ := bind_eq_ok h
    obtain ⟨e, he, he', hcases⟩ := fatfsGet_ok hget
    obtain rfl := Option.some.inj (hentry.symm.trans he)
    rcases hcases with ⟨rfl, hend⟩ | ⟨b, rfl, hmore, hlt, hnext⟩
    · obtain rfl := Except.ok.inj h
      rw [List.length_nil]
      omega
    · obtain ⟨rest, hrest, h⟩ := bind_eq_ok h
      obtain rfl := Except.ok.inj h
      have hlater := ih he' (by omega) (by omega) (by omega) hrest
      rw [List.length_cons]
      omega

/-- The buffer that `job_create_from_file` asks for has the size of what is stored there. -/
theorem fatfsGetAll_size {entry : Option Fat16DirEntry} {buffer : Mem} {size : Int}
    {bytes : List Byte} (hleft : fatfsLeft (fatfsInode entry buffer) = .ok size)
    (hget : fatfsGetAll volume garbage rounds rounds 0 (fatfsInode entry buffer) = .ok bytes) :
    toSize size = bytes.length := by
  cases entry with
  | none => cases hleft
  | some entry =>
    obtain ⟨hlength, hsmall, -⟩ := fatfsGetAll_length rfl (Int.le_refl 0)
      (show (0 : Int) < 2147483648 by decide) (Int.natCast_nonneg _) hget
    have hsize := Except.ok.inj hleft
    simp only [fatfsInode, Int.sub_zero, Int.zero_add] at hlength hsize
    rw [← hsize, toInt32_of_range (by omega) (by omega), ← hlength]
    exact toSize_natCast (by omega)

/-! ## The address spaces -/

/-- The address spaces of the jobs, with their tables in a live region of the heap.  `spaces` are
    the managers that were made so far, with their frames. -/
structure SpacesInv (st : SystemState) (role : Radix.Role Nat (Fin 512))
    (spaces : List (PagingManager × List Nat)) : Prop where
  slab : TableSlab st.tables
  zone : ∃ size, (st.tables.startingAddress, size) ∈ st.heap.live ∧
    st.tables.headerSize + st.tables.objectSize * st.tables.maxStore ≤ size
  spaces : JobsInv st.tables st.mem role spaces

namespace SpacesInv

variable {st : SystemState} {role : Radix.Role Nat (Fin 512)}
  {spaces : List (PagingManager × List Nat)}

/-- The tables are below the end of the heap, far from the user zone. -/
theorem inZone_lt (h : SpacesInv st role spaces) (hheap : KernelHeapInv st.heap) {x : Nat}
    (hx : st.tables.InZone x) : x < 0x50180000 := by
  obtain ⟨size, hlive, hsize⟩ := h.zone
  have hin := (hheap.inside hlive).2
  unfold Slab.InZone at hx
  omega

theorem outside (h : SpacesInv st role spaces) (hheap : KernelHeapInv st.heap) :
    OutsideUserZone st.tables := by
  intro x hx
  have := h.inZone_lt hheap hx
  omega

/-- The tables are not free memory of the heap. -/
theorem reserved (h : SpacesInv st role spaces) {x : Nat} (hx : st.tables.InZone x) :
    st.heap.Reserved x := by
  obtain ⟨size, hlive, hsize⟩ := h.zone
  refine Or.inr ⟨_, hlive, hx.1, ?_⟩
  have := hx.2
  omega

/-- Stores to memory that was free change no address space. -/
theorem memory (h : SpacesInv st role spaces) {m : Mem}
    (hm : ∀ x, st.heap.Reserved x → m x = st.mem x) : JobsInv st.tables m role spaces := by
  refine h.spaces.memory h.slab (fun x hx => hm x (h.reserved hx)) fun k hk hused => ?_
  rw [← hused]
  exact userSpace_used_congr hk fun x h1 _ => hm x (Or.inl (by omega))

/-- They also leave as many frames and tables free. -/
theorem freeSlots (h : SpacesInv st role spaces) {m : Mem}
    (hm : ∀ x, st.heap.Reserved x → m x = st.mem x) :
    userSpace.freeSlots m = userSpace.freeSlots st.mem ∧
      st.tables.freeSlots m = st.tables.freeSlots st.mem := by
  constructor
  · exact userSpace.freeSlots_congr fun k hk =>
      userSpace_used_congr hk fun x hx _ => hm x (Or.inl (by omega))
  · refine st.tables.freeSlots_congr fun k hk => bitAt_congr (hm _ (h.reserved ?_))
    have := h.slab.header_byte_lt hk
    unfold Slab.InZone
    omega

/-- Stores to the user zone change no address space, also not one that was just made. -/
theorem userZone (h : SpacesInv st role spaces) (hheap : KernelHeapInv st.heap) {m m' : Mem}
    {role' : Radix.Role Nat (Fin 512)} {spaces' : List (PagingManager × List Nat)}
    (hinv : JobsInv st.tables m role' spaces') (hm : ∀ x, x < 0x80000000 → m' x = m x) :
    JobsInv st.tables m' role' spaces' := by
  refine hinv.memory h.slab (fun x hx => hm x ?_) fun k hk hused => ?_
  · have := h.inZone_lt hheap hx
    omega
  · rw [← hused]
    exact userSpace_used_congr hk fun x _ hx => hm x hx

/-- Nor do they take a frame or a table: both headers lie below the zone. -/
theorem userZone_freeSlots (h : SpacesInv st role spaces) (hheap : KernelHeapInv st.heap)
    {m m' : Mem} (hm : ∀ x, x < 0x80000000 → m' x = m x) :
    userSpace.freeSlots m' = userSpace.freeSlots m ∧
      st.tables.freeSlots m' = st.tables.freeSlots m := by
  constructor
  · exact userSpace.freeSlots_congr fun k hk => userSpace_used_congr hk fun x _ hx => hm x hx
  · refine st.tables.freeSlots_congr fun k hk => bitAt_congr (hm _ ?_)
    have hbyte := h.slab.header_byte_lt hk
    have hzone := h.inZone_lt hheap (x := st.tables.startingAddress + k / 8)
      (by unfold Slab.InZone; omega)
    omega

/-- The region of the tables is no inode's data. -/
theorem zone_ne_data (h : SpacesInv st role spaces) (hfs : InodeInv st.fs) {l : OpenedInode}
    (hl : l ∈ st.fs.opened) : st.tables.startingAddress ≠ l.implInode := by
  intro heq
  obtain ⟨size, hlive, hsize⟩ := h.zone
  have hsame : size = l.filesystem.implSize :=
    congrArg Prod.snd (hfs.heap.holds.eq_of_ptr hlive (hfs.data l hl) heq)
  have hsmall : l.filesystem.implSize ≤ 536 := by
    cases l.filesystem <;> decide
  have hstore : 4096 * 1 ≤ 4096 * st.tables.maxStore := Nat.mul_le_mul_left 4096 h.slab.store_pos
  rw [h.slab.object_size] at hsize
  omega

end SpacesInv

/-- Reading a file stores to a new region, and closes the inode. -/
theorem loadFile_spaces {st st' : SystemState} {role : Radix.Role Nat (Fin 512)}
    {spaces : List (PagingManager × List Nat)} (hfs : InodeInv st.fs) (h : SpacesInv st role spaces)
    {l : OpenedInode} (hl : l ∈ st.fs.opened) {entry : Option Fat16DirEntry} {buffer : Mem}
    {initMem : Nat} (hres : st.loadFile volume garbage rounds l.inode (fatfsInode entry buffer)
      = .ok (initMem, st')) (hinit0 : initMem ≠ 0) :
    InodeInv st'.fs ∧ SpacesInv st' role spaces ∧ ∀ x, st.heap.Reserved x → st'.mem x = st.mem x := by
  obtain ⟨size, bytes, fs, hleft, hget, hinit, hnull, hclose, rfl⟩ := loadFile_ok hres
  have hsize := fatfsGetAll_size hleft hget
  have hstored : ∀ x, st.heap.Reserved x → storeBytes st.mem initMem bytes x = st.mem x := by
    intro x hx
    refine storeBytes_of_outside ?_
    rw [← hsize, hinit]
    exact hfs.heap.reserved_outside (hinit ▸ hinit0) hx
  refine ⟨(hfs.kalloc (toSize size)).close hl hclose, ⟨h.slab, ?_, h.memory hstored⟩, hstored⟩
  obtain ⟨size', hlive, hsize'⟩ := h.zone
  obtain ⟨r, mem, -, rfl⟩ := closeInode_ok hclose
  refine ⟨size', ?_, hsize'⟩
  show _ ∈ (HeapState.kfree (st.heap.kalloc (toSize size)).2
    (st.fs.inodes l.inode).implInode).live
  rw [hfs.implInode l hl]
  exact List.mem_filter.mpr ⟨HeapState.mem_kalloc_live hlive _,
    decide_eq_true (h.zone_ne_data hfs hl)⟩

/-- The parser stores to new regions. -/
theorem parseElf_spaces {st st' : SystemState} {role : Radix.Role Nat (Fin 512)}
    {spaces : List (PagingManager × List Nat)} (hheap : KernelHeapInv st.heap)
    (h : SpacesInv st role spaces) {initMem : Nat} {elf : Elf}
    (hres : st.parseElf initMem = .ok (elf, st')) :
    KernelHeapInv st'.heap ∧ (∀ a ∈ st.heap.live, a ∈ st'.heap.live) ∧ SpacesInv st' role spaces ∧
      ∀ x, st.heap.Reserved x → st'.mem x = st.mem x := by
  obtain ⟨-, parsed, hparsed, hroom, rfl, rfl⟩ := parseElf_ok hres
  have hmem : ∀ x, st.heap.Reserved x → parsed.mem x = st.mem x := fun x hx =>
    elfAllocAndParse_frame hheap hparsed hroom hx
  obtain ⟨hafter, hkeep⟩ := elfAllocAndParse_live hheap hparsed
  obtain ⟨size, hlive, hsize⟩ := h.zone
  exact ⟨hafter, hkeep, ⟨h.slab, ⟨size, hkeep _ hlive, hsize⟩, h.memory hmem⟩, hmem⟩

/-- What reading and parsing a file leave of the address spaces; `st₁` is the state between. -/
structure ParsedSpaces (st st₁ st₂ : SystemState) (role : Radix.Role Nat (Fin 512))
    (spaces : List (PagingManager × List Nat)) : Prop where
  heap₁ : KernelHeapInv st₁.heap
  heap₂ : KernelHeapInv st₂.heap
  spaces₁ : SpacesInv st₁ role spaces
  spaces₂ : SpacesInv st₂ role spaces
  tables₁ : st₁.tables = st.tables
  tables₂ : st₂.tables = st.tables
  keeps : ∀ a ∈ st₁.heap.live, a ∈ st₂.heap.live
  reserved : ∀ x, st₁.heap.Reserved x → st₂.mem x = st₁.mem x
  /-- The frames and tables that are left are as many as before. -/
  framesLeft : userSpace.freeSlots st₂.mem = userSpace.freeSlots st.mem
  tablesLeft : st₂.tables.freeSlots st₂.mem = st.tables.freeSlots st.mem

theorem ParsedSpaces.fits {st st₁ st₂ : SystemState} {role : Radix.Role Nat (Fin 512)}
    {spaces : List (PagingManager × List Nat)} (h : ParsedSpaces st st₁ st₂ role spaces)
    (size : Int) : JobFits st₂.tables size st₂.mem ↔ JobFits st.tables size st.mem := by
  rw [JobFits, JobFits, h.framesLeft, h.tablesLeft]

theorem SpacesInv.parsed {st st₁ st₂ : SystemState} {role : Radix.Role Nat (Fin 512)}
    {spaces : List (PagingManager × List Nat)} (h : SpacesInv st role spaces) (hfs : InodeInv st.fs)
    {l : OpenedInode} (hl : l ∈ st.fs.opened) {entry : Option Fat16DirEntry} {buffer : Mem}
    {initMem : Nat} {elf : Elf}
    (hload : st.loadFile volume garbage rounds l.inode (fatfsInode entry buffer)
      = .ok (initMem, st₁))
    (hparse : st₁.parseElf initMem = .ok (elf, st₂)) : ParsedSpaces st st₁ st₂ role spaces := by
  obtain ⟨hfs₁, h₁, hmem₁⟩ := loadFile_spaces hfs h hl hload (parseElf_ok hparse).1
  obtain ⟨hheap₂, hkeep, h₂, hmem₂⟩ := parseElf_spaces hfs₁.heap h₁ hparse
  have htables₁ : st₁.tables = st.tables := by
    obtain ⟨_, _, _, -, -, -, -, -, rfl⟩ := loadFile_ok hload
    rfl
  have htables₂ : st₂.tables = st₁.tables := by
    obtain ⟨-, _, -, -, -, rfl⟩ := parseElf_ok hparse
    rfl
  obtain ⟨hframes₁, hleft₁⟩ := h.freeSlots hmem₁
  obtain ⟨hframes₂, hleft₂⟩ := h₁.freeSlots hmem₂
  refine ⟨hfs₁.heap, hheap₂, h₁, h₂, htables₁, htables₂.trans htables₁, hkeep, hmem₂,
    hframes₂.trans hframes₁, ?_⟩
  rw [htables₂, hleft₂, htables₁, hleft₁]

/-- The program goes to the frames of its own address space. -/
theorem DumpPlaces.frames {m : Mem} {manager : PagingManager} {frames : List Nat} {buffer : Nat}
    {read : FileRead} {dest src : Nat → Nat} (hplaces : DumpPlaces m manager.l1 buffer read dest src)
    (h : JobSpace m manager frames) (hfs : ∀ k ∈ frames, k < 0x1000)
    (hlen : frames.length ≤ 0x1000) :
    read.bytes ≤ 0x1000 * frames.length ∧
      ∀ i, i < read.bytes → 0x80000000 ≤ dest i ∧ dest i < 0x81000000 := by
  have hdest : ∀ i, i < read.bytes → i ≤ 0x1000 * frames.length →
      ∃ tr, translate m manager.l1 (jobBaseUser + i) = some tr ∧ tr.pa = dest i := by
    intro i hi hle
    have hmap := (hplaces i hi).1
    rw [toSize_natCast (by rw [jobBaseUser]; omega)] at hmap
    exact Option.map_eq_some_iff.mp hmap
  have hbytes : read.bytes ≤ 0x1000 * frames.length := by
    by_contra hmore
    obtain ⟨tr, htr, -⟩ := hdest (0x1000 * frames.length) (by omega) (Nat.le_refl _)
    rw [h.translate_rest (Nat.le_refl _)] at htr
    cases htr
  refine ⟨hbytes, fun i hi => ?_⟩
  obtain ⟨tr, htr, hpa⟩ := hdest i hi (by omega)
  obtain ⟨j, k, hk, -, rfl⟩ := h.translate_above hfs hlen (Nat.le_add_right _ _) htr
  have := hfs k (List.mem_of_getElem? hk)
  simp only at hpa
  omega

/-- **Starting a program adds one address space** and leaves the others alone. -/
theorem jobCreateFromFile_spaces {st st' : SystemState} {role : Radix.Role Nat (Fin 512)}
    {spaces : List (PagingManager × List Nat)} (hfs : InodeInv st.fs) (h : SpacesInv st role spaces)
    {l : OpenedInode} (hl : l ∈ st.fs.opened) {entry : Option Fat16DirEntry} {buffer : Mem}
    {job name : Nat} (hres : jobCreateFromFile volume garbage rounds st l.inode
      (fatfsInode entry buffer) name = .ok (job, st')) :
    st'.tables = st.tables ∧ ∃ role' space, JobsInv st'.tables st'.mem role' (space :: spaces) := by
  obtain ⟨initMem, st₁, elf, st₂, pm, n, st₃, table, hload, hparse, hprogram, -, rfl⟩ :=
    jobCreateFromFile_ok hres
  have hp := h.parsed hfs hl hload hparse
  have h₂ := hp.spaces₂
  obtain ⟨-, -, -, manager, mem, read, dest, src, hpaging, -, hplaces, rfl⟩ :=
    loadProgram_ok hprogram
  refine ⟨hp.tables₂, ?_⟩
  obtain ⟨-, -, -, role', frames, -, h', -⟩ :=
    jobCreatePaging_inv h₂.slab (h₂.outside hp.heap₂) h₂.spaces hpaging
  obtain ⟨-, hdest⟩ := hplaces.frames (h'.spaces _ List.mem_cons_self)
    (h'.frame_lt List.mem_cons_self) (h'.length_le List.mem_cons_self)
  -- the program goes to the user zone
  exact ⟨role', (manager, frames), h₂.userZone hp.heap₂ h' fun x hx => copyBytes_of_ne fun i hi => by
    have := hdest i hi
    omega⟩

/-- Opening a file: the inode is on the list, and the address spaces are as before. -/
theorem fatfsOpen_spaces {st st₁ : SystemState} {role : Radix.Role Nat (Fin 512)}
    {spaces : List (PagingManager × List Nat)} (hfs : InodeInv st.fs) (h : SpacesInv st role spaces)
    {filename : Mem} {inode : Nat} {fatInode : FatInode}
    (hopen : st.fatfsOpen volume garbage filename = .ok (inode, fatInode, st₁)) :
    InodeInv st₁.fs ∧ SpacesInv st₁ role spaces ∧ ∃ l ∈ st₁.fs.opened, ∃ entry, inode = l.inode ∧
      fatInode = fatfsInode entry garbage.inode := by
  obtain ⟨fs, name, ext, hopened, -, rfl, rfl, rfl⟩ := SystemState.fatfsOpen_ok hopen
  obtain ⟨hinv, hkeep, -⟩ := hfs.opened_heap (fatfsOpen_ok hopened)
  obtain ⟨size, hlive, hsize⟩ := h.zone
  refine ⟨hinv, ⟨h.slab, ⟨size, hkeep _ hlive, hsize⟩, h.spaces⟩, ?_⟩
  obtain ⟨p, q, mem, heap, x, -, -, -, -, -, rfl⟩ := fatfsOpen_ok hopened
  exact ⟨⟨p, .fat, q⟩, List.mem_cons_self, _, rfl, rfl⟩

/-- The copy of a name goes to memory that was free. -/
theorem withName_reserved {st : SystemState} (hfs : InodeInv st.fs) {filename : List Byte}
    (hcopy : (st.kalloc (filename.length + 1)).1 ≠ 0) (x : Nat) (hx : st.heap.Reserved x) :
    (st.withName filename).mem x = st.mem x := by
  refine storeBytes_of_outside ?_
  rw [List.length_append, List.length_singleton]
  exact hfs.heap.reserved_outside hcopy hx

/-- Copying the name of the file. -/
theorem withName_spaces {st : SystemState} {role : Radix.Role Nat (Fin 512)}
    {spaces : List (PagingManager × List Nat)} (hfs : InodeInv st.fs) (h : SpacesInv st role spaces)
    {filename : List Byte} (hcopy : (st.kalloc (filename.length + 1)).1 ≠ 0) :
    InodeInv (st.withName filename).fs ∧ SpacesInv (st.withName filename) role spaces := by
  refine ⟨hfs.kalloc _, h.slab, ?_, h.memory (withName_reserved hfs hcopy)⟩
  obtain ⟨size, hlive, hsize⟩ := h.zone
  exact ⟨size, HeapState.mem_kalloc_live hlive _, hsize⟩

theorem withName_freeSlots {st : SystemState} {role : Radix.Role Nat (Fin 512)}
    {spaces : List (PagingManager × List Nat)} (hfs : InodeInv st.fs) (h : SpacesInv st role spaces)
    {filename : List Byte} (hcopy : (st.kalloc (filename.length + 1)).1 ≠ 0) :
    userSpace.freeSlots (st.withName filename).mem = userSpace.freeSlots st.mem ∧
      st.tables.freeSlots (st.withName filename).mem = st.tables.freeSlots st.mem :=
  h.freeSlots (withName_reserved hfs hcopy)

/-- The same from the opening of the file on. -/
theorem fileSpaces {st st₁ st' : SystemState} {role : Radix.Role Nat (Fin 512)}
    {spaces : List (PagingManager × List Nat)} (hfs : InodeInv st.fs) (h : SpacesInv st role spaces)
    {filename : Mem} {inode job name : Nat} {fatInode : FatInode}
    (hopen : st.fatfsOpen volume garbage filename = .ok (inode, fatInode, st₁))
    (hcreate : jobCreateFromFile volume garbage rounds st₁ inode fatInode name = .ok (job, st')) :
    st'.tables = st.tables ∧ ∃ role' space, JobsInv st'.tables st'.mem role' (space :: spaces) := by
  obtain ⟨hfs₁, h₁, l, hl, entry, rfl, rfl⟩ := fatfsOpen_spaces hfs h hopen
  obtain ⟨fs, _, _, -, -, -, -, rfl⟩ := SystemState.fatfsOpen_ok hopen
  have hres := jobCreateFromFile_spaces hfs₁ h₁ hl hcreate
  exact hres

/-- The same for a spawn. -/
theorem spawn_spaces {st st' : SystemState} {role : Radix.Role Nat (Fin 512)}
    {spaces : List (PagingManager × List Nat)} (hfs : InodeInv st.fs) (h : SpacesInv st role spaces)
    {filename : List Byte}
    (hres : exceptionsInternalSpawn volume garbage rounds st filename = .ok st') :
    st'.tables = st.tables ∧ ∃ role' space, JobsInv st'.tables st'.mem role' (space :: spaces) := by
  obtain ⟨hcopy, inode, fatInode, st₁, job, st₂, hopen, hcreate, rfl⟩ :=
    exceptionsInternalSpawn_ok hres
  obtain ⟨hname, hspaces⟩ := withName_spaces hfs h hcopy
  have hfinal := fileSpaces hname hspaces hopen hcreate
  exact hfinal

end TinyKernel
