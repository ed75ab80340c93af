/-
  The address space that starting a program adds, byte by byte.

  `userByte` is what EL0 finds at an address.  In a `JobSpace` each address of a job stands for one
  byte of one of its frames, so that a store is read back there and nowhere else
  (`JobSpace.load_store`).

  `SpaceAdded` goes on from where `jobCreateFromFile_spaces` stops: the new space belongs to the
  manager of the new job, and the only bytes of the user zone that changed are those of the program,
  one after the other in the new frames.
-/
import TinyKernel.Mp.SpawnMem

namespace TinyKernel

/-! ## Bytes of a job -/

/-- What EL0 reads at `va` in the tree at `l1`, if it may. -/
def userByte (m : Mem) (l1 va : Nat) : Option Byte :=
  (translate m l1 va).bind fun tr => if tr.ap1 then some (m tr.pa) else none

section Bytes

variable {m m' : Mem} {pm : PagingManager} {frames : List Nat} {va : Nat} {c : Byte}

/-- The bytes of a job, through its frames. -/
theorem JobSpace.load_iff (h : JobSpace m pm frames) (hframes : ∀ k ∈ frames, k < 0x1000)
    (hlen : frames.length ≤ 0x1000) :
    userByte m pm.l1 va = some c ↔
      ∃ i k, frames[i]? = some k ∧ va / 0x1000 = 0x80000 + i ∧
        m (0x80000000 + 0x1000 * k + va % 0x1000) = c := by
  rw [userByte, Option.bind_eq_some_iff]
  constructor
  · rintro ⟨tr, htr, hval⟩
    split at hval
    · rename_i hap
      obtain ⟨i, k, hi, hpage, rfl⟩ := (h.user_iff hframes hlen va tr).mp ⟨htr, hap⟩
      exact ⟨i, k, hi, hpage, Option.some.inj hval⟩
    · cases hval
  · rintro ⟨i, k, hi, hpage, rfl⟩
    exact ⟨_, h.translate_page hframes hlen hi hpage, rfl⟩

/-- Two memories in which the frames of a job hold the same, and are mapped in the same way, look the
    same to it. -/
theorem JobSpace.load_congr (h : JobSpace m pm frames) (h' : JobSpace m' pm frames)
    (hframes : ∀ k ∈ frames, k < 0x1000) (hlen : frames.length ≤ 0x1000)
    (hsame : ∀ k ∈ frames, ∀ x, x / 0x1000 = 0x80000 + k → m' x = m x) (va : Nat) :
    userByte m' pm.l1 va = userByte m pm.l1 va := by
  refine Option.ext fun c => ?_
  rw [h'.load_iff hframes hlen, h.load_iff hframes hlen]
  have hbyte : ∀ i k, frames[i]? = some k → m' (0x80000000 + 0x1000 * k + va % 0x1000)
      = m (0x80000000 + 0x1000 * k + va % 0x1000) := fun i k hi =>
    hsame k (List.mem_of_getElem? hi) _ (by omega)
  constructor
  · rintro ⟨i, k, hi, hpage, hval⟩
    exact ⟨i, k, hi, hpage, (hbyte i k hi).symm.trans hval⟩
  · rintro ⟨i, k, hi, hpage, hval⟩
    exact ⟨i, k, hi, hpage, (hbyte i k hi).trans hval⟩

/-- A byte stored through page `i` is read there, and nowhere else: another page has another frame,
    another byte of the page another offset. -/
theorem JobSpace.load_store (h : JobSpace m pm frames) {i k : Nat}
    (hframes : ∀ k ∈ frames, k < 0x1000) (hlen : frames.length ≤ 0x1000) (hnodup : frames.Nodup)
    (hi : frames[i]? = some k) (hpage : va / 0x1000 = 0x80000 + i)
    (h' : JobSpace (Function.update m (0x80000000 + 0x1000 * k + va % 0x1000) c) pm frames) :
    userByte (Function.update m (0x80000000 + 0x1000 * k + va % 0x1000) c) pm.l1
      = Function.update (userByte m pm.l1) va (some c) := by
  funext va'
  refine Option.ext fun c' => ?_
  rw [h'.load_iff hframes hlen, Function.update_apply]
  split
  · rename_i hva
    subst hva
    constructor
    · rintro ⟨i', k', hi', hpage', hval⟩
      obtain rfl : i = i' := by omega
      obtain rfl : k = k' := Option.some.inj (hi.symm.trans hi')
      rw [Function.update_self] at hval
      exact congrArg some hval
    · intro hc
      exact ⟨i, k, hi, hpage, (Function.update_self ..).trans (Option.some.inj hc)⟩
  · rename_i hva
    rw [h.load_iff hframes hlen]
    have hne : ∀ i' k', frames[i']? = some k' → va' / 0x1000 = 0x80000 + i' →
        0x80000000 + 0x1000 * k' + va' % 0x1000 ≠ 0x80000000 + 0x1000 * k + va % 0x1000 := by
      intro i' k' hi' hpage' heq
      obtain rfl : k' = k := by omega
      obtain rfl : i' = i :=
        (List.getElem?_inj (List.getElem?_eq_some_iff.mp hi').1 hnodup).mp (hi'.trans hi.symm)
      exact hva (by omega)
    constructor
    · rintro ⟨i', k', hi', hpage', hval⟩
      rw [Function.update_of_ne (hne i' k' hi' hpage')] at hval
      exact ⟨i', k', hi', hpage', hval⟩
    · rintro ⟨i', k', hi', hpage', hval⟩
      exact ⟨i', k', hi', hpage', (Function.update_of_ne (hne i' k' hi' hpage') _ _).trans hval⟩

end Bytes

/-! ## What starting a program adds -/

/-- The program's bytes go to `space`, which is a new address space, for the manager of the new job.
    `read` is the copy out of the file. -/
structure SpaceAdded (st st' : SystemState) (spaces : List (PagingManager × List Nat))
    (space : PagingManager × List Nat) (read : FileRead) : Prop where
  tables : st'.tables = st.tables
  spaces : ∃ role, JobsInv st'.tables st'.mem role (space :: spaces)
  manager : ∃ job mem entry sp name pm,
    slabAllocate st.table.jobSlab st.table.mem = .ok (job, mem) ∧
    st'.table = jobFill { st.table with mem := mem } job entry sp name pm ∧
    st'.managers = Function.update st.managers pm space.1
  reads : st'.fileReads.head? = some read
  room : read.bytes ≤ 0x1000 * space.2.length
  /-- The user zone changes nowhere else. -/
  image : ∀ x, 0x80000000 ≤ x → (∀ i k, i < read.bytes → space.2[i / 0x1000]? = some k →
    x ≠ 0x80000000 + 0x1000 * k + i % 0x1000) → st'.mem x = st.mem x

section Added

variable {volume : Volume} {garbage : Garbage} {rounds : Nat} {st st' : SystemState}
  {role : Radix.Role Nat (Fin 512)} {spaces : List (PagingManager × List Nat)}

/-- The bytes of a program, one after the other in the frames of its address space. -/
theorem DumpPlaces.pages {m : Mem} {manager : PagingManager} {frames : List Nat} {buffer : Nat}
    {read : FileRead} {dest src : Nat → Nat} (hplaces : DumpPlaces m manager.l1 buffer read dest src)
    (h : JobSpace m manager frames) (hfs : ∀ k ∈ frames, k < 0x1000)
    (hlen : frames.length ≤ 0x1000) {i : Nat} (hi : i < read.bytes) :
    ∃ k, frames[i / 0x1000]? = some k ∧ dest i = 0x80000000 + 0x1000 * k + i % 0x1000 := by
  obtain ⟨hroom, -⟩ := hplaces.frames h hfs hlen
  have hmap := (hplaces i hi).1
  rw [toSize_natCast (by rw [jobBaseUser]; omega)] at hmap
  obtain ⟨tr, htr, hpa⟩ := Option.map_eq_some_iff.mp hmap
  obtain ⟨j, k, hk, hpage, rfl⟩ := h.translate_above hfs hlen (Nat.le_add_right _ _) htr
  rw [jobBaseUser] at hpage hpa
  obtain rfl : i / 0x1000 = j := by omega
  refine ⟨k, hk, hpa.symm.trans ?_⟩
  show 0x80000000 + 0x1000 * k + (0x80000000 + i) % 0x1000 = _
  omega

/-- `job_create_from_file` on an open file. -/
theorem jobCreateFromFile_added (hfs : InodeInv st.fs) (h : SpacesInv st role spaces)
    {l : OpenedInode} (hl : l ∈ st.fs.opened) {entry : Option Fat16DirEntry} {buffer : Mem}
    {job name : Nat} (hres : jobCreateFromFile volume garbage rounds st l.inode
      (fatfsInode entry buffer) name = .ok (job, st')) :
    ∃ space read, SpaceAdded st st' spaces space read := by
  obtain ⟨initMem, st₁, elf, st₂, pm, n, st₃, table, hload, hparse, hprogram, hjob, rfl⟩ :=
    jobCreateFromFile_ok hres
  have hp := h.parsed hfs hl hload hparse
  have h₂ := hp.spaces₂
  obtain ⟨-, -, hmem₁⟩ := loadFile_spaces hfs h hl hload (parseElf_ok hparse).1
  obtain ⟨-, -, -, manager, mem, read, dest, src, hpaging, -, hplaces, hst₃⟩ :=
    loadProgram_ok hprogram
  obtain ⟨-, -, -, role', frames, -, h', honly⟩ :=
    jobCreatePaging_inv h₂.slab (h₂.outside hp.heap₂) h₂.spaces hpaging
  have hspace := h'.spaces _ List.mem_cons_self
  have hfsk := h'.frame_lt List.mem_cons_self
  have hlen := h'.length_le List.mem_cons_self
  obtain ⟨hroom, hdest⟩ := hplaces.frames hspace hfsk hlen
  -- the call itself changes neither the table nor the managers before
  have hbefore : st₃.table = st.table ∧ st₂.managers = st.managers := by
    obtain ⟨_, _, _, -, -, -, -, -, rfl⟩ := loadFile_ok hload
    obtain ⟨-, _, -, -, -, rfl⟩ := parseElf_ok hparse
    rw [hst₃]
    exact ⟨rfl, rfl⟩
  rw [hbefore.1] at hjob
  obtain ⟨mem₄, hslab, htable⟩ := jobCreate_ok hjob
  refine ⟨(manager, frames), read, ?_, ⟨role', ?_⟩, ⟨job, mem₄, _, _, _, pm, hslab, htable, ?_⟩, ?_,
    hroom, fun x hx hno => ?_⟩
  · rw [hst₃]
    exact hp.tables₂
  · rw [hst₃]
    exact h₂.userZone hp.heap₂ h' fun x hx => copyBytes_of_ne fun i hi => by
      have := hdest i hi
      omega
  · rw [hst₃, ← hbefore.2]
    rfl
  · rw [hst₃]
    rfl
  · have hzone : ¬ st₂.tables.InZone x := fun hin => by
      have := h₂.inZone_lt hp.heap₂ hin
      omega
    rw [hst₃]
    calc copyBytes dest src read.bytes mem x = mem x := copyBytes_of_ne fun i hi => by
          obtain ⟨k, hk, hd⟩ := hplaces.pages hspace hfsk hlen hi
          exact hd ▸ hno i k hi hk
      _ = st₂.mem x := honly x hzone (Or.inr hx)
      _ = st₁.mem x := hp.reserved x (Or.inl (by omega))
      _ = st.mem x := hmem₁ x (Or.inl (by omega))

/-- The same from the opening of the file on. -/
theorem fileAdded (hfs : InodeInv st.fs) (h : SpacesInv st role spaces) {filename : Mem}
    {inode job name : Nat} {fatInode : FatInode} {st₁ : SystemState}
    (hopen : st.fatfsOpen volume garbage filename = .ok (inode, fatInode, st₁))
    (hcreate : jobCreateFromFile volume garbage rounds st₁ inode fatInode name = .ok (job, st')) :
    ∃ space read, SpaceAdded st st' spaces space read := by
  obtain ⟨hfs₁, h₁, l, hl, entry, rfl, rfl⟩ := fatfsOpen_spaces hfs h hopen
  obtain ⟨space, read, hadd⟩ := jobCreateFromFile_added hfs₁ h₁ hl hcreate
  obtain ⟨fs, _, _, -, -, -, -, rfl⟩ := SystemState.fatfsOpen_ok hopen
  exact ⟨space, read, hadd.tables, hadd.spaces, hadd.manager, hadd.reads, hadd.room, hadd.image⟩

/-- The same for a spawn. -/
theorem spawn_added (hfs : InodeInv st.fs) (h : SpacesInv st role spaces) {filename : List Byte}
    (hres : exceptionsInternalSpawn volume garbage rounds st filename = .ok st') :
    ∃ space read, SpaceAdded st st' spaces space read := by
  obtain ⟨hcopy, inode, fatInode, st₁, job, st₂, hopen, hcreate, rfl⟩ :=
    exceptionsInternalSpawn_ok hres
  obtain ⟨hname, hspaces⟩ := withName_spaces hfs h hcopy
  obtain ⟨space, read, hadd⟩ := fileAdded hname hspaces hopen hcreate
  refine ⟨space, read, hadd.tables, hadd.spaces, hadd.manager, hadd.reads, hadd.room,
    fun x hx hno => (hadd.image x hx hno).trans (storeBytes_of_outside ?_)⟩
  rw [List.length_append, List.length_singleton]
  exact hfs.heap.reserved_outside hcopy (Or.inl (by omega))

end Added

end TinyKernel
