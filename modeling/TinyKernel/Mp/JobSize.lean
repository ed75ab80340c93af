/-
  The memory of a new job.

  `p_memsz` has 64 bits.  `job_create_from_file` passes it to `job_create_paging` as an `int`, which
  rounds that up and maps so many pages, and then copies all `p_memsz` bytes.  `GetsMemory` is what
  should happen for every value: the call gives up, or the program gets its pages and one more for
  the stack.  It never gives up, so that it is a matter of the frames, the tables and the manager
  that the UNCUT size needs (`job_memory_iff`): sizes of 2 GiB and more never get them.

  No job is started with less (`created_job_memory`).  What was cut from the size is still copied, and
  the copy reaches a page that is not mapped before there is a job.

  The argument is about numbers and goes through `job_create_paging` twice.  Forwards, a size that fits
  the frames is far below 2^31, so `int` cuts nothing and the pages are the right ones
  (`jobCreatePaging_enough`).  Backwards, if the call ended with enough memory for `p_memsz` bytes,
  whatever size it was given, then these frames and tables were there (`fits_of_jobCreatePaging`).
-/
import Mathlib.Order.Bounds.Basic
import TinyKernel.Mp.SpawnFails

namespace TinyKernel

/-! ## What a job should get -/

/-- The address space of the manager at `pm` has `size` bytes for a program of `memsz` bytes. -/
structure EnoughMemory (st : SystemState) (pm : Nat) (size : Int) (memsz : Nat) : Prop where
  /-- The program and a page of stack, rounded up to whole pages. -/
  least : IsLeast {n : Int | 4096 ∣ n ∧ (memsz : Int) + 4096 ≤ n} size
  mapped : ∀ va : Nat, jobBaseUser ≤ va → (va : Int) < jobBaseUser + size →
    ∃ tr, translate st.mem (st.managers pm).l1 va = some tr ∧ tr.ap1 = true
  /-- Between the program and the initial stack pointer, which is the end, there is a page. -/
  stack : ∀ va : Nat, jobBaseUser + memsz ≤ va → va < jobBaseUser + memsz + 4096 →
    (va : Int) < jobBaseUser + size ∧
      ∃ tr, translate st.mem (st.managers pm).l1 va = some tr ∧ tr.ap1 = true

/-- The call of `job_create_from_file` returns without having created a job, or its call of
    `job_create_paging`, in the state `st'` with the parsed file `elf`, gives the program its
    memory. -/
def GetsMemory (volume : Volume) (garbage : Garbage) (st : SystemState) (inode : Nat)
    (fatInode : FatInode) (name : Nat) (st' : SystemState) (elf : Elf) : Prop :=
  (∃ job st₁, Returns (fun rounds =>
      jobCreateFromFile volume garbage rounds st inode fatInode name) (job, st₁) ∧
    st₁.table.log = st.table.log) ∨
  elfGetProgramheaderByid elf 0 ≠ 0 ∧ ∃ pm size st₁,
    st'.jobCreatePaging (toInt32 (pMemsz st'.mem (elfGetProgramheaderByid elf 0)))
      = .ok (pm, size, st₁) ∧
    EnoughMemory st₁ pm size (pMemsz st'.mem (elfGetProgramheaderByid elf 0))

/-! ## `job_create_paging` -/

/-- The pages of a request are as many as the program and the stack need. -/
theorem jobPages_isLeast (memsz : Nat) :
    IsLeast {n : Int | 4096 ∣ n ∧ (memsz : Int) + 4096 ≤ n} (0x1000 * (jobPages memsz : Int)) := by
  obtain ⟨-, hval⟩ := jobNeedSlots_eq (Int.natCast_nonneg memsz)
  constructor
  · exact ⟨Int.dvd_mul_right _ _, by omega⟩
  · rintro n ⟨⟨k, rfl⟩, hle⟩
    omega

/-- An address space with these pages is large enough. -/
theorem JobSpace.enough {st : SystemState} {pm memsz : Nat} {frames : List Nat}
    (h : JobSpace st.mem (st.managers pm) frames) (hlt : ∀ k ∈ frames, k < 0x1000)
    (hlen : frames.length ≤ 0x1000) (hpages : frames.length = jobPages memsz) :
    EnoughMemory st pm (0x1000 * (frames.length : Int)) memsz := by
  have hleast := jobPages_isLeast memsz
  rw [← hpages] at hleast
  have hroom : (memsz : Int) + 4096 ≤ 0x1000 * (frames.length : Int) := hleast.1.2
  have hmapped : ∀ va : Nat, jobBaseUser ≤ va →
      (va : Int) < jobBaseUser + 0x1000 * (frames.length : Int) →
      ∃ tr, translate st.mem (st.managers pm).l1 va = some tr ∧ tr.ap1 = true := by
    intro va h1 h2
    rw [jobBaseUser] at h1 h2
    have hin : va / 0x1000 - 0x80000 < frames.length := by omega
    exact ⟨_, h.translate_page hlt hlen (List.getElem?_eq_getElem hin) (by omega), rfl⟩
  refine ⟨hleast, hmapped, fun va h1 h2 => ?_⟩
  have hbelow : (va : Int) < jobBaseUser + 0x1000 * (frames.length : Int) := by
    rw [jobBaseUser] at h2 ⊢
    omega
  exact ⟨hbelow, hmapped va (Nat.le_trans (Nat.le_add_right _ _) h1) hbelow⟩

section Paging

variable {st st' : SystemState} {role : Radix.Role Nat (Fin 512)}
  {spaces : List (PagingManager × List Nat)}

/-- A program whose pages can be had is far from the sizes that `int` cuts. -/
theorem toInt32_of_fits {memsz : Nat} (hfit : JobFits st.tables memsz st.mem) :
    toInt32 (memsz : Int) = memsz := by
  obtain ⟨-, hframes, -⟩ := hfit
  have hmax : userSpace.freeSlots st.mem ≤ 0x1000 :=
    (Finset.card_filter_le _ _).trans (by rw [Finset.card_range]; decide)
  obtain ⟨-, hval⟩ := jobNeedSlots_eq (Int.natCast_nonneg memsz)
  exact toInt32_of_range (by omega) (by omega)

/-- With a manager, frames and tables for the whole size, the call gives the program its memory. -/
theorem jobCreatePaging_enough (hheap : KernelHeapInv st.heap) (h : SpacesInv st role spaces)
    (hmanager : (st.kalloc sizeofPagingManager).1 ≠ 0) {memsz : Nat}
    (hfit : JobFits st.tables memsz st.mem) :
    ∃ pm size st₁, st.jobCreatePaging (toInt32 memsz) = .ok (pm, size, st₁) ∧
      EnoughMemory st₁ pm size memsz := by
  obtain ⟨manager, mem, role', frames, hcreate, hpages, h', -⟩ :=
    jobCreatePaging_spec h.slab (h.outside hheap) h.spaces hfit
  refine ⟨(st.kalloc sizeofPagingManager).1, 0x1000 * (frames.length : Int),
    { (st.kalloc sizeofPagingManager).2 with
      mem := mem
      managers := Function.update st.managers (st.kalloc sizeofPagingManager).1 manager }, ?_, ?_⟩
  · rw [toInt32_of_fits hfit, SystemState.jobCreatePaging]
    simp only
    rw [if_neg hmanager]
    show (jobCreatePaging userSpace st.tables memsz st.mem >>= _) = _
    rw [hcreate, ok_bind]
    rfl
  · refine JobSpace.enough ?_ (h'.frame_lt List.mem_cons_self) (h'.length_le List.mem_cons_self)
      hpages
    dsimp only
    rw [Function.update_self]
    exact h'.spaces _ List.mem_cons_self

/-- Whatever size the call was given: if it returned enough for `memsz` bytes, then there were frames
    and tables for all of them. -/
theorem fits_of_jobCreatePaging (hheap : KernelHeapInv st.heap) (h : SpacesInv st role spaces)
    {n size : Int} {pm memsz : Nat} (hres : st.jobCreatePaging n = .ok (pm, size, st'))
    (hleast : IsLeast {n : Int | 4096 ∣ n ∧ (memsz : Int) + 4096 ≤ n} size) :
    (st.kalloc sizeofPagingManager).1 ≠ 0 ∧ JobFits st.tables memsz st.mem := by
  obtain ⟨hpm, hpm0, manager, mem, hcreate, -⟩ := jobCreatePaging_ok hres
  obtain ⟨hsize, hframes, htables, -⟩ :=
    jobCreatePaging_inv h.slab (h.outside hheap) h.spaces hcreate
  obtain ⟨-, hval⟩ := jobNeedSlots_eq (Int.natCast_nonneg memsz)
  have hsame := hleast.unique (jobPages_isLeast memsz)
  have hpages : jobPages n = jobPages memsz := by
    rw [jobPages]
    omega
  rw [hpages] at hframes htables
  rw [pageTablesFrom_zero (by omega)] at htables
  exact ⟨hpm ▸ hpm0, Int.natCast_nonneg memsz, hframes, htables⟩

end Paging

/-! ## The whole call -/

section Call

variable {volume : Volume} {garbage : Garbage} {rounds inode name initMem : Nat}
  {fatInode : FatInode} {st st₁ st₂ : SystemState} {elf : Elf}

/-- **The memory of a program.**  For every call of `job_create_from_file` on a file with a program
    header, whatever its `p_memsz`: the program gets its memory if and only if the heap has a
    paging manager, and there are frames and tables for all `p_memsz` bytes and the stack. -/
theorem job_memory_iff (hcall : JobCreateCall volume garbage st inode fatInode name)
    (hload : st.loadFile volume garbage rounds inode fatInode = .ok (initMem, st₁))
    (hparse : st₁.parseElf initMem = .ok (elf, st₂))
    (hheader : elfGetProgramheaderByid elf 0 ≠ 0) :
    GetsMemory volume garbage st inode fatInode name st₂ elf ↔
      (st₂.kalloc sizeofPagingManager).1 ≠ 0 ∧
      JobFits st.tables (pMemsz st₂.mem (elfGetProgramheaderByid elf 0)) st.mem := by
  obtain ⟨role, spaces, hp⟩ := hcall.ready.parsed hload hparse
  rw [← hp.fits]
  constructor
  · rintro (⟨job, st₃, ⟨enough, hret⟩, hlog⟩ | ⟨-, pm, size, st₃, hres, henough⟩)
    · -- a call that returns has created a job
      rw [jobCreateFromFile_creates (hret enough (Nat.le_refl _))] at hlog
      exact absurd hlog (List.cons_ne_self _ _)
    · exact fits_of_jobCreatePaging hp.heap₂ hp.spaces₂ hres henough.least
  · rintro ⟨hmanager, hfit⟩
    exact Or.inr ⟨hheader, jobCreatePaging_enough hp.heap₂ hp.spaces₂ hmanager hfit⟩

end Call

/-- The small program gets its memory. -/
theorem job_memory_iff_program : ∃ st inode elf st₂,
    JobCreateCall (programVolume 4) noGarbage st inode (fatfsInode (some ⟨2, 188⟩) fun _ => 0) 0 ∧
    pMemsz st₂.mem (elfGetProgramheaderByid elf 0) = 4 ∧
    GetsMemory (programVolume 4) noGarbage st inode (fatfsInode (some ⟨2, 188⟩) fun _ => 0) 0
      st₂ elf := by
  have hm : (4 : Byte) ∈ programSizes := by decide
  have hfour : pMemsz (programBytes 4) (ePhoff (programBytes 4)) = 4 :=
    (programVolume_checks 4 hm).2.2.1.2.2.2.1
  obtain ⟨heap, inodes, jobs, tables, hboot⟩ := bootHeap_exists
  obtain ⟨inode, st, hopen, hfree, hmem, htables, htable, -⟩ := hboot.opened 4 hm
  have hcall : JobCreateCall (programVolume 4) noGarbage st inode _ 0 :=
    .usermode (.start hboot.booted) hopen
  have hfits := hboot.fits hm hcall.ready hfree hmem htables htable
  obtain ⟨st₁, elf, st₂, reads, hload, hparse, hfile⟩ := fileParsed (programVolume_loaded 4 hm)
    hcall.ready rfl (programVolume_chain 4 hm) (programFile_elf64 4 hm) hfits.buffer hfits.programs
  have hload₀ := hload _ (Nat.lt_succ_self _)
  have hmemsz : pMemsz st₂.mem (elfGetProgramheaderByid elf 0)
      = pMemsz (programFile 4) (ePhoff (programFile 4)) := by
    rw [hfile.header]
    exact hfile.fields 40 8 (by decide)
  refine ⟨st, inode, elf, st₂, hcall, ?_, (job_memory_iff hcall hload₀ hparse ?_).mpr ⟨?_, ?_⟩⟩
  · rw [hmemsz, programFile_eq 4 hm]
    exact hfour
  · rw [hfile.header]
    exact hfits.programs _ _ _ hload₀
  · exact hfits.manager _ _ _ _ _ hload₀ hparse
  · rw [hmemsz]
    exact hfits.space

/-! ### A size that is cut -/

/-- The disk with the small program, whose `p_memsz` is now 4 GiB more. -/
def wideDisk : Disk := Function.update (programDisk 4) 1644 1

@[irreducible] def wideHandle : FatHandle :=
  (fatLoad wideDisk (fun _ => 0) (fun _ => 0) (fun _ => 0)).toOption.getD
    ⟨⟨0, 0, 0, 0, 0, 0, 0, 0⟩, 0, 0, 0, fun _ => 0, 0, 0, fun _ => 0, 0⟩

def wideVolume : Volume := ⟨wideDisk, wideHandle⟩

/-- The bytes of the file. -/
def wideBytes : Mem := fun i => wideDisk (1536 + 512 * ([2].getD (i / 512) 0 - 2) + i % 512)

theorem wideVolume_checks : LayoutChecks wideDisk wideHandle ∧ TableChecks wideBytes ∧
    (eShstrndx wideBytes < eShnum wideBytes ∧ namesSize wideBytes ≠ 0) ∧
    4112 + allocBlocks 188 + parserBlocks wideBytes + allocBlocks sizeofPagingManager ≤ 0x10000 ∧
    pMemsz wideBytes (ePhoff wideBytes) = 0x100000004 := by
  decide +kernel

theorem wideVolume_layout : ProgramLayout wideVolume := by
  refine wideVolume_checks.1.layout fun hok => ?_
  unfold wideHandle
  exact fatLoad_getD hok

theorem wideFile_eq : wideVolume.file [2] = wideBytes := wideVolume_layout.file_eq

theorem wideFile_elf64 : Elf64 (wideVolume.file [2]) 188 := by
  rw [wideFile_eq]
  exact wideVolume_checks.2.1.elf64

theorem wideFile_room : HasNames (wideVolume.file [2]) ∧ 4112 + allocBlocks 188
    + parserBlocks (wideVolume.file [2]) + allocBlocks sizeofPagingManager ≤ 0x10000 := by
  obtain ⟨-, -, ⟨hindex, hsize⟩, hroom, -⟩ := wideVolume_checks
  rw [wideFile_eq]
  exact ⟨⟨hindex, hsize⟩, hroom⟩

/-- The first program of the kernel asks for 4 GiB and four bytes, and its call of
    `job_create_paging` is one for four bytes. -/
theorem job_size_is_cut : ∃ st inode initMem st₁ elf st₂,
    JobCreateCall wideVolume noGarbage st inode (fatfsInode (some ⟨2, 188⟩) fun _ => 0) 0 ∧
    wideVolume.Loaded ∧ FileChain wideVolume.handle ⟨2, 188⟩ [2] ∧ Elf64 (wideVolume.file [2]) 188 ∧
    st.loadFile wideVolume noGarbage 189 inode (fatfsInode (some ⟨2, 188⟩) fun _ => 0)
      = .ok (initMem, st₁) ∧ st₁.parseElf initMem = .ok (elf, st₂) ∧
    pMemsz st₂.mem (elfGetProgramheaderByid elf 0) = 0x100000004 ∧
    ¬ GetsMemory wideVolume noGarbage st inode (fatfsInode (some ⟨2, 188⟩) fun _ => 0) 0 st₂ elf := by
  have hwide := wideVolume_checks.2.2.2.2
  have hlayout := wideVolume_layout
  obtain ⟨heap, inodes, jobs, tables, hboot⟩ := bootHeap_exists
  obtain ⟨inode, st, hopen, hfree, -⟩ := hboot.openedFile hlayout.found
  have hcall : JobCreateCall wideVolume noGarbage st inode _ 0 :=
    .usermode (.start hboot.booted) hopen
  obtain ⟨hbuffer, hafter⟩ := buffers_of_room hlayout.loaded hcall.ready rfl hlayout.chain
    wideFile_elf64 wideFile_room.1 hfree wideFile_room.2
  obtain ⟨st₁, elf, st₂, reads, hload, hparse, hfile⟩ := fileParsed hlayout.loaded hcall.ready rfl
    hlayout.chain wideFile_elf64 hbuffer fun rounds initMem st₁ hload =>
      (hafter rounds initMem st₁ hload).1
  have hmemsz : pMemsz st₂.mem (elfGetProgramheaderByid elf 0) = 0x100000004 := by
    rw [hfile.header, ← hwide, ← wideFile_eq]
    exact hfile.fields 40 8 (by decide)
  have hload₀ := hload 189 (Nat.lt_succ_self _)
  refine ⟨st, inode, _, st₁, elf, st₂, hcall, hlayout.loaded, hlayout.chain, wideFile_elf64, hload₀,
    hparse, hmemsz, ?_⟩
  obtain ⟨role, spaces, hp⟩ := hcall.ready.parsed hload₀ hparse
  rintro (⟨job, st₃, ⟨enough, hret⟩, hlog⟩ | ⟨-, pm, size, st₃, hres, henough⟩)
  · rw [jobCreateFromFile_creates (hret enough (Nat.le_refl _))] at hlog
    exact absurd hlog (List.cons_ne_self _ _)
  · -- there are not that many frames
    obtain ⟨-, hfit⟩ := fits_of_jobCreatePaging hp.heap₂ hp.spaces₂ hres henough.least
    have hint := toInt32_of_fits hfit
    rw [hmemsz] at hint
    unfold toInt32 at hint
    omega

/-! ## Jobs that were created -/

section Created

variable {volume : Volume} {garbage : Garbage} {rounds inode name initMem : Nat}
  {fatInode : FatInode} {st st₁ st₂ : SystemState} {elf : Elf}

/-- The program header is in the heap, where making an address space changes nothing. -/
theorem pMemsz_unchanged {role : Radix.Role Nat (Fin 512)}
    {spaces : List (PagingManager × List Nat)} (hp : ParsedSpaces st st₁ st₂ role spaces)
    (hparse : st₁.parseElf initMem = .ok (elf, st₂))
    (hheader : elfGetProgramheaderByid elf 0 ≠ 0) {mem : Mem}
    (honly : OnlyPaging st₂.tables st₂.mem mem) :
    pMemsz mem (elfGetProgramheaderByid elf 0)
      = pMemsz st₂.mem (elfGetProgramheaderByid elf 0) := by
  obtain ⟨-, parsed, hparsed, -, rfl, rfl⟩ := parseElf_ok hparse
  obtain ⟨⟨size, hlive, hsize⟩, hfresh⟩ := elfAllocAndParse_program hp.heap₁ hparsed hheader
  obtain ⟨zone, hzone, -⟩ := hp.spaces₁.zone
  have hroom : 40 + 8 ≤ sizeofPhdr := by decide
  refine loadNat_congr fun i hi => ?_
  refine hp.spaces₂.unchanged hp.heap₂ hlive (Ne.symm ?_) honly ?_ ?_
  · rw [hp.tables₂, ← hp.tables₁]
    exact hfresh _ hzone
  · dsimp only
    omega
  · dsimp only
    omega

/-- **No job is started with less**: a job that was created has the memory that its program needs,
    up to its initial stack pointer. -/
theorem created_job_memory (hready : CallReady garbage st inode fatInode)
    (hload : st.loadFile volume garbage rounds inode fatInode = .ok (initMem, st₁))
    (hparse : st₁.parseElf initMem = .ok (elf, st₂)) {job : Nat} {st' : SystemState}
    (hres : jobCreateFromFile volume garbage rounds st inode fatInode name = .ok (job, st')) :
    ∃ size : Int, (st'.table.jobs job).sp = BitVec.ofInt 64 (jobBaseUser + size) ∧
      EnoughMemory st' (st'.managerOf job) size
        (pMemsz st₂.mem (elfGetProgramheaderByid elf 0)) := by
  obtain ⟨role, spaces, hp⟩ := hready.parsed hload hparse
  have h₂ := hp.spaces₂
  obtain ⟨initMem', st₁', elf', st₂', pm, size, st₃, table, hload', hparse', hprogram, hjob, rfl⟩ :=
    jobCreateFromFile_ok hres
  obtain ⟨rfl, rfl⟩ := Prod.mk.inj (Except.ok.inj (hload.symm.trans hload'))
  obtain ⟨rfl, rfl⟩ := Prod.mk.inj (Except.ok.inj (hparse.symm.trans hparse'))
  obtain ⟨hheader, -, -, manager, mem, read, dest, src, hcreate, rfl, hplaces, rfl⟩ :=
    loadProgram_ok hprogram
  obtain ⟨hsize, -, -, role', frames, hlength, h', honly⟩ :=
    jobCreatePaging_inv h₂.slab (h₂.outside hp.heap₂) h₂.spaces hcreate
  have hlt := h'.frame_lt List.mem_cons_self
  have hlen := h'.length_le List.mem_cons_self
  obtain ⟨hbytes, hdest⟩ := hplaces.frames (h'.spaces _ List.mem_cons_self) hlt hlen
  -- the whole size was copied, so nothing was cut from it
  have hmemsz := pMemsz_unchanged hp hparse hheader honly
  have hread : (elfProgramRead mem (elfGetProgramheaderByid elf 0)).bytes
      = pMemsz st₂.mem (elfGetProgramheaderByid elf 0) := by
    have hlt64 := loadNat_eight_lt mem (elfGetProgramheaderByid elf 0 + 40)
    rw [elfProgramRead, ← hmemsz]
    dsimp only
    rw [Nat.mul_one]
    exact toSize_natCast hlt64
  rw [hread] at hbytes
  generalize pMemsz st₂.mem (elfGetProgramheaderByid elf 0) = memsz at *
  have hint : toInt32 (memsz : Int) = memsz := toInt32_of_range (by omega) (by omega)
  obtain ⟨hneed, -⟩ := jobNeedSlots_eq (Int.natCast_nonneg memsz)
  rw [hint] at hlength hsize
  rw [hneed, ← hlength] at hsize
  subst hsize
  obtain ⟨mem₄, -, rfl⟩ := jobCreate_ok hjob
  refine ⟨0x1000 * (frames.length : Int), (jobFill_self ..).2.2, ?_⟩
  refine JobSpace.enough ?_ hlt hlen hlength
  have hafter := h₂.userZone hp.heap₂ h' fun x hx => copyBytes_of_ne (d := dest) (s := src)
    fun i hi => (by have := hdest i hi; omega : x ≠ dest i)
  rw [SystemState.managerOf, jobFill_paging, if_pos rfl]
  show JobSpace _ (Function.update st₂.managers pm manager pm) frames
  rw [Function.update_self]
  exact hafter.spaces _ List.mem_cons_self

end Created

end TinyKernel
