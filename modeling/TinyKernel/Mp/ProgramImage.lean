/-
  Programs and their address spaces.

  Two results about all runs of the kernel.  The program that a new job sees is the one that its
  ELF segment describes, exactly when the file has the zeroes behind the segment that the kernel
  does not store (`loads_image_iff`).  And whatever programs are started, terminated and scheduled,
  the address space that EL0 runs in is the current job's (`active_paging`).
-/
import TinyKernel.Mp.Waiting

namespace TinyKernel

/-! ## The image -/

section Image

variable {volume : Volume} {garbage : Garbage} {st : SystemState} {inode : Nat}
  {fatInode : FatInode} {entry : Fat16DirEntry} {clusters : List Nat}

/-- **The image of a program.**  On every call of `job_create_from_file` that the kernel makes, for
    every ELF64 file whose program header 0 is a segment for `JOB_BASE_USER`, if the allocations
    succeed: the new job sees the segment that the header describes, and no byte outside of the file
    is read, if and only if the file goes on for `p_memsz` bytes and these are zero from `p_filesz`
    on. -/
theorem loads_image_iff {name : Nat} (hv : volume.Loaded)
    (hcall : JobCreateCall volume garbage st inode fatInode name)
    (hentry : fatInode.fat16DirEntry = some entry)
    (hchain : FileChain volume.handle entry clusters)
    (helf : Elf64 (volume.file clusters) entry.filesizeBytes)
    (hseg : LoadSegment (volume.file clusters) entry.filesizeBytes)
    (hfit : SpawnFits volume garbage st inode fatInode (volume.file clusters) entry.filesizeBytes) :
    LoadsImage volume garbage st inode fatInode name (volume.file clusters) entry.filesizeBytes ↔
      pOffset (volume.file clusters) (ePhoff (volume.file clusters))
          + pMemsz (volume.file clusters) (ePhoff (volume.file clusters)) ≤ entry.filesizeBytes ∧
        ∀ i, pFilesz (volume.file clusters) (ePhoff (volume.file clusters)) ≤ i →
          i < pMemsz (volume.file clusters) (ePhoff (volume.file clusters)) →
          volume.file clusters
            (pOffset (volume.file clusters) (ePhoff (volume.file clusters)) + i) = 0 := by
  obtain ⟨job, st', reads, hret, hinside, hreads, himage⟩ :=
    jobCreateFromFile_image hv hcall.ready hentry hchain helf hseg hfit name
  have hvaddr := hseg.vaddr
  have hsizes := hseg.sizes
  have hin := hseg.inFile
  have hlen := hchain.size
  have hreturns : Returns (fun rounds =>
      jobCreateFromFile volume garbage rounds st inode fatInode name) (job, st') :=
    ⟨entry.filesizeBytes + 1, fun rounds hrounds => hret rounds (by omega)⟩
  -- what was read of the segment
  have hprogram : (⟨pOffset (volume.file clusters) (ePhoff (volume.file clusters)),
      pMemsz (volume.file clusters) (ePhoff (volume.file clusters)),
      pMemsz (volume.file clusters) (ePhoff (volume.file clusters))⟩ : FileRead).Inside
        entry.filesizeBytes ↔ pOffset (volume.file clusters) (ePhoff (volume.file clusters))
          + pMemsz (volume.file clusters) (ePhoff (volume.file clusters)) ≤ entry.filesizeBytes := by
    rw [FileRead.inside_iff (by omega) (by omega), InFile]
    omega
  constructor
  · rintro ⟨job', st'', hret', hbytes, reads', hreads', hinside'⟩
    obtain ⟨rfl, rfl⟩ := Prod.mk.inj (hret'.unique hreturns)
    rw [hreads, ← List.cons_append] at hreads'
    obtain rfl := List.append_cancel_right hreads'
    have hfits := hprogram.mp (hinside' _ List.mem_cons_self)
    refine ⟨hfits, fun i hi hi' => ?_⟩
    have hbyte := hbytes i hi'
    rw [hvaddr, himage i hi' (by omega), if_neg (by omega)] at hbyte
    exact Option.some.inj hbyte
  · rintro ⟨hfits, hzero⟩
    refine ⟨job, st', hreturns, fun i hi => ?_, _ :: reads, hreads, ?_⟩
    · rw [hvaddr, himage i hi (by omega)]
      split
      · rfl
      · rw [hzero i (by omega) hi]
    · exact List.forall_mem_cons.mpr ⟨hprogram.mpr hfits, hinside⟩

end Image

/-- A program whose segment has no zero-initialised data sees its image. -/
theorem loads_image_iff_program : ∃ st inode,
    JobCreateCall (programVolume 4) noGarbage st inode (fatfsInode (some ⟨2, 188⟩) fun _ => 0) 0 ∧
    LoadsImage (programVolume 4) noGarbage st inode (fatfsInode (some ⟨2, 188⟩) fun _ => 0) 0
      (programFile 4) 188 := by
  have hm : (4 : Byte) ∈ programSizes := by decide
  obtain ⟨heap, inodes, jobs, tables, hboot⟩ := bootHeap_exists
  obtain ⟨inode, st, hopen, hfree, hmem, htables, htable, -⟩ := hboot.opened 4 hm
  have hcall : JobCreateCall (programVolume 4) noGarbage st inode _ 0 :=
    .usermode (.start hboot.booted) hopen
  have hsizes : pOffset (programBytes 4) (ePhoff (programBytes 4))
      + pMemsz (programBytes 4) (ePhoff (programBytes 4)) ≤ 188 ∧
      pMemsz (programBytes 4) (ePhoff (programBytes 4))
        ≤ pFilesz (programBytes 4) (ePhoff (programBytes 4)) := by
    decide +kernel
  rw [← programFile_eq 4 hm] at hsizes
  refine ⟨st, inode, hcall, (loads_image_iff (programVolume_loaded 4 hm) hcall rfl
    (programVolume_chain 4 hm) (programFile_elf64 4 hm) (programFile_segment 4 hm)
    (hboot.fits hm hcall.ready hfree hmem htables htable)).mpr ⟨hsizes.1, fun i hi hi' => ?_⟩⟩
  exact absurd (Nat.lt_of_lt_of_le hi' hsizes.2) (Nat.not_lt_of_le hi)

/-- The same program with four bytes of zero-initialised data at the end of the file: the kernel
    copies what lies behind the buffer. -/
theorem bss_is_read_from_the_file : ∃ st inode,
    JobCreateCall (programVolume 8) noGarbage st inode (fatfsInode (some ⟨2, 188⟩) fun _ => 0) 0 ∧
    (programVolume 8).Loaded ∧ FileChain (programVolume 8).handle ⟨2, 188⟩ [2] ∧
    Elf64 (programFile 8) 188 ∧ LoadSegment (programFile 8) 188 ∧
    SpawnFits (programVolume 8) noGarbage st inode (fatfsInode (some ⟨2, 188⟩) fun _ => 0)
      (programFile 8) 188 ∧
    ¬ LoadsImage (programVolume 8) noGarbage st inode (fatfsInode (some ⟨2, 188⟩) fun _ => 0) 0
      (programFile 8) 188 := by
  have hm : (8 : Byte) ∈ programSizes := by decide
  obtain ⟨heap, inodes, jobs, tables, hboot⟩ := bootHeap_exists
  obtain ⟨inode, st, hopen, hfree, hmem, htables, htable, -⟩ := hboot.opened 8 hm
  have hcall : JobCreateCall (programVolume 8) noGarbage st inode _ 0 :=
    .usermode (.start hboot.booted) hopen
  have hfits := hboot.fits hm hcall.ready hfree hmem htables htable
  refine ⟨st, inode, hcall, programVolume_loaded 8 hm, programVolume_chain 8 hm,
    programFile_elf64 8 hm, programFile_segment 8 hm, hfits, ?_⟩
  rintro ⟨job', st'', hret', -, reads', hreads', hinside'⟩
  obtain ⟨job, st', reads, hret, -, hreads, -⟩ := jobCreateFromFile_image
    (programVolume_loaded 8 hm) hcall.ready rfl (programVolume_chain 8 hm) (programFile_elf64 8 hm)
    (programFile_segment 8 hm) hfits 0
  obtain ⟨rfl, rfl⟩ := Prod.mk.inj (hret'.unique ⟨189, fun rounds hrounds => hret rounds hrounds⟩)
  rw [hreads, ← List.cons_append] at hreads'
  obtain rfl := List.append_cancel_right hreads'
  -- eight bytes from 184 on, of a file of 188
  have hread := hinside' _ List.mem_cons_self
  have hsizes : pOffset (programBytes 8) (ePhoff (programBytes 8)) = 184 ∧
      pMemsz (programBytes 8) (ePhoff (programBytes 8)) = 8 := by
    decide +kernel
  rw [← programFile_eq 8 hm] at hsizes
  have hseven : 7 < pMemsz (programFile 8) (ePhoff (programFile 8)) := by omega
  have hlast := hread.1 7 hseven
  have hoffset : pOffset (programFile 8) (ePhoff (programFile 8)) = 184 := hsizes.1
  change (pOffset (programFile 8) (ePhoff (programFile 8)) + 7) % 18446744073709551616 < 188 at hlast
  omega

/-! ## The address space at EL0 -/

/-- **The active address space is the current job's.**  In every state that the kernel reaches by
    timer interrupts, spawns, opens and terminations, when there is a current job: TTBR0 holds the
    root of its tables, `current_paging_manager` is its manager, and that manager has not been
    freed. -/
theorem active_paging {volume : Volume} {st : SystemState} (hr : (systemMachine volume).Reach st)
    (hcur : st.table.currentJob ≠ 0) : ActivePaging st :=
  (SystemGood.reach hr).activePaging hcur

/-- It holds when the program has been started and has spawned another, in the first turn of that
    one, when it ends itself, and in the turn that the first gets then: the interrupt has freed the
    manager of the other. -/
theorem active_paging_three : ∃ st st₁ st₂ st₃ a b, a ≠ b ∧
    (systemMachine (programVolume 4)).Reach st ∧
    SystemStep (programVolume 4) st (.timer firstInterrupt) st₁ ∧ st₁.table.currentJob = b ∧
    SystemStep (programVolume 4) st₁ .terminate st₂ ∧
    SystemStep (programVolume 4) st₂ (.timer firstInterrupt) st₃ ∧ st₃.table.currentJob = a ∧
    ActivePaging st ∧ ActivePaging st₁ ∧ ActivePaging st₂ ∧ ActivePaging st₃ := by
  obtain ⟨st, st₁, a, b, hreach, hne, hb, hstep, hcur, ha, hahead⟩ := programVolume_turn
  have hreach₁ : (systemMachine (programVolume 4)).Reach st₁ :=
    hreach.step (e := .timer firstInterrupt) hstep
  -- the second job ends itself
  have hcur₁ : st₁.table.currentJob ≠ 0 := ha.1.1
  have hstep₂ : SystemStep (programVolume 4) st₁ .terminate
      { st₁ with table := jobTerminate st₁.table } := ⟨hcur₁, rfl⟩
  have hreach₂ : (systemMachine (programVolume 4)).Reach
      { st₁ with table := jobTerminate st₁.table } := hreach₁.step (e := .terminate) hstep₂
  have hrun₂ : (systemMachine (programVolume 4)).Run st₁ [(st₁, .terminate, _)] _ :=
    .cons hstep₂ (.nil _)
  obtain ⟨ha₂, hahead₂⟩ := (SystemGood.waits hrun₂ (SystemGood.reach hreach₁) ha
    (fun x y hm => by
      cases List.mem_singleton.mp hm
      exact fun heq => hne (heq.symm.trans hcur))).resolve_left
    (by rintro ⟨x, c, y, hm, -⟩; cases List.mem_singleton.mp hm)
  -- and the first is next
  obtain ⟨st₃, hstep₃⟩ : ∃ st₃, SystemStep (programVolume 4)
      { st₁ with table := jobTerminate st₁.table } (.timer firstInterrupt) st₃ :=
    (SystemGood.reach hreach₂).timer_returns ha₂ firstInterrupt
  have hreach₃ : (systemMachine (programVolume 4)).Reach st₃ :=
    hreach₂.step (e := .timer firstInterrupt) hstep₃
  have hrun₃ : (systemMachine (programVolume 4)).Run _ [(_, .timer firstInterrupt, st₃)] st₃ :=
    .cons hstep₃ (.nil st₃)
  have hcur₃ : st₃.table.currentJob = a := by
    rcases SystemGood.waits hrun₃ (SystemGood.reach hreach₂) ha₂ (fun x y hm => by
      cases List.mem_singleton.mp hm) with ⟨x, c, y, hm, hcur₃⟩ | ⟨-, hcount⟩
    · cases List.mem_singleton.mp hm
      exact hcur₃
    · have hone : 1 + st₃.table.ahead a = (jobTerminate st₁.table).ahead a + 0 := hcount
      have hzero : 0 + (jobTerminate st₁.table).ahead a = st₁.table.ahead a + 0 := hahead₂
      omega
  obtain ⟨s, order, hinv, -⟩ := SystemGood.reach hreach₁
  obtain ⟨k, -, hk⟩ := hinv.jobs.slots.slots a (hinv.mem_of_inRing ha.1)
  have hpos := hinv.placed.slotAddr_pos k
  exact ⟨st, st₁, _, st₃, a, b, hne, hreach, hstep, hcur, hstep₂, hstep₃, hcur₃,
    active_paging hreach hb.1.1, active_paging hreach₁ hcur₁, active_paging hreach₂ ha₂.1.1,
    active_paging hreach₃ (by omega)⟩

end TinyKernel
