/-
  Files as programs read them.

  A program that is alone reads its files one byte after the other: each `get` on a descriptor answers
  the next byte, until all are read (`process_reads`; from then on it answers what the kernel's stack
  holds).  Nothing else that it does moves the position, and nor does a second descriptor of the same
  file.  By `programs_run_alone` it is the same among others, whatever they read and whenever they
  are scheduled: what a program has opened by name it reads from the first byte to the last
  (`program_reads_file`).

  The position of a file is kept in its inode, and a descriptor is the only way to an inode.  So the
  argument has two parts.  Alone, a process has a list of bytes for each descriptor and a position in
  it (`FatDenotes`), and `get` is the only event that moves the position, by one.  Among others, the
  same holds because the process does the same (`programs_run_alone`): a timer interrupt between two
  `get`s, a `get` of another program on the same file of the disk, or its exit are not steps of this
  process at all.

  `fatfs_get` reads the disk when the byte is not in the 512 bytes that the inode caches.  That this
  answers the byte of the file is `fat_file_reading` of `Fs.FatFs`; here it is used through
  `ReadsFile.get_next`, for files whose chain is proper.  The cluster buffer of such a read is taken
  to be granted by `kalloc`, whose result the source does not look at.
-/
import TinyKernel.Mp.Process

namespace TinyKernel

/-! ## One descriptor of one program -/

/-- What a program was answered for reading from `fd`, each with what the local variable of the
    system call held before. -/
def readsOf (fd : Int) : List (Process × ProcessAction × Process) → List (Byte × Word)
  | [] => []
  | (p, .get _ c, p') :: tr =>
    if p.fd = fd then (c, p'.ctx.x 0) :: readsOf fd tr else readsOf fd tr
  | _ :: tr => readsOf fd tr

section Reads

variable {vol : FatVolume} {inode : FatInode} {bytes : List Byte} {pos : Nat}

/-- No more can have been read than there is. -/
theorem FatDenotes.pos_le (h : FatDenotes vol inode bytes pos) : pos ≤ bytes.length := by
  obtain ⟨entry, clusters, reads, -, hreads, rfl, rfl⟩ := h
  rw [List.length_map, List.length_range]
  exact hreads.bound

/-- **One byte.**  At the end the local variable keeps what it held. -/
theorem FatDenotes.readByte (h : FatDenotes vol inode bytes pos) (scratch : Mem) (c : Byte) :
    ∃ inode', FatDenotes vol inode' bytes (min (pos + 1) bytes.length) ∧
      Returns (fun rounds => readByte rounds vol scratch c (.fat inode))
        (bytes.getD pos c, .fat inode') := by
  obtain ⟨entry, clusters, reads, hchain, hreads, rfl, rfl⟩ := id h
  have hlen : ((List.range entry.filesizeBytes).map
      (chainByte vol.disk vol.handle clusters)).length = entry.filesizeBytes := by
    rw [List.length_map, List.length_range]
  have hle := hreads.bound
  simp only at hle
  rw [hlen]
  rcases Nat.lt_or_eq_of_le hle with hlt | heq
  · obtain ⟨inode', hget, hnext⟩ :=
      hreads.get_next vol.sane vol.pos vol.sectors hchain hlt scratch
    refine ⟨inode', ⟨entry, clusters, _, hchain, hnext, ?_, rfl⟩, 1, fun rounds hrounds => ?_⟩
    · rw [List.length_append, List.length_singleton, Nat.min_eq_left hlt]
    · simp only [TinyKernel.readByte, fsInodeGet, hget rounds hrounds, ok_bind]
      rw [List.getD_eq_getElem?_getD, List.getElem?_map, List.getElem?_range hlt]
      rfl
  · refine ⟨inode, ⟨entry, clusters, reads, hchain, hreads, ?_, rfl⟩, 0, fun rounds _ => ?_⟩
    · rw [Nat.min_eq_right (by omega)]
      exact heq
    · simp only [TinyKernel.readByte, fsInodeGet, hreads.get_end hchain heq rounds scratch, ok_bind]
      rw [List.getD_eq_getElem?_getD, List.getElem?_eq_none (by rw [hlen, heq])]
      rfl

/-- What `get` on the descriptor does. -/
theorem ProcessStep.get_read {fd : Int} {p p' : Process} {scratch : Mem} {c : Byte}
    (hstep : ProcessStep vol p (.get scratch c) p') (hfd : p.fd = fd)
    (hfile : p.files fd = some (.fat inode)) (h : FatDenotes vol inode bytes pos) :
    (∃ inode', p'.files fd = some (.fat inode') ∧
      FatDenotes vol inode' bytes (min (pos + 1) bytes.length)) ∧
    p'.ctx.x 0 = (bytes.getD pos c).setWidth 64 := by
  simp only [ProcessStep, hfd, hfile] at hstep
  obtain ⟨byte, file', hread, rfl⟩ := hstep
  obtain ⟨inode', hnext, hbyte⟩ := h.readByte scratch c
  obtain ⟨rfl, rfl⟩ := Prod.mk.inj (hread.unique hbyte)
  exact ⟨⟨inode', Function.update_self .., hnext⟩, Function.update_self 0 _ p.ctx.x⟩

/-- `get` on another descriptor. -/
theorem ProcessStep.get_other {fd : Int} {p p' : Process} {scratch : Mem} {c : Byte}
    (hstep : ProcessStep vol p (.get scratch c) p') (hfd : p.fd ≠ fd) :
    p'.files fd = p.files fd := by
  simp only [ProcessStep] at hstep
  split at hstep
  · rw [hstep]
    rfl
  · obtain ⟨byte, file', -, rfl⟩ := hstep
    exact Function.update_of_ne (Ne.symm hfd) _ _

/-- `open` takes a descriptor that is free. -/
theorem ProcessStep.open_other {fd g : Int} {p p' : Process} {garbage : Garbage}
    {filename : List Byte} (hstep : ProcessStep vol p (.open garbage filename g) p')
    (hfile : p.files fd ≠ none) : p'.files fd = p.files fd := by
  obtain ⟨hnew, file, -, rfl⟩ := hstep
  show (if g = -1 then p.files else Function.update p.files g (some file)) fd = p.files fd
  rcases hnew with ⟨rfl, -⟩ | ⟨n, -, rfl, hnone, -⟩
  · rw [if_pos rfl]
  · rw [if_neg (by omega), Function.update_of_ne]
    rintro rfl
    exact hfile hnone

/-- After the end all positions are the same. -/
theorem getD_min_length (bytes : List Byte) (pos n : Nat) (c : Byte) :
    bytes.getD (min pos bytes.length + n) c = bytes.getD (pos + n) c := by
  rcases Nat.le_total pos bytes.length with hle | hge
  · rw [Nat.min_eq_left hle]
  · rw [Nat.min_eq_right hge, List.getD_eq_default _ _ (Nat.le_add_right ..),
      List.getD_eq_default _ _ (by omega)]

/-- **A program reads a file.**  The induction is on the run; the position goes with it. -/
theorem process_reads {fd : Int} {p p' : Process} {tr : List (Process × ProcessAction × Process)}
    (hr : (processMachine vol).Run p tr p') : ∀ {inode pos},
    p.files fd = some (.fat inode) → FatDenotes vol inode bytes pos →
    (∃ inode', p'.files fd = some (.fat inode') ∧
      FatDenotes vol inode' bytes (min (pos + (readsOf fd tr).length) bytes.length)) ∧
    ∀ n c v, (readsOf fd tr)[n]? = some (c, v) →
      v = (bytes.getD (pos + n) c).setWidth 64 := by
  induction hr with
  | nil p =>
    intro inode pos hfile hd
    refine ⟨⟨inode, hfile, ?_⟩, fun n c v h => absurd h (by simp [readsOf])⟩
    rw [readsOf, List.length_nil, Nat.add_zero, Nat.min_eq_left hd.pos_le]
    exact hd
  | @cons p u p' a tr hstep hr ih =>
    intro inode pos hfile hd
    -- an action that is no read of this descriptor
    have hskip : u.files fd = p.files fd → readsOf fd ((p, a, u) :: tr) = readsOf fd tr →
        (∃ inode', p'.files fd = some (.fat inode') ∧ FatDenotes vol inode' bytes
          (min (pos + (readsOf fd ((p, a, u) :: tr)).length) bytes.length)) ∧
        ∀ n c v, (readsOf fd ((p, a, u) :: tr))[n]? = some (c, v) →
          v = (bytes.getD (pos + n) c).setWidth 64 := by
      intro hsame hreads
      rw [hreads]
      exact ih (hsame.trans hfile) hd
    cases a with
    | run ctx =>
      obtain rfl := hstep
      exact hskip rfl rfl
    | store va c =>
      obtain ⟨-, rfl⟩ := hstep
      exact hskip rfl rfl
    | «open» garbage filename g =>
      exact hskip (ProcessStep.open_other hstep (by rw [hfile]; exact nofun)) rfl
    | get scratch c =>
      by_cases hfd : p.fd = fd
      · obtain ⟨⟨inode₁, hfile₁, hd₁⟩, hx0⟩ := ProcessStep.get_read hstep hfd hfile hd
        obtain ⟨⟨inode', hfile', hd'⟩, hbytes⟩ := ih hfile₁ hd₁
        have hreads : readsOf fd ((p, .get scratch c, u) :: tr)
            = (c, u.ctx.x 0) :: readsOf fd tr := if_pos hfd
        rw [hreads]
        refine ⟨⟨inode', hfile', ?_⟩, fun n c' v hn => ?_⟩
        · rw [List.length_cons]
          have hpos : min (pos + ((readsOf fd tr).length + 1)) bytes.length
              = min (min (pos + 1) bytes.length + (readsOf fd tr).length) bytes.length := by
            omega
          rw [hpos]
          exact hd'
        · cases n with
          | zero =>
            obtain ⟨rfl, rfl⟩ := Prod.mk.inj (Option.some.inj hn)
            exact hx0
          | succ n =>
            rw [hbytes n c' v hn, getD_min_length, Nat.add_right_comm]
            rfl
      · exact hskip (ProcessStep.get_other hstep hfd) (if_neg hfd)

end Reads

/-! ## What a program can do -/

section Possible

variable {vol : FatVolume} {r : Running} (input : SvcInput) {esr : Word} (left : Leftover)

/-- A system call that returns can be made. -/
theorem svc_possible (hsp : 256 ≤ r.cpu.spEl1) (hcur : r.kernel.table.currentJob ≠ 0)
    (hclass : ReachesSvc esr) {call : Syscall} (hcall : svcCall esr = some call)
    (hpasses : call = .open ∨ call = .spawn → r.Passes input.filename) {answer : Option Word}
    {st : SystemState} {files : Nat → OpenFile}
    (hret : Returns (fun rounds => performSyscall vol input rounds call (r.cpu.x 0)
      (r.kernel, r.files)) (answer, st, files)) (hrefusals : st.refusals = r.kernel.refusals)
    (res : BitVec 32) : ∃ r', RunningStep vol r (.svc input esr res left) r' ∧
      r'.kernel = st ∧ r'.files = files ∧ r'.cpu = resumedCaller r.cpu answer := by
  obtain ⟨enough, hret⟩ := hret
  obtain ⟨stack, hstack⟩ : ∃ stack : Mem, stack = fun a => if a < r.cpu.spEl1 - 256 then left.below a
      else answeredFrame (stpAll r.cpu.x savePairs r.cpu.spEl1 r.stack).2 (r.cpu.spEl1 - 256)
        answer a := ⟨_, rfl⟩
  refine ⟨{ r with kernel := st, files := files, cpu := resumedCaller r.cpu answer, stack := stack },
    ⟨hcur, fun h => ?_, ⟨enough, fun rounds hrounds => ?_⟩, hrefusals, rfl, rfl, rfl⟩, rfl, rfl, rfl⟩
  · rw [hcall] at h
    exact hpasses (h.imp Option.some.inj Option.some.inj)
  · exact (loweraa64Svc_returns hsp).mpr
      ⟨answer, .call hclass hcall (hret rounds hrounds), rfl, hstack⟩

/-- A byte that can be read is the answer of `get`. -/
theorem exceptionsInternalGet_of_read {rounds : Nat} {scratch : Mem} {job : Job}
    {files : Nat → OpenFile} {x0 : Word} {c byte : Byte} {file : OpenFile}
    (hne : jobGetFile job (fdOf x0) ≠ 0)
    (hread : readByte rounds vol scratch c (files (jobGetFile job (fdOf x0))) = .ok (byte, file)) :
    exceptionsInternalGet rounds vol scratch job files x0 c
      = .ok (byte.setWidth 64, Function.update files (jobGetFile job (fdOf x0)) file) := by
  obtain ⟨⟨read, file'⟩, hget, hread⟩ := bind_eq_ok hread
  obtain ⟨rfl, rfl⟩ := Prod.mk.inj (Except.ok.inj hread)
  unfold exceptionsInternalGet
  simp only [if_neg hne, hget, ok_bind]
  rfl

/-- **A read returns**, from an open file that the volume has. -/
theorem get_possible (h : ProcessGood r) (hcur : r.kernel.table.currentJob ≠ 0)
    (hclass : ReachesSvc esr) (hcall : svcCall esr = some .get) {inode : FatInode}
    {bytes : List Byte} {pos : Nat}
    (hfile : (r.process r.kernel.table.currentJob).files (fdOf (r.cpu.x 0)) = some (.fat inode))
    (hd : FatDenotes vol inode bytes pos) (res : BitVec 32) :
    ∃ r', RunningStep vol r (.svc input esr res left) r' ∧ r'.kernel = r.kernel := by
  obtain ⟨boot, s, order, spaces, hinv⟩ := h
  obtain ⟨inode', -, enough, hread⟩ := hd.readByte input.scratch input.c
  have hfile : r.filesOf r.kernel.table.currentJob (fdOf (r.cpu.x 0)) = some (.fat inode) := hfile
  have hne : jobGetFile (r.kernel.table.jobs r.kernel.table.currentJob) (fdOf (r.cpu.x 0)) ≠ 0 := by
    intro hzero
    rw [(filesOf_eq_none_iff ..).mpr hzero] at hfile
    cases hfile
  rw [Running.filesOf] at hfile
  simp only [if_neg hne] at hfile
  have hperform : Returns (fun rounds => performSyscall vol input rounds .get (r.cpu.x 0)
      (r.kernel, r.files)) (some ((bytes.getD pos input.c).setWidth 64), r.kernel,
        Function.update r.files (jobGetFile (r.kernel.table.jobs r.kernel.table.currentJob)
          (fdOf (r.cpu.x 0))) (.fat inode')) := by
    refine ⟨enough, fun rounds hrounds => ?_⟩
    have hbyte := hread rounds hrounds
    rw [← Option.some.inj hfile] at hbyte
    show (exceptionsInternalGet .. >>= _) = _
    rw [exceptionsInternalGet_of_read hne hbyte]
    rfl
  obtain ⟨r', hstep, hkernel, -⟩ := svc_possible input left (hinv.stack hcur) hcur hclass hcall
    (fun h => absurd h (by simp)) hperform rfl res
  exact ⟨r', hstep, hkernel⟩

/-- The search for a free slot ends. -/
theorem jobAddFile_possible {job : Job} (h : FilesCounted job) (inode : Nat) :
    ∃ res, Returns (fun rounds => jobAddFile rounds job inode) res := by
  obtain ⟨n, hn, hcount, -, hfree⟩ := h
  by_cases hfull : (jobMaxFiles : Int) ≤ job.openFilesCount
  · exact ⟨(-1, job), 0, fun rounds _ => if_pos hfull⟩
  · obtain ⟨slot, enough, hsearch⟩ :=
      jobAddFileSearch_returns (hfree n (Nat.le_refl _) (by omega))
    refine ⟨(slot, { job with openFiles := Function.update job.openFiles slot inode
                              openFilesCount := job.openFilesCount + 1 }),
      enough, fun rounds hrounds => ?_⟩
    simp only [jobAddFile, if_neg hfull, hsearch rounds hrounds, ok_bind]
    rfl

/-- **An open returns**, when there are an inode and room for its data, and the name fits. -/
theorem open_possible (h : ProcessGood r) (hcur : r.kernel.table.currentJob ≠ 0)
    (hclass : ReachesSvc esr) (hcall : svcCall esr = some .open) (hpasses : r.Passes input.filename)
    {fs : InodeState} (hfs : r.kernel.fs.fatfsOpen = .ok fs) {parts : List Byte × List Byte}
    (hsplit : fatfsSplit (fun i => (input.filename ++ [0]).getD i 0) 0 = .ok parts)
    (res : BitVec 32) : ∃ r', RunningStep vol r (.svc input esr res left) r' ∧
      r'.kernel.table.currentJob = r.kernel.table.currentJob := by
  obtain ⟨boot, s, order, spaces, hinv⟩ := h
  obtain ⟨⟨inode, fatInode, st⟩, hopen⟩ : ∃ opened, r.kernel.fatfsOpen vol.volume input.garbage
      (fun i => (input.filename ++ [0]).getD i 0) = .ok opened := by
    rw [SystemState.fatfsOpen, hfs, ok_bind, hsplit, ok_bind]
    exact ⟨_, rfl⟩
  obtain ⟨-, -, htable⟩ := fatfsOpen_fresh hinv.priv.inv.fs hopen
  have hcounted : FilesCounted (st.table.jobs st.table.currentJob) := by
    rw [htable]
    exact hinv.files.counted _ ⟨hcur, 0, rfl⟩
  obtain ⟨⟨fd, job⟩, enough, hadd⟩ := jobAddFile_possible hcounted inode
  have hperform : Returns (fun rounds => performSyscall vol input rounds .open (r.cpu.x 0)
      (r.kernel, r.files)) (some (BitVec.ofInt 64 fd),
        { st with table := st.table.setJob st.table.currentJob fun _ => job },
        Function.update r.files inode (.fat fatInode)) := by
    refine ⟨enough, fun rounds hrounds => ?_⟩
    show (r.kernel.fatfsOpen .. >>= _) = _
    rw [hopen, ok_bind]
    simp only [hadd rounds hrounds, ok_bind]
    rfl
  have hrefusals : st.refusals = r.kernel.refusals := by
    obtain ⟨_, _, _, _, _, _, _, rfl⟩ := SystemState.fatfsOpen_ok hopen
    rfl
  obtain ⟨r', hstep, hkernel, -⟩ := svc_possible input left (hinv.stack hcur) hcur hclass hcall
    (fun _ => hpasses) hperform hrefusals res
  refine ⟨r', hstep, ?_⟩
  rw [hkernel, ← htable]
  rfl

end Possible

/-! ## Among others -/

section Runs

variable {vol : FatVolume} {name ext : List Byte} {i : Nat} {clusters : List Nat}

/-- The file that a name opens, from its first byte on. -/
theorem openedFile_eq (garbage : Garbage) {filename : List Byte}
    (hname : filename = name ++ 0x2e :: ext) (hnull : 0 ∉ filename) (h83 : EightThree name ext)
    (hfirst : FirstNamed vol.handle name ext i)
    (hchain : FileChain vol.handle (vol.handle.entryAt i) clusters) :
    ∃ inode, openedFile vol garbage filename = .ok (.fat inode) ∧
      FatDenotes vol inode ((List.range (vol.handle.entryAt i).filesizeBytes).map
        (chainByte vol.disk vol.handle clusters)) 0 := by
  subst hname
  have hstring : CStringAt (fun i => (name ++ 0x2e :: ext ++ [0]).getD i 0) 0
      (name ++ 0x2e :: ext) := by
    refine ⟨hnull, fun k hk => ?_⟩
    rw [Nat.zero_add]
    rcases Nat.lt_or_eq_of_le hk with hlt | heq
    · exact List.getD_append _ _ _ _ hlt
    · rw [heq, List.getD_append_right _ _ _ _ (Nat.le_refl _), Nat.sub_self,
        List.getD_eq_default _ _ (Nat.le_refl _)]
      rfl
  have hsplit := fatfsSplit_eq h83.dot hstring
  rw [if_pos ⟨by have := h83.name_le; omega, by have := h83.ext_le; omega⟩] at hsplit
  have hfound : fatGetEntryByFile vol.handle garbage.stackName garbage.stackExt name ext = some i :=
    (fatGetEntryByFile_eq_some (fun hm => hnull (List.mem_append_left _ hm))
      (fun hm => hnull (List.mem_append_right _ (List.mem_cons_of_mem _ hm)))
      h83.name_le h83.ext_le _ _ i).mpr hfirst
  refine ⟨fatfsInode (some (vol.handle.entryAt i)) garbage.inode, ?_, vol.handle.entryAt i, clusters,
    [], hchain, ReadsFile.opened .., rfl, rfl⟩
  simp only [openedFile, hsplit, ok_bind, hfound, Option.map_some]
  rfl

/-- **Programs read their files.**  A program opens a file by name.  As long as it is in the ring,
    its reads answer the bytes that the volume has for the file, from the first one on, whatever
    other programs run, open and read in between; behind the end they answer the local variable of
    the system call.  And whenever it runs, the next read returns.  Here too the clusters' buffer is
    granted by the heap, and no timer interrupt comes during the wait for the disk. -/
theorem program_reads_file {r₀ r r' : Running} {tr : List (Running × RunningEvent × Running)}
    {input : SvcInput} {esr : Word} {res : BitVec 32} {left : Leftover}
    (hreach : (runningMachine vol).Reach r₀)
    (hopen : RunningStep vol r₀ (.svc input esr res left) r) (hcall : svcCall esr = some .open)
    (hname : input.filename = name ++ 0x2e :: ext) (h83 : EightThree name ext)
    (hfirst : FirstNamed vol.handle name ext i)
    (hchain : FileChain vol.handle (vol.handle.entryAt i) clusters)
    (hfd : 0 ≤ fdOf (r.cpu.x 0)) (hr : (runningMachine vol).Run r tr r')
    (hq : ∀ a e b, (a, e, b) ∈ tr →
      a.kernel.InRing r₀.kernel.table.currentJob ∧ b.kernel.InRing r₀.kernel.table.currentJob) :
    (∀ n c v, (readsOf (fdOf (r.cpu.x 0))
        (actionsOf r₀.kernel.table.currentJob (programRun tr)))[n]? = some (c, v) →
      v = (if n < (vol.handle.entryAt i).filesizeBytes then chainByte vol.disk vol.handle clusters n
        else c).setWidth 64) ∧
    (r'.kernel.table.currentJob = r₀.kernel.table.currentJob →
      fdOf (r'.cpu.x 0) = fdOf (r.cpu.x 0) → ∀ input esr res left, ReachesSvc esr →
        svcCall esr = some .get → ∃ r'', RunningStep vol r' (.svc input esr res left) r'') := by
  have hstep : (runningMachine vol).step r₀ (.svc input esr res left) r := hopen
  obtain ⟨hgood, hparties⟩ := (ProcessGood.reach hreach).step hopen
  have hnull := (hopen.2.1 (Or.inl hcall)).1
  simp only [processEvent, hcall] at hparties
  obtain ⟨-, ⟨-, file, hfile, hprocess⟩, -⟩ := hparties
  obtain ⟨inode, hopened, hdenotes⟩ := openedFile_eq input.garbage hname hnull h83 hfirst hchain
  obtain rfl := Except.ok.inj (hopened.symm.trans hfile)
  have hfiles : (r.process r₀.kernel.table.currentJob).files (fdOf (r.cpu.x 0))
      = some (.fat inode) := by
    refine (congrFun (congrArg Process.files hprocess) (fdOf (r.cpu.x 0))).trans ?_
    show (if fdOf (r.cpu.x 0) = -1 then _ else Function.update _ _ _) _ = _
    rw [if_neg (by omega), Function.update_self]
  obtain ⟨⟨inode', hfiles', hdenotes'⟩, hbytes⟩ :=
    process_reads (programs_run_alone (hreach.step hstep) hr hq) hfiles hdenotes
  constructor
  · intro n c v hn
    rw [hbytes n c v hn, Nat.zero_add, List.getD_eq_getElem?_getD, List.getElem?_map]
    by_cases hlt : n < (vol.handle.entryAt i).filesizeBytes
    · rw [if_pos hlt, List.getElem?_range hlt]
      rfl
    · rw [if_neg hlt, List.getElem?_eq_none (by rw [List.length_range]; omega)]
      rfl
  · intro hcur hx0 input esr res left hclass hget
    have hgood' : ProcessGood r' := by
      refine hr.invariant (I := ProcessGood) (Q := fun _ _ _ => True)
        (fun _ _ _ h hstep _ => (h.step hstep).1) hgood fun _ _ _ _ => trivial
    rw [← hcur, ← hx0] at hfiles'
    obtain ⟨r'', hstep', -⟩ := get_possible input left hgood' (by rw [hcur]; exact hopen.1)
      hclass hget hfiles' hdenotes' res
    exact ⟨r'', hstep'⟩

end Runs

/-! ## A program that reads itself -/

section Reader

/-- A program writes a string: nothing changes but memory. -/
theorem running_writes {vol : FatVolume} {r : Running} {va : Nat}
    (hreach : (runningMachine vol).Reach r) (hcur : r.kernel.table.currentJob ≠ 0) :
    ∀ bytes : List Byte,
    (∀ i, i < bytes.length → (r.kernel.userLoad r.kernel.table.currentJob (va + i)).isSome) →
    ∃ r', (runningMachine vol).Reach r' ∧
      (∃ mem, r' = { r with kernel := { r.kernel with mem := mem } }) ∧
      ∀ i, r'.kernel.userLoad r.kernel.table.currentJob (va + i) =
        if i < bytes.length then bytes[i]?
        else r.kernel.userLoad r.kernel.table.currentJob (va + i) := by
  intro bytes
  induction bytes using List.reverseRecOn with
  | nil => exact fun _ => ⟨r, hreach, ⟨r.kernel.mem, rfl⟩, fun i => rfl⟩
  | append_singleton bytes b ih =>
    intro hsome
    rw [List.length_append, List.length_singleton] at hsome
    obtain ⟨r₁, hreach₁, ⟨mem, hr₁⟩, hload⟩ := ih fun i hi => hsome i (by omega)
    have htable : r₁.kernel.table = r.kernel.table := by
      rw [hr₁]
    rw [← htable] at hcur
    -- the last byte
    obtain ⟨boot, s, order, spaces, hinv⟩ := ProcessGood.reach hreach₁
    obtain ⟨old, hold⟩ := Option.isSome_iff_exists.mp (hsome bytes.length (Nat.lt_succ_self _))
    have hold₁ := hload bytes.length
    rw [if_neg (Nat.lt_irrefl _), hold, ← htable] at hold₁
    obtain ⟨t, htr, hap1, hap2, -⟩ := hinv.priv.access hcur hold₁
    obtain ⟨r₂, hr₂⟩ : ∃ r₂ : Running, r₂ = { r₁ with
      kernel := { r₁.kernel with mem := Function.update r₁.kernel.mem t.pa b } } := ⟨_, rfl⟩
    have hstep : RunningStep vol r₁ (.store (va + bytes.length) b) r₂ := by
      rw [hr₂]
      exact ⟨⟨hcur, t, htr, hap1, hap2, rfl⟩, rfl⟩
    obtain ⟨-, -, ⟨-, hprocess⟩, -⟩ := (ProcessGood.reach hreach₁).step hstep
    refine ⟨r₂, hreach₁.step (e := .store (va + bytes.length) b) hstep,
      ⟨Function.update r₁.kernel.mem t.pa b, ?_⟩, fun i => ?_⟩
    · rw [hr₂, hr₁]
    · have hafter : r₂.kernel.userLoad r.kernel.table.currentJob (va + i)
          = if va + i = va + bytes.length then some b
            else r₁.kernel.userLoad r.kernel.table.currentJob (va + i) := by
        have hmem := congrFun (congrArg Process.memory hprocess) (va + i)
        simp only [Function.update_apply] at hmem
        rw [← htable]
        exact hmem
      rw [hafter, hload, List.length_append, List.length_singleton]
      rcases Nat.lt_trichotomy i bytes.length with hlt | rfl | hgt
      · rw [if_neg (by omega), if_pos hlt, if_pos (by omega), List.getElem?_append_left hlt]
      · rw [if_pos rfl, if_pos (Nat.lt_succ_self _), List.getElem?_concat_length]
      · rw [if_neg (by omega), if_neg (by omega), if_neg (by omega)]

/-- The program at its start, with the address of its memory in x0: it has no files, and the
    kernel can open one. -/
theorem programFat_started : ∃ r : Running, (runningMachine programFat).Reach r ∧
    r.kernel.table.currentJob ≠ 0 ∧ r.cpu.x 0 = 0x80000000 ∧
    (∀ i, i < 4 → (r.kernel.userLoad r.kernel.table.currentJob (jobBaseUser + i)).isSome) ∧
    (∀ fd, r.filesOf r.kernel.table.currentJob fd = none) ∧
    ∃ fs, r.kernel.fs.fatfsOpen = .ok fs := by
  obtain ⟨st₀, st, hboot, hstart, hcur, hload, hroom⟩ := programVolume_page
  have hreach := startedRunning_reach hboot hstart 0x80000000
  obtain ⟨boot, s, order, spaces, hinv⟩ := ProcessGood.reach hreach
  have hpriv : PrivateInv boot s st order spaces := hinv.priv
  have hin : st.InRing st.table.currentJob := ⟨hcur, 0, rfl⟩
  refine ⟨_, hreach, hcur, rfl, fun i hi => ?_, ?_, ?_⟩
  · refine hpriv.page ((hpriv.inv.inRing_iff _).mp hin) ?_ hload
    rw [jobBaseUser]
    omega
  · -- it is the job that was started
    have hnone : ∀ q, ¬ st₀.InRing q := by
      obtain ⟨_, hpriv₀⟩ := PrivateInv.start hboot
      exact fun q hq => absurd (hpriv₀.inv.mem_of_inRing hq) List.not_mem_nil
    have h₀ : (runningMachine programFat).start (bootedRunning st₀) := hboot
    obtain ⟨-, ⟨q, -, hfiles, hlive⟩, -⟩ :=
      (ProcessGood.reach (.start h₀)).step (startedRunning_step hstart 0x80000000)
    obtain rfl : st.table.currentJob = q :=
      ((hlive st.table.currentJob).mp hin).resolve_right (hnone _)
    exact hfiles
  · have hfew : st.fs.opened.length < fsInodeMax := by
      rw [hroom.opened]
      decide
    exact fatfsOpen_returns_iff.mpr ⟨hpriv.inv.fs.hasSlot hfew,
      (hpriv.inv.fs.heap.kalloc_room hroom.free (show sizeofFatInode ≠ 0 by decide) (by decide)).1⟩

/-- What the program passes to `open`: `a.b`, its own name. -/
def ownName : SvcInput := ⟨noGarbage, [0x61, 0x2e, 0x62], fun _ => 0, 0⟩

/-- The C code leaves nothing behind. -/
def noLeftover : Leftover := ⟨fun _ => 0, fun _ => 0, 0, 0⟩

/-- The program writes its own name, and opens itself. -/
theorem programFat_opens : ∃ r₀ r : Running, (runningMachine programFat).Reach r₀ ∧
    RunningStep programFat r₀ (.svc ownName 0x56000014 0 noLeftover) r ∧
    r.kernel.table.currentJob = r₀.kernel.table.currentJob ∧ fdOf (r.cpu.x 0) = 0 := by
  obtain ⟨r, hreach, hcur, hx0, hload, hfiles, fs, hfs⟩ := programFat_started
  obtain ⟨r₀, hreach₀, ⟨mem, hr₀⟩, hbytes⟩ :=
    running_writes hreach hcur [0x61, 0x2e, 0x62, 0] hload
  have hgood := ProcessGood.reach hreach₀
  obtain ⟨boot, s, order, spaces, hinv⟩ := id hgood
  have hcur₀ : r₀.kernel.table.currentJob = r.kernel.table.currentJob := by
    rw [hr₀]
  have hcpu : r₀.cpu = r.cpu := by
    rw [hr₀]
  have hpasses : r₀.Passes ownName.filename := by
    refine ⟨by decide, fun i hi => ?_⟩
    have hi : i < 4 := Nat.lt_succ_of_le hi
    have hbyte := (hbytes i).trans (if_pos hi)
    rw [List.getElem?_eq_getElem hi, ← hcur₀] at hbyte
    obtain ⟨t, htr, -, -, hmem⟩ := hinv.priv.access (by rw [hcur₀]; exact hcur) hbyte
    rw [hcpu, hx0]
    refine (congrArg (Option.map _) htr).trans (congrArg some (hmem.trans ?_))
    exact List.getElem_eq_getD 0
  have hfs₀ : r₀.kernel.fs.fatfsOpen = .ok fs := by
    rw [hr₀]
    exact hfs
  have hsplit : fatfsSplit (fun i => (ownName.filename ++ [0]).getD i 0) 0
      = .ok ([0x61], [0x62]) := by
    rfl
  have hclass : ReachesSvc 0x56000014 := Or.inr (Or.inr (by decide))
  have hcall : svcCall 0x56000014 = some .open := by decide
  obtain ⟨r', hstep, hsame⟩ := open_possible ownName noLeftover hgood (by rw [hcur₀]; exact hcur)
    hclass hcall hpasses hfs₀ hsplit 0
  refine ⟨r₀, r', hreach₀, hstep, hsame, ?_⟩
  -- descriptor 0 was free
  obtain ⟨-, -, ⟨hnew, -⟩, -⟩ := hgood.step hstep
  have hnone : ∀ fd, r₀.filesOf r₀.kernel.table.currentJob fd = none := by
    rw [hr₀]
    exact hfiles
  rcases hnew with ⟨-, hfull⟩ | ⟨n, -, hfd, -, hused⟩
  · exact absurd (hnone 0) (hfull 0 (by decide))
  · rcases Nat.eq_zero_or_pos n with rfl | hpos
    · exact hfd
    · exact absurd (hnone 0) (hused 0 hpos)

/-- The first byte is that of the magic number. -/
theorem program_reads_file_first : ∃ r₀ r r' : Running,
    RunningStep programFat r₀ (.svc ownName 0x56000014 0 noLeftover) r ∧
    RunningStep programFat r (.svc ownName 0x56000015 0 noLeftover) r' ∧
    (r'.process r₀.kernel.table.currentJob).ctx.x 0 = 0x7f := by
  obtain ⟨r₀, r, hreach, hopen, hcur, hfd⟩ := programFat_opens
  have hm : (4 : Byte) ∈ programSizes := by decide
  obtain ⟨i, hfound, hentry⟩ := Option.map_eq_some_iff.mp (programVolume_layout 4 hm).found
  have hfirst : FirstNamed programFat.handle [0x61] [0x62] i :=
    (fatGetEntryByFile_eq_some (by decide) (by decide) (by decide) (by decide) [] [] i).mp hfound
  have hentry : programFat.handle.entryAt i = ⟨2, 188⟩ := hentry
  have hchain : FileChain programFat.handle (programFat.handle.entryAt i) [2] := by
    rw [hentry]
    exact programVolume_chain 4 hm
  have hcall : svcCall 0x56000014 = some .open := by decide
  have hget : svcCall 0x56000015 = some .get := by decide
  have h83 : EightThree [0x61] [0x62] := ⟨by decide, by decide, by decide⟩
  have hclass : ReachesSvc 0x56000015 := Or.inr (Or.inr (by decide))
  -- the read returns ..
  obtain ⟨-, hpossible⟩ := program_reads_file hreach hopen hcall rfl h83 hfirst hchain
    (by rw [hfd]) (.nil r) fun a e b h => absurd h List.not_mem_nil
  obtain ⟨r', hread⟩ := hpossible hcur rfl ownName 0x56000015 0 noLeftover hclass hget
  have hrun : (runningMachine programFat).Run r
      [(r, .svc ownName 0x56000015 0 noLeftover, r')] r' := .cons hread (.nil r')
  have hlive : r.kernel.InRing r₀.kernel.table.currentJob := by
    rw [← hcur]
    exact ⟨by rw [hcur]; exact hopen.1, 0, rfl⟩
  obtain ⟨-, hparties⟩ := ((ProcessGood.reach hreach).step hopen).1.step hread
  simp only [processEvent, hget] at hparties
  -- .. and this is what it answers
  obtain ⟨hbytes, -⟩ := program_reads_file hreach hopen hcall rfl h83 hfirst hchain
    (by rw [hfd]) hrun fun a e b h => by
      obtain ⟨rfl, -, rfl⟩ := by simpa using h
      exact ⟨hlive, (hparties.2.2 _).1.mpr hlive⟩
  refine ⟨r₀, r, r', hopen, hread, (hbytes 0 0 _ ?_).trans ?_⟩
  · have hreads : actionsOf r₀.kernel.table.currentJob
        (programRun [(r, .svc ownName 0x56000015 0 noLeftover, r')])
        = [(r.process r₀.kernel.table.currentJob, .get ownName.scratch 0,
          r'.process r₀.kernel.table.currentJob)] := by
      simp only [programRun, List.map_cons, List.map_nil, processEvent, hget, actionsOf, hcur,
        if_true]
      rfl
    have hself : (r.process r₀.kernel.table.currentJob).fd = fdOf (r.cpu.x 0) := by
      rw [← hcur]
      exact process_fd r
    rw [hreads, readsOf, if_pos hself]
    rfl
  · have hbyte : chainByte programFat.disk programFat.handle [2] 0 = programBytes 4 0 :=
      congrFun (programFile_eq 4 hm) 0
    rw [hentry, if_pos (by decide), hbyte]
    decide +kernel

end Reader

end TinyKernel
