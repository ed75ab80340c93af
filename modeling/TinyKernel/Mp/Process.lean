/-
  Processes: each program runs as if it were alone.

  What a program can see of itself is its `Process`: registers (but x1 and the flags), memory, open
  files.  While it is not current its registers lie in the job structure, its memory in its frames,
  and its files in the inodes that its descriptors stand for.  The invariant (`ProcessInv`) keeps
  them apart from those of others: for memory it is `PrivateInv`, for files `FilesOwned`, by which no
  inode has two descriptors, in the same job or in two.

  Each event of `runningMachine` is then an action of the current program, which is the same as it
  would be for a program alone, and nothing to the others (`ProcessInv.step`); so is each run
  (`programs_run_alone`).

  Two things are left out of a process on purpose, because the kernel does not keep them: x1, whose
  saved word `sched_save_context` never reads, and the flags, since a context switch does not save
  SPSR_EL1 (`Mp.SchedRun`).  So a program is alone up to these: `Ctx.known` forgets them.

  The module follows the argument.  First descriptors: the slots of `open_files` are handed out from
  the bottom, without a hole (`FilesCounted`), so the first free slot is the count, and a descriptor
  stands for an inode exactly if it is below it.  Then registers: a switch saves the context of the
  job that stops and loads that of the job that goes on, and a system call comes back with the
  registers it was made with, but for the answer in x0 (`resumedCaller_known`).  Then one lemma for
  each kind of event.  All of them have the same form: the invariant holds again, for an order and a
  list of spaces that may have grown, and the processes take the step that `processEvent` names.
  `ProcessInv.step` is the case distinction over them, `ProcessGood.run` the induction.

  What is NOT an event bounds the result.  A call whose `kalloc`, frames or tables are refused is no
  step of `runningMachine` (`refusals` stays as it is), interrupts come at EL0 only, and the strings
  that are passed to `open` and `spawn` lie in the program's own memory (`Running.Passes`).
-/
import TinyKernel.Exceptions.OpenCall
import TinyKernel.Mp.FsOpen
import TinyKernel.Mp.Running

namespace TinyKernel

/-! ## Descriptors -/

/-- The descriptors of a job are handed out from 0 on, and none is ever given back. -/
def FilesCounted (j : Job) : Prop :=
  ∃ n : Nat, n ≤ jobMaxFiles ∧ j.openFilesCount = n ∧ (∀ i, i < n → j.openFiles i ≠ 0) ∧
    ∀ i, n ≤ i → i < jobMaxFiles → j.openFiles i = 0

/-- Two structures with the same descriptors. -/
def SameFiles (j j' : Job) : Prop :=
  j'.openFiles = j.openFiles ∧ j'.openFilesCount = j.openFilesCount

/-- The answer of `job_get_file` depends on the two fields only. -/
theorem SameFiles.getFile {j j' : Job} (h : SameFiles j j') (fd : Int) :
    jobGetFile j' fd = jobGetFile j fd := by
  rw [jobGetFile, jobGetFile, h.1, h.2]

/-- So does the discipline of the slots. -/
theorem SameFiles.counted {j j' : Job} (h : SameFiles j j') (hj : FilesCounted j) :
    FilesCounted j' := by
  obtain ⟨n, hn, hcount, hused, hfree⟩ := hj
  rw [FilesCounted, h.1, h.2]
  exact ⟨n, hn, hcount, hused, hfree⟩

/-- A job without open files. -/
theorem filesCounted_none {j : Job} (hcount : j.openFilesCount = 0)
    (hfree : ∀ i, i < jobMaxFiles → j.openFiles i = 0) :
    FilesCounted j ∧ ∀ fd, jobGetFile j fd = 0 := by
  refine ⟨⟨0, Nat.zero_le _, hcount, fun i hi => absurd hi (Nat.not_lt_zero i),
    fun i _ hi => hfree i hi⟩, fun fd => ?_⟩
  rw [jobGetFile, if_pos (by omega)]

/-- A descriptor stands for an inode exactly if it has been handed out. -/
theorem getFile_ne_zero_iff {j : Job} {n : Nat} (hcount : j.openFilesCount = n)
    (hused : ∀ i, i < n → j.openFiles i ≠ 0) (fd : Int) :
    jobGetFile j fd ≠ 0 ↔ 0 ≤ fd ∧ fd < n := by
  rw [jobGetFile, hcount]
  constructor
  · intro h
    split at h
    · exact absurd rfl h
    · omega
  · rintro ⟨hlow, hhigh⟩
    rw [if_neg (by omega)]
    exact hused _ (by omega)

/-- The search for a free slot ends at the next one. -/
theorem jobAddFile_counted {j j' : Job} (h : FilesCounted j) {rounds inode : Nat} {fd : Int}
    (hinode : inode ≠ 0) (hadd : jobAddFile rounds j inode = .ok (fd, j')) :
    FilesCounted j' ∧ ((fd = -1 ∧ j' = j ∧ ∀ i : Nat, i < jobMaxFiles → jobGetFile j i ≠ 0) ∨
      ∃ n : Nat, n < jobMaxFiles ∧ fd = n ∧ jobGetFile j n = 0 ∧
        (∀ i : Nat, i < n → jobGetFile j i ≠ 0) ∧
        ∀ g, jobGetFile j' g = if g = n then inode else jobGetFile j g) := by
  obtain ⟨n, hn, hcount, hused, hfree⟩ := id h
  have hget := getFile_ne_zero_iff hcount hused
  unfold jobAddFile at hadd
  split at hadd
  · rename_i hfull
    obtain ⟨rfl, rfl⟩ := Prod.mk.inj (Except.ok.inj hadd)
    exact ⟨h, Or.inl ⟨rfl, rfl, fun i hi => (hget i).mpr (by omega)⟩⟩
  · rename_i hroom
    obtain ⟨slot, hsearch, hadd⟩ := bind_eq_ok hadd
    obtain ⟨rfl, rfl⟩ := Prod.mk.inj (Except.ok.inj hadd)
    obtain ⟨hzero, hbefore⟩ := jobAddFileSearch_ok hsearch
    -- slot `n` is free and those before it are not
    obtain rfl : slot = n := by
      rcases Nat.lt_trichotomy slot n with hlt | heq | hgt
      · exact absurd hzero (hused slot hlt)
      · exact heq
      · exact absurd (hfree n (Nat.le_refl _) (by omega)) (hbefore n (Nat.zero_le _) hgt)
    have hlt : slot < jobMaxFiles := by omega
    refine ⟨⟨slot + 1, hlt, ?_, ?_, ?_⟩, Or.inr ⟨slot, hlt, rfl, ?_, ?_, ?_⟩⟩
    · show j.openFilesCount + 1 = _
      omega
    · intro i hi
      by_cases heq : i = slot
      · subst heq
        show Function.update j.openFiles i inode i ≠ 0
        rw [Function.update_self]
        exact hinode
      · show Function.update j.openFiles slot inode i ≠ 0
        rw [Function.update_of_ne heq]
        exact hused i (by omega)
    · intro i hi hmax
      show Function.update j.openFiles slot inode i = 0
      rw [Function.update_of_ne (by omega)]
      exact hfree i (by omega) hmax
    · by_contra hne
      have := (hget slot).mp hne
      omega
    · exact fun i hi => (hget i).mpr (by omega)
    · intro g
      show (if g < 0 ∨ j.openFilesCount + 1 ≤ g then 0
        else Function.update j.openFiles slot inode g.toNat) = _
      by_cases heq : g = slot
      · subst heq
        rw [if_neg (by omega), if_pos rfl, Int.toNat_natCast, Function.update_self]
      · rw [if_neg heq, jobGetFile]
        by_cases hout : g < 0 ∨ j.openFilesCount ≤ g
        · rw [if_pos hout, if_pos (by omega)]
        · rw [if_neg hout, if_neg (by omega), Function.update_of_ne (by omega)]

/-- The inodes behind the descriptors of the ring are open, and each has one descriptor. -/
structure FilesOwned (st : SystemState) : Prop where
  counted : ∀ q, st.InRing q → FilesCounted (st.table.jobs q)
  opened : ∀ q, st.InRing q → ∀ fd, jobGetFile (st.table.jobs q) fd ≠ 0 →
    jobGetFile (st.table.jobs q) fd ∈ st.fs.opened.map (·.inode)
  distinct : ∀ q q', st.InRing q → st.InRing q' → ∀ fd fd', jobGetFile (st.table.jobs q) fd ≠ 0 →
    jobGetFile (st.table.jobs q) fd = jobGetFile (st.table.jobs q') fd' → q = q' ∧ fd = fd'

namespace FilesOwned

variable {st st' : SystemState}

/-- Jobs may go, and a job without files may come. -/
theorem keeps (h : FilesOwned st) (hopened : st'.fs.opened = st.fs.opened)
    (hring : ∀ q, st'.InRing q → (st.InRing q ∧ SameFiles (st.table.jobs q) (st'.table.jobs q)) ∨
      (FilesCounted (st'.table.jobs q) ∧ ∀ fd, jobGetFile (st'.table.jobs q) fd = 0)) :
    FilesOwned st' := by
  -- who has a descriptor had it before
  have hold : ∀ q, st'.InRing q → ∀ fd, jobGetFile (st'.table.jobs q) fd ≠ 0 →
      st.InRing q ∧ jobGetFile (st'.table.jobs q) fd = jobGetFile (st.table.jobs q) fd := by
    intro q hq fd hfd
    rcases hring q hq with ⟨hin, hsame⟩ | ⟨-, hnone⟩
    · exact ⟨hin, hsame.getFile fd⟩
    · exact absurd (hnone fd) hfd
  refine ⟨fun q hq => ?_, fun q hq fd hfd => ?_, fun q q' hq hq' fd fd' hfd heq => ?_⟩
  · rcases hring q hq with ⟨hin, hsame⟩ | ⟨hcounted, -⟩
    · exact hsame.counted (h.counted q hin)
    · exact hcounted
  · obtain ⟨hin, hsame⟩ := hold q hq fd hfd
    rw [hsame] at hfd ⊢
    rw [hopened]
    exact h.opened q hin fd hfd
  · obtain ⟨hin, hsame⟩ := hold q hq fd hfd
    obtain ⟨hin', hsame'⟩ := hold q' hq' fd' (heq ▸ hfd)
    rw [hsame] at hfd heq
    exact h.distinct q q' hin hin' fd fd' hfd (heq.trans hsame')

/-- What a new inode changes: one descriptor of the current job stands for it, or none. -/
theorem getFile_added {rounds inode : Nat} {fd : Int} {job : Job} (h : FilesOwned st)
    (hcur : st.InRing st.table.currentJob) (hinode : inode ≠ 0)
    (hadd : jobAddFile rounds (st.table.jobs st.table.currentJob) inode = .ok (fd, job))
    (hjobs : st'.table.jobs = Function.update st.table.jobs st.table.currentJob job) (q : Nat)
    (g : Int) : jobGetFile (st'.table.jobs q) g = jobGetFile (st.table.jobs q) g ∨
      (q = st.table.currentJob ∧ g = fd ∧ jobGetFile (st'.table.jobs q) g = inode ∧
        jobGetFile (st.table.jobs q) g = 0) := by
  by_cases hq : q = st.table.currentJob
  · subst hq
    have hjob : st'.table.jobs st.table.currentJob = job := by
      rw [hjobs, Function.update_self]
    rw [hjob]
    rcases (jobAddFile_counted (h.counted _ hcur) hinode hadd).2 with
      ⟨-, rfl, -⟩ | ⟨n, -, rfl, hfree, -, hget⟩
    · exact Or.inl rfl
    · by_cases hg : g = n
      · subst hg
        exact Or.inr ⟨rfl, rfl, (hget n).trans (if_pos rfl), hfree⟩
      · exact Or.inl ((hget g).trans (if_neg hg))
  · left
    rw [hjobs, Function.update_of_ne hq]

/-- A file is opened. -/
theorem opens {rounds inode : Nat} {fd : Int} {job : Job} (h : FilesOwned st)
    (hcur : st.InRing st.table.currentJob) (hinode : inode ≠ 0)
    (hnew : inode ∉ st.fs.opened.map (·.inode))
    (hadd : jobAddFile rounds (st.table.jobs st.table.currentJob) inode = .ok (fd, job))
    (hjobs : st'.table.jobs = Function.update st.table.jobs st.table.currentJob job)
    (hopened : st'.fs.opened.map (·.inode) = inode :: st.fs.opened.map (·.inode))
    (hring : ∀ q, st'.InRing q ↔ st.InRing q) : FilesOwned st' := by
  have hget := h.getFile_added hcur hinode hadd hjobs
  refine ⟨fun q hq => ?_, fun q hq g hg => ?_, fun q q' hq hq' g g' hg heq => ?_⟩
  · rw [hjobs]
    by_cases heq : q = st.table.currentJob
    · rw [heq, Function.update_self]
      exact (jobAddFile_counted (h.counted _ hcur) hinode hadd).1
    · rw [Function.update_of_ne heq]
      exact h.counted q ((hring q).mp hq)
  · rw [hopened]
    rcases hget q g with hsame | ⟨-, -, hat, -⟩
    · rw [hsame] at hg ⊢
      exact List.mem_cons_of_mem _ (h.opened q ((hring q).mp hq) g hg)
    · rw [hat]
      exact List.mem_cons_self
  · have hq := (hring q).mp hq
    have hq' := (hring q').mp hq'
    rcases hget q g with hsame | ⟨rfl, rfl, hat, -⟩
    · rw [hsame] at hg heq
      rcases hget q' g' with hsame' | ⟨-, -, hat', -⟩
      · exact h.distinct q q' hq hq' g g' hg (heq.trans hsame')
      · exact absurd (h.opened q hq g hg) (by rw [heq, hat']; exact hnew)
    · rw [hat] at heq
      rcases hget q' g' with hsame' | ⟨rfl, rfl, -, -⟩
      · rw [hsame'] at heq
        exact absurd (h.opened q' hq' g' (heq ▸ hinode)) (heq ▸ hnew)
      · exact ⟨rfl, rfl⟩

end FilesOwned

/-- The inode of a file that is opened is new. -/
theorem fatfsOpen_fresh {volume : Volume} {garbage : Garbage} {st st' : SystemState}
    {filename : Mem} {inode : Nat} {fatInode : FatInode} (h : InodeInv st.fs)
    (hopen : st.fatfsOpen volume garbage filename = .ok (inode, fatInode, st')) :
    inode ∉ st.fs.opened.map (·.inode) ∧
      st'.fs.opened.map (·.inode) = inode :: st.fs.opened.map (·.inode) ∧ st'.table = st.table := by
  obtain ⟨fs, name, ext, hfs, -, rfl, -, rfl⟩ := SystemState.fatfsOpen_ok hopen
  obtain ⟨p, q, mem, heap, x, hslab, -, -, -, -, rfl⟩ := fatfsOpen_ok hfs
  have hnew := h.slab.allocated h.placed hslab
  exact ⟨(List.nodup_cons.mp hnew.nodup).1, rfl, rfl⟩

/-! ## Registers -/

/-- What a process knows of its registers: all but x1 and the flags. -/
theorem Ctx.known_congr {c c' : Ctx} (hx : ∀ r, r ≠ 1 → c'.x r = c.x r) (hpc : c'.pc = c.pc)
    (hsp : c'.sp = c.sp) : c'.known = c.known := by
  have hregs : Function.update c'.x 1 0 = Function.update c.x 1 0 := by
    funext r
    by_cases hr : r = 1
    · rw [hr, Function.update_self, Function.update_self]
    · rw [Function.update_of_ne hr, Function.update_of_ne hr, hx r hr]
  rw [Ctx.known, Ctx.known, hregs, hpc, hsp]

/-- A context that was saved to a job is known to it as it was, whatever became of x1. -/
theorem Saved.known {c : Ctx} {j : Job} (h : Saved c j) : j.ctx.known = c.known :=
  Ctx.known_congr h.x h.pc h.sp

/-- The processor that resumes a job has its registers. -/
theorem switchTo_known (k : Kernel) (t : JobTable) :
    (switchTo k t).cpu.ctx.known = (t.jobs t.currentJob).ctx.known :=
  Ctx.known_congr (fun _ hr => if_neg hr) rfl rfl

/-- The answer of a system call, in the registers that are known. -/
theorem resumedCaller_known (c : Cpu) (answer : Option Word) :
    (resumedCaller c answer).ctx.known =
      { c.ctx.known with
        x := Function.update c.ctx.known.x 0 (answer.getD (c.ctx.known.x 0)) } := by
  have hx0 : c.ctx.known.x 0 = c.x 0 :=
    Function.update_of_ne (show (0 : Fin 31) ≠ 1 by decide) 0 c.x
  have hcomm : Function.update (Function.update c.x 0 (answer.getD (c.x 0))) 1 0
      = Function.update (Function.update c.x 1 0) 0 (answer.getD (c.x 0)) :=
    Function.update_comm (by decide) _ _ _
  rw [hx0]
  exact congrArg (fun x => (⟨x, c.pc, c.spEl0⟩ : Ctx)) hcomm

/-! ## What each event does -/

section Events

variable {vol : FatVolume} {boot : Mem} {s : Slab} {r r' : Running} {order : List Nat}
  {spaces : List (PagingManager × List Nat)}

/-- The registers of every job after the timer has saved those of the current one. -/
theorem savedTable_ctx (r : Running) {t : JobTable}
    (hsame : SameJobs (savedTable r.kernel.table r.cpu) t) (q : Nat) :
    (t.jobs q).ctx.known = r.ctxOf q := by
  have hlinks : (t.jobs q).ctx = ((savedTable r.kernel.table r.cpu).jobs q).ctx := by
    rw [hsame q]
    rfl
  rw [hlinks, Running.ctxOf]
  by_cases hq : q = r.kernel.table.currentJob
  · rw [if_pos hq, hq]
    exact (saved_savedTable ..).known
  · rw [if_neg hq, savedTable_jobs_of_ne hq]

/-- **A timer interrupt** changes no register of any job and no descriptor. -/
theorem timer_process (hsp : 256 ≤ r.cpu.spEl1)
    (hhandler : r.handlers 30 = some .internalHandler) (hstep : RunningStep vol r .timer r') :
    SameJobs (savedTable r.kernel.table r.cpu) r'.kernel.table ∧
      (∀ q, r'.ctxOf q = r.ctxOf q) ∧ r'.kernel.fs.opened = r.kernel.fs.opened ∧
      r'.handlers = r.handlers ∧ r'.cpu.spEl1 = r.cpu.spEl1 := by
  obtain ⟨⟨-, ⟨enough, hret⟩⟩, ⟨enough', hret'⟩, -⟩ := hstep
  have hregs := hret' enough' (Nat.le_refl _)
  simp only [loweraa64Fiq, fiqVector_timer (k := r.interrupts) hsp hhandler] at hregs
  cases hforward : jobForward enough' (savedTable r.interrupts.table r.interrupts.cpu) with
  | error e =>
    rw [hforward] at hregs
    cases hregs
  | ok t =>
    rw [hforward] at hregs
    have hswitch : switchTo r.interrupts t = r'.interrupts := Except.ok.inj hregs
    have htable : t = r'.kernel.table := congrArg Kernel.table hswitch
    have hcpu : (switchTo r.interrupts t).cpu = r'.cpu := congrArg Kernel.cpu hswitch
    have hsame : SameJobs (savedTable r.kernel.table r.cpu) r'.kernel.table := by
      have hloop := jobForwardLoop_same _ _ hforward
      rw [← htable]
      exact hloop
    have hctx := savedTable_ctx r hsame
    refine ⟨hsame, fun q => ?_, ?_, (congrArg Kernel.handlers hswitch).symm, ?_⟩
    · refine Eq.trans ?_ (hctx q)
      rw [Running.ctxOf]
      split
      · rename_i hq
        rw [hq, ← hcpu, ← htable]
        exact switchTo_known ..
      · rfl
    · obtain ⟨st, hst, hres⟩ := bind_eq_ok (hret enough (Nat.le_refl _))
      obtain ⟨t', -, hst⟩ := bind_eq_ok hst
      obtain rfl := Except.ok.inj hst
      rw [← Except.ok.inj hres]
      rfl
    · rw [← hcpu]
      rfl

/-- Which job was started, and what became of the table. -/
theorem PrivateInv.Started.table {st st' : SystemState} (h : PrivateInv boot s st order spaces)
    {job : Nat} {space : PagingManager × List Nat} {read : FileRead}
    (hst : PrivateInv.Started boot s st st' order spaces job space read) :
    ∃ mem entry sp name pm,
      st'.table = jobFill { st.table with mem := mem } job entry sp name pm := by
  obtain ⟨job', mem, entry, sp, name, pm, hslab, htable, -⟩ := hst.added.manager
  obtain ⟨hjobs, hnew⟩ := h.inv.jobs.filled h.inv.placed hslab entry sp name pm
  rw [← htable] at hjobs
  -- the slot that was filled is in the ring, and was not before
  have hin : st'.InRing job' :=
    hjobs.reaches h.inv.placed (mem_insertSecond.mpr (Or.inl rfl))
  obtain rfl := (mem_insertSecond.mp (hst.inv.inv.mem_of_inRing hin)).resolve_right hnew
  exact ⟨mem, entry, sp, name, pm, htable⟩

/-- A new job has no open files. -/
theorem jobFill_files (t : JobTable) (job : Nat) (entry sp : Word) (name : Mem) (pm : Nat) :
    FilesCounted ((jobFill t job entry sp name pm).jobs job) ∧
      ∀ fd, jobGetFile ((jobFill t job entry sp name pm).jobs job) fd = 0 := by
  have hjob : (jobFill t job entry sp name pm).jobs job = { (jobLink (jobHead t job entry sp pm)
      job).jobs job with
        name := strncpy name 0 maxNameChar ((jobLink (jobHead t job entry sp pm) job).jobs job).name
        x := fun _ => 0
        openFiles := fun i => if i < jobMaxFiles then 0
          else ((jobLink (jobHead t job entry sp pm) job).jobs job).openFiles i
        openFilesCount := 0 } := Function.update_self ..
  rw [hjob]
  exact filesCounted_none rfl fun i hi => if_pos hi

/-- The structures of the others keep their registers and their descriptors. -/
theorem jobFill_ctx (t : JobTable) {job q : Nat} (entry sp : Word) (name : Mem) (pm : Nat)
    (hq : q ≠ job) : ((jobFill t job entry sp name pm).jobs q).ctx = (t.jobs q).ctx ∧
      SameFiles (t.jobs q) ((jobFill t job entry sp name pm).jobs q) :=
  ⟨jobFill_other (g := Job.ctx) _ _ _ _ _ (fun _ _ => rfl) hq,
    jobFill_other (g := Job.openFiles) _ _ _ _ _ (fun _ _ => rfl) hq,
    jobFill_other (g := Job.openFilesCount) _ _ _ _ _ (fun _ _ => rfl) hq⟩

/-- `job_terminate` changes the state of a job only. -/
theorem jobTerminate_ctx (t : JobTable) (q : Nat) :
    ((jobTerminate t).jobs q).ctx = (t.jobs q).ctx ∧
      SameFiles (t.jobs q) ((jobTerminate t).jobs q) := by
  unfold jobTerminate
  exact ⟨field_setJob_of_eq (g := Job.ctx) rfl, field_setJob_of_eq (g := Job.openFiles) rfl,
    field_setJob_of_eq (g := Job.openFilesCount) rfl⟩

end Events

/-! ## The invariant -/

/-- The invariant of a run. -/
structure ProcessInv (boot : Mem) (s : Slab) (r : Running) (order : List Nat)
    (spaces : List (PagingManager × List Nat)) : Prop where
  priv : PrivateInv boot s r.kernel order spaces
  files : FilesOwned r.kernel
  handler : r.kernel.table.currentJob ≠ 0 → r.handlers 30 = some .internalHandler
  stack : r.kernel.table.currentJob ≠ 0 → 256 ≤ r.cpu.spEl1

namespace ProcessInv

variable {vol : FatVolume} {boot : Mem} {s : Slab} {r r' : Running} {order : List Nat}
  {spaces : List (PagingManager × List Nat)}

/-- Before the first program there is no process. -/
theorem start (h : (runningMachine vol).start r) : ∃ s, ProcessInv r.kernel.mem s r [] [] := by
  obtain ⟨s, hpriv⟩ := PrivateInv.start h
  have hnone : ∀ q, ¬ r.kernel.InRing q := fun q hq =>
    absurd (hpriv.inv.mem_of_inRing hq) List.not_mem_nil
  have hcur : r.kernel.table.currentJob = 0 := by
    by_contra hne
    exact hnone _ ⟨hne, 0, rfl⟩
  exact ⟨s, hpriv, ⟨fun q hq => absurd hq (hnone q), fun q hq => absurd hq (hnone q),
    fun q _ hq => absurd hq (hnone q)⟩, fun hne => absurd hcur hne, fun hne => absurd hcur hne⟩

/-- A program sees the same when its registers, its memory and its files are. -/
theorem process_congr {q : Nat} (hctx : r'.ctxOf q = r.ctxOf q)
    (hload : r'.kernel.userLoad q = r.kernel.userLoad q) (hfiles : r'.filesOf q = r.filesOf q) :
    r'.process q = r.process q := by
  rw [Running.process, Running.process, hctx, hload, hfiles]

/-- Files that are the same and not touched. -/
theorem filesOf_congr {q : Nat}
    (hsame : SameFiles (r.kernel.table.jobs q) (r'.kernel.table.jobs q))
    (hfiles : r'.files = r.files) : r'.filesOf q = r.filesOf q := by
  funext fd
  rw [Running.filesOf, Running.filesOf, hsame.getFile fd, hfiles]

/-- **A program is started.** -/
theorem started (h : ProcessInv boot s r order spaces) {job : Nat}
    {space : PagingManager × List Nat} {read : FileRead}
    (hst : PrivateInv.Started boot s r.kernel r'.kernel order spaces job space read)
    (hopened : r'.kernel.fs.opened = r.kernel.fs.opened) (hfiles : r'.files = r.files)
    (hctx : ∀ q ∈ order, r'.ctxOf q = r.ctxOf q)
    (hhandler : r'.handlers 30 = some .internalHandler) (hsp : 256 ≤ r'.cpu.spEl1) :
    ProcessInv boot s r' (insertSecond job order) (space :: spaces) ∧
      PartiesStep (processMachine vol) r.processes .start r'.processes := by
  obtain ⟨mem, entry, sp, name, pm, htable⟩ := hst.table h.priv
  have hlive : ∀ q, r'.kernel.InRing q ↔ q = job ∨ r.kernel.InRing q := by
    intro q
    rw [hst.inv.inv.inRing_iff, mem_insertSecond, h.priv.inv.inRing_iff]
  have hnew : ¬ r.kernel.InRing job := fun hin => hst.new ((h.priv.inv.inRing_iff job).mp hin)
  have hnone := jobFill_files { r.kernel.table with mem := mem } job entry sp name pm
  rw [← htable] at hnone
  have hother : ∀ q, r.kernel.InRing q →
      SameFiles (r.kernel.table.jobs q) (r'.kernel.table.jobs q) := by
    intro q hq
    rw [htable]
    refine (jobFill_ctx { r.kernel.table with mem := mem } entry sp name pm ?_).2
    rintro rfl
    exact hnew hq
  refine ⟨⟨hst.inv, h.files.keeps hopened fun q hq => ?_, fun _ => hhandler, fun _ => hsp⟩,
    ⟨job, hnew, fun fd => ?_, hlive⟩, fun q hq => ?_⟩
  · rcases (hlive q).mp hq with rfl | hin
    · exact Or.inr hnone
    · exact Or.inl ⟨hin, hother q hin⟩
  · exact if_pos (hnone.2 fd)
  · have hmem := (h.priv.inv.inRing_iff q).mp hq
    exact process_congr (hctx q hmem) (hst.loads q hmem) (filesOf_congr (hother q hq) hfiles)

/-- The first program is the first process. -/
theorem usermode (h : ProcessInv boot s r order spaces) {garbage : Garbage} {filename : Mem}
    {name : Nat} {cpu : Cpu} (hstep : RunningStep vol r (.usermode garbage filename name cpu) r') :
    ∃ order' spaces', ProcessInv boot s r' order' spaces' ∧
      PartiesStep (processMachine vol) r.processes .start r'.processes := by
  obtain ⟨hsys, hfiles, hhandlers, rfl, -, -, hsp⟩ := hstep
  obtain rfl := h.priv.inv.jobs.order_nil h.priv.inv.placed hsys.1
  obtain ⟨job, space, read, hst⟩ := h.priv.usermode hsys
  have hopened : r'.kernel.fs.opened = r.kernel.fs.opened := by
    obtain ⟨-, ⟨enough, hret⟩, hall⟩ := hsys
    obtain ⟨⟨inode, fatInode, st₁⟩, hopen, hres⟩ := bind_eq_ok (hret enough (Nat.le_refl _))
    obtain ⟨⟨job, st₂⟩, hcreate, hres⟩ := bind_eq_ok hres
    rw [← Except.ok.inj hres] at hall ⊢
    obtain ⟨pm, initMem, size, hjob⟩ := fileStarted h.priv.inv.fs hopen hcreate hall
    exact hjob.opened
  exact ⟨_, _, h.started hst hopened hfiles (fun q hq => absurd hq List.not_mem_nil)
    (by rw [hhandlers, Function.update_self]) hsp⟩

/-- A timer interrupt. -/
theorem timer (h : ProcessInv boot s r order spaces) (hstep : RunningStep vol r .timer r') :
    ∃ order' spaces', ProcessInv boot s r' order' spaces' ∧
      PartiesStep (processMachine vol) r.processes .stop r'.processes := by
  have hsys := hstep.1
  have hcur : r.kernel.table.currentJob ≠ 0 := hsys.1.1
  obtain ⟨hsame, hctx, hopened, hhandlers, hsp⟩ := timer_process (h.stack hcur) (h.handler hcur) hstep
  obtain ⟨order', spaces', hpriv, hmem⟩ := h.priv.step (e := .kernel (.timer r.cpu)) ⟨nofun, hsys⟩
  have hfiles : ∀ q, SameFiles (r.kernel.table.jobs q) (r'.kernel.table.jobs q) := by
    intro q
    have hsaved : SameFiles (r.kernel.table.jobs q)
        ((savedTable r.kernel.table r.cpu).jobs q) :=
      ⟨field_setJob_of_eq rfl, field_setJob_of_eq rfl⟩
    rw [hsame q]
    exact hsaved
  refine ⟨order', spaces', ⟨hpriv, h.files.keeps hopened fun q hq => ?_, fun _ => ?_, fun _ => ?_⟩,
    fun q hq => ?_⟩
  · exact Or.inl ⟨(hmem q hq).1, hfiles q⟩
  · exact (congrFun hhandlers 30).trans (h.handler hcur)
  · rw [hsp]
    exact h.stack hcur
  · obtain ⟨hin, hload⟩ := hmem q hq
    exact ⟨hin, process_congr (hctx q) hload (filesOf_congr (hfiles q) hstep.2.2)⟩

end ProcessInv

/-! ## System calls -/

section Calls

variable {vol : FatVolume} {boot : Mem} {s : Slab} {r r' : Running} {order : List Nat}
  {spaces : List (PagingManager × List Nat)} {input : SvcInput} {esr : Word} {res : BitVec 32}
  {left : Leftover}

/-- A system call that returns, as its function. -/
theorem svc_returns (hsp : 256 ≤ r.cpu.spEl1)
    (hstep : RunningStep vol r (.svc input esr res left) r') :
    ∃ enough, ∀ rounds, enough ≤ rounds → ∃ answer,
      CallReturns (performSyscall vol input rounds) esr res (r.cpu.x 0) (r.kernel, r.files) answer
        (r'.kernel, r'.files) ∧ r'.cpu = resumedCaller r.cpu answer := by
  obtain ⟨-, -, ⟨enough, hret⟩, -⟩ := hstep
  refine ⟨enough, fun rounds hrounds => ?_⟩
  obtain ⟨-, habi⟩ := @svc_abi _ (performSyscall vol input rounds) left esr res r.entered hsp
  exact (habi _ (hret rounds hrounds)).1

/-- The registers of the jobs, when the call has changed none of those in job structures. -/
theorem svc_ctx {answer : Option Word} (hcpu : r'.cpu = resumedCaller r.cpu answer)
    (hcur : r'.kernel.table.currentJob = r.kernel.table.currentJob)
    (hjobs : ∀ q, q ≠ r.kernel.table.currentJob →
      (r'.kernel.table.jobs q).ctx = (r.kernel.table.jobs q).ctx) (q : Nat) :
    r'.ctxOf q = if q = r.kernel.table.currentJob then
      { r.ctxOf q with x := Function.update (r.ctxOf q).x 0 (answer.getD ((r.ctxOf q).x 0)) }
      else r.ctxOf q := by
  rw [Running.ctxOf, Running.ctxOf, hcur]
  split
  · rw [hcpu]
    exact resumedCaller_known ..
  · rename_i hq
    rw [hjobs q hq]

/-- Without an answer nothing is different. -/
theorem svc_ctx_none (hcpu : r'.cpu = resumedCaller r.cpu none)
    (hcur : r'.kernel.table.currentJob = r.kernel.table.currentJob)
    (hjobs : ∀ q, q ≠ r.kernel.table.currentJob →
      (r'.kernel.table.jobs q).ctx = (r.kernel.table.jobs q).ctx) (q : Nat) :
    r'.ctxOf q = r.ctxOf q := by
  rw [svc_ctx hcpu hcur hjobs q]
  split
  · rw [Option.getD_none, Function.update_eq_self]
  · rfl

namespace ProcessInv

/-- A call that the programs do not see. -/
theorem unseen (h : ProcessInv boot s r order spaces) (hcur0 : r.kernel.table.currentJob ≠ 0)
    (hpriv : ∃ order' spaces', PrivateInv boot s r'.kernel order' spaces' ∧
      MemoriesStep r.kernel.memories .idle r'.kernel.memories)
    (hcur : r'.kernel.table.currentJob = r.kernel.table.currentJob)
    (hjobs : ∀ q, (r'.kernel.table.jobs q).ctx = (r.kernel.table.jobs q).ctx ∧
      SameFiles (r.kernel.table.jobs q) (r'.kernel.table.jobs q))
    (hopened : r'.kernel.fs.opened = r.kernel.fs.opened) (hfiles : r'.files = r.files)
    (hcpu : r'.cpu = resumedCaller r.cpu none) (hhandlers : r'.handlers = r.handlers) :
    ∃ order' spaces', ProcessInv boot s r' order' spaces' ∧
      PartiesStep (processMachine vol) r.processes .idle r'.processes := by
  obtain ⟨order', spaces', hpriv, hmem⟩ := hpriv
  refine ⟨order', spaces', ⟨hpriv, h.files.keeps hopened fun q hq => ?_, fun _ => ?_, fun _ => ?_⟩,
    fun q => ⟨(hmem q).1, fun hq => ?_⟩⟩
  · exact Or.inl ⟨(hmem q).1.mp hq, (hjobs q).2⟩
  · exact (congrFun hhandlers 30).trans (h.handler hcur0)
  · rw [hcpu]
    exact h.stack hcur0
  · exact process_congr (svc_ctx_none hcpu hcur (fun q _ => (hjobs q).1) q) ((hmem q).2 hq)
      (filesOf_congr (hjobs q).2 hfiles)

/-- `job_terminate`, the log, and numbers that are no system call. -/
theorem idle (h : ProcessInv boot s r order spaces)
    (hstep : RunningStep vol r (.svc input esr res left) r')
    (hcall : svcCall esr = none ∨ svcCall esr = some .log ∨ svcCall esr = some .terminate) :
    ∃ order' spaces', ProcessInv boot s r' order' spaces' ∧
      PartiesStep (processMachine vol) r.processes .idle r'.processes := by
  have hcur0 := hstep.1
  obtain ⟨enough, hret⟩ := svc_returns (h.stack hcur0) hstep
  obtain ⟨answer, hreturns, hcpu⟩ := hret enough (Nat.le_refl _)
  have hhandlers := hstep.2.2.2.2.1
  -- the kernel and the files are as they were
  have hsame : answer = none → r'.kernel = r.kernel → r'.files = r.files →
      ∃ order' spaces', ProcessInv boot s r' order' spaces' ∧
        PartiesStep (processMachine vol) r.processes .idle r'.processes := by
    rintro rfl hkernel hfiles
    have hpriv := h.priv
    rw [← hkernel] at hpriv
    refine h.unseen hcur0 ⟨order, spaces, hpriv, ?_⟩ ?_ ?_ ?_ hfiles hcpu hhandlers
    · rw [hkernel]
      exact fun _ => ⟨Iff.rfl, fun _ => rfl⟩
    · rw [hkernel]
    · rw [hkernel]
      exact fun _ => ⟨rfl, rfl, rfl⟩
    · rw [hkernel]
  rcases hcall with hnone | hlog | hterminate
  · obtain ⟨hanswer, hrest⟩ := hreturns.of_none hnone
    obtain ⟨hkernel, hfiles⟩ := Prod.mk.inj hrest
    exact hsame hanswer hkernel hfiles
  · obtain ⟨hanswer, hrest⟩ := Prod.mk.inj (Except.ok.inj (hreturns.of_some hlog))
    obtain ⟨hkernel, hfiles⟩ := Prod.mk.inj hrest
    exact hsame hanswer.symm hkernel.symm hfiles.symm
  · obtain ⟨hanswer, hrest⟩ := Prod.mk.inj (Except.ok.inj (hreturns.of_some hterminate))
    obtain ⟨hkernel, hfiles⟩ := Prod.mk.inj hrest
    rw [← hanswer] at hcpu
    have hterm : UserStep vol.volume r.kernel (.kernel .terminate) r'.kernel :=
      ⟨nofun, hcur0, hkernel.symm⟩
    refine h.unseen hcur0 (h.priv.step hterm) ?_ ?_ ?_ hfiles.symm hcpu hhandlers
    · rw [← hkernel]
      rfl
    · rw [← hkernel]
      exact jobTerminate_ctx r.kernel.table
    · rw [← hkernel]

/-- A spawn adds a process, and changes none of those that are there. -/
theorem spawn (h : ProcessInv boot s r order spaces)
    (hstep : RunningStep vol r (.svc input esr res left) r') (hcall : svcCall esr = some .spawn) :
    ∃ order' spaces', ProcessInv boot s r' order' spaces' ∧
      PartiesStep (processMachine vol) r.processes .start r'.processes := by
  have hcur0 := hstep.1
  obtain ⟨enough, hret⟩ := svc_returns (h.stack hcur0) hstep
  obtain ⟨-, -, -, hrefusals, hhandlers, -⟩ := hstep
  have hspawn : ∀ rounds, enough ≤ rounds →
      exceptionsInternalSpawn vol.volume input.garbage rounds r.kernel input.filename = .ok r'.kernel ∧
        r'.files = r.files ∧ r'.cpu = resumedCaller r.cpu none := by
    intro rounds hrounds
    obtain ⟨answer, hreturns, hcpu⟩ := hret rounds hrounds
    obtain ⟨st, hres, hrest⟩ := bind_eq_ok (hreturns.of_some hcall)
    obtain ⟨hanswer, hrest⟩ := Prod.mk.inj (Except.ok.inj hrest)
    obtain ⟨rfl, hfiles⟩ := Prod.mk.inj hrest
    exact ⟨hres, hfiles.symm, hanswer ▸ hcpu⟩
  obtain ⟨hres, hfiles, hcpu⟩ := hspawn enough (Nat.le_refl _)
  have hsys : SystemStep vol.volume r.kernel (.spawn input.garbage input.filename) r'.kernel :=
    ⟨hcur0, ⟨enough, fun rounds hrounds => (hspawn rounds hrounds).1⟩, hrefusals⟩
  obtain ⟨a, l, rfl, ha⟩ := h.priv.inv.jobs.nonempty hcur0
  obtain ⟨job, space, read, hst⟩ := h.priv.spawn hsys
  obtain ⟨job', pm, initMem, size, hjob⟩ := spawn_started h.priv.inv.fs hres hrefusals
  obtain ⟨mem, entry, sp, name, pm', htable⟩ := hst.table h.priv
  have hcur : r'.kernel.table.currentJob = r.kernel.table.currentJob :=
    hst.inv.inv.jobs.current_eq.trans ha.symm
  refine ⟨_, _, h.started hst hjob.opened hfiles (fun q hq => ?_) ?_ ?_⟩
  · -- the registers of the others are where they were
    have hne : q ≠ job := by
      rintro rfl
      exact hst.new hq
    have hctx := (jobFill_ctx { r.kernel.table with mem := mem } entry sp name pm' hne).1
    rw [Running.ctxOf, Running.ctxOf, hcur, htable, hctx, hcpu]
    split
    · have hsame := resumedCaller_known r.cpu none
      rw [Option.getD_none, Function.update_eq_self] at hsame
      exact hsame
    · rfl
  · exact (congrFun hhandlers 30).trans (h.handler hcur0)
  · rw [hcpu]
    exact h.stack hcur0

end ProcessInv

/-- The current program after a system call with an answer. -/
theorem process_answered {v : Word} (hcpu : r'.cpu = resumedCaller r.cpu (some v))
    (hcur : r'.kernel.table.currentJob = r.kernel.table.currentJob)
    (hjobs : ∀ q, q ≠ r.kernel.table.currentJob →
      (r'.kernel.table.jobs q).ctx = (r.kernel.table.jobs q).ctx)
    (hload : r'.kernel.userLoad r.kernel.table.currentJob
      = r.kernel.userLoad r.kernel.table.currentJob) :
    r'.process r.kernel.table.currentJob =
      { (r.process r.kernel.table.currentJob).answered v with
        files := r'.filesOf r.kernel.table.currentJob } := by
  have hctx := svc_ctx hcpu hcur hjobs r.kernel.table.currentJob
  rw [if_pos rfl, Option.getD_some] at hctx
  rw [Running.process, hctx, hload]
  rfl

/-- The x0 of the current program. -/
theorem process_fd (r : Running) :
    (r.process r.kernel.table.currentJob).fd = fdOf (r.cpu.x 0) := by
  show fdOf ((r.ctxOf r.kernel.table.currentJob).x 0) = _
  rw [Running.ctxOf, if_pos rfl]
  exact congrArg fdOf (Function.update_of_ne (show (0 : Fin 31) ≠ 1 by decide) 0 r.cpu.x)

/-- What `exceptions_internal_get` has done when it returns. -/
theorem exceptionsInternalGet_ok {rounds : Nat} {scratch : Mem} {job : Job}
    {files files' : Nat → OpenFile} {x0 v : Word} {c : Byte}
    (h : exceptionsInternalGet rounds vol scratch job files x0 c = .ok (v, files')) :
    (jobGetFile job (fdOf x0) = 0 ∧ v = -1 ∧ files' = files) ∨
    (jobGetFile job (fdOf x0) ≠ 0 ∧ ∃ byte file',
      readByte rounds vol scratch c (files (jobGetFile job (fdOf x0))) = .ok (byte, file') ∧
      v = byte.setWidth 64 ∧ files' = Function.update files (jobGetFile job (fdOf x0)) file') := by
  unfold exceptionsInternalGet at h
  simp only at h
  split at h
  · rename_i hzero
    obtain ⟨rfl, rfl⟩ := Prod.mk.inj (Except.ok.inj h)
    exact Or.inl ⟨hzero, rfl, rfl⟩
  · rename_i hne
    obtain ⟨⟨read, file⟩, hread, h⟩ := bind_eq_ok h
    obtain ⟨rfl, rfl⟩ := Prod.mk.inj (Except.ok.inj h)
    refine Or.inr ⟨hne, read.getD c, file, ?_, rfl, rfl⟩
    rw [readByte, hread]
    rfl

/-- A byte is determined by the word it is extended to. -/
theorem byte_eq_of_word {b b' : Byte} (h : (b.setWidth 64 : Word) = b'.setWidth 64) : b = b' := by
  have hval := congrArg BitVec.toNat h
  simp only [BitVec.toNat_setWidth] at hval
  have h1 := b.isLt
  have h2 := b'.isLt
  exact BitVec.eq_of_toNat_eq (by omega)

namespace ProcessInv

/-- A `get` is a step of the caller's process: it reads the next byte of the file that the descriptor
    stands for.  No other process has this inode, so no other file moves. -/
theorem get (h : ProcessInv boot s r order spaces)
    (hstep : RunningStep vol r (.svc input esr res left) r') (hcall : svcCall esr = some .get) :
    ∃ order' spaces', ProcessInv boot s r' order' spaces' ∧
      PartiesStep (processMachine vol) r.processes
        (.act r.kernel.table.currentJob (.get input.scratch input.c)) r'.processes := by
  have hcur0 := hstep.1
  have hlive : r.kernel.InRing r.kernel.table.currentJob := ⟨hcur0, 0, rfl⟩
  obtain ⟨enough, hret⟩ := svc_returns (h.stack hcur0) hstep
  have hhandlers := hstep.2.2.2.2.1
  have hget : ∀ rounds, enough ≤ rounds → ∃ v,
      exceptionsInternalGet rounds vol input.scratch (r.kernel.table.jobs r.kernel.table.currentJob)
        r.files (r.cpu.x 0) input.c = .ok (v, r'.files) ∧ r'.kernel = r.kernel ∧
      r'.cpu = resumedCaller r.cpu (some v) := by
    intro rounds hrounds
    obtain ⟨answer, hreturns, hcpu⟩ := hret rounds hrounds
    obtain ⟨⟨v, files⟩, hres, hrest⟩ := bind_eq_ok (hreturns.of_some hcall)
    obtain ⟨rfl, hpair⟩ := Prod.mk.inj (Except.ok.inj hrest)
    obtain ⟨hkernel, rfl⟩ := Prod.mk.inj hpair
    exact ⟨v, hres, hkernel.symm, hcpu⟩
  obtain ⟨v, hres, hkernel, hcpu⟩ := hget enough (Nat.le_refl _)
  have hpriv := h.priv
  have hfiles := h.files
  rw [← hkernel] at hpriv hfiles
  have hinv : ProcessInv boot s r' order spaces := by
    refine ⟨hpriv, hfiles, fun _ => (congrFun hhandlers 30).trans (h.handler hcur0), fun _ => ?_⟩
    rw [hcpu]
    exact h.stack hcur0
  have hanswered := process_answered hcpu (by rw [hkernel]) (fun q _ => by rw [hkernel])
    (by rw [hkernel])
  have hctx := svc_ctx hcpu (by rw [hkernel]) fun q _ => by rw [hkernel]
  have hfd := process_fd r
  -- only the descriptor in x0 stands for the inode
  have hother : ∀ q, r.kernel.InRing q → ∀ fd,
      q ≠ r.kernel.table.currentJob ∨ fd ≠ fdOf (r.cpu.x 0) → r'.filesOf q fd = r.filesOf q fd := by
    intro q hq fd hapart
    rw [Running.filesOf, Running.filesOf, hkernel]
    by_cases hzero : jobGetFile (r.kernel.table.jobs q) fd = 0
    · simp only [hzero, if_true]
    · suffices hsame : r'.files (jobGetFile (r.kernel.table.jobs q) fd)
          = r.files (jobGetFile (r.kernel.table.jobs q) fd) by simp only [hsame]
      rcases exceptionsInternalGet_ok hres with ⟨-, -, hsame⟩ | ⟨-, byte, file', -, -, hsame⟩
      · rw [hsame]
      · rw [hsame]
        refine Function.update_of_ne (fun heq => ?_) _ _
        obtain ⟨rfl, rfl⟩ := h.files.distinct q _ hq hlive fd _ hzero heq
        exact hapart.elim (fun hne => hne rfl) fun hne => hne rfl
  refine ⟨order, spaces, hinv, hlive, ?_, fun q => ⟨by rw [Running.processes, hkernel]; rfl,
    fun hq hne => ?_⟩⟩
  · show ProcessStep vol (r.process _) (.get input.scratch input.c) (r'.process _)
    rw [hanswered, ProcessStep, hfd]
    rcases exceptionsInternalGet_ok hres with ⟨hzero, rfl, hsame⟩ | ⟨hne, byte, file', -, rfl, hsame⟩
    · have hnone : (r.process r.kernel.table.currentJob).files (fdOf (r.cpu.x 0)) = none :=
        if_pos hzero
      rw [hnone]
      refine congrArg (fun files => (⟨_, _, files⟩ : Process)) (funext fun fd => ?_)
      rw [Running.filesOf, hkernel, hsame]
      rfl
    · have hsome : (r.process r.kernel.table.currentJob).files (fdOf (r.cpu.x 0))
          = some (r.files (jobGetFile (r.kernel.table.jobs r.kernel.table.currentJob)
            (fdOf (r.cpu.x 0)))) := if_neg hne
      rw [hsome]
      refine ⟨byte, file', ⟨enough, fun rounds hrounds => ?_⟩, ?_⟩
      · -- every number of rounds gives the byte that is in x0
        obtain ⟨v, hres', -, hcpu'⟩ := hget rounds hrounds
        rcases exceptionsInternalGet_ok hres' with ⟨hzero, -⟩ | ⟨-, byte', file'', hread, rfl, hsame'⟩
        · exact absurd hzero hne
        · have hx0 := congrFun (congrArg Cpu.x (hcpu.symm.trans hcpu')) 0
          simp only [resumedCaller, Function.update_self, Option.getD_some] at hx0
          have hfile := congrFun (hsame.symm.trans hsame')
            (jobGetFile (r.kernel.table.jobs r.kernel.table.currentJob) (fdOf (r.cpu.x 0)))
          rw [Function.update_self, Function.update_self] at hfile
          rw [byte_eq_of_word hx0, hfile]
          exact hread
      · refine congrArg (fun files => (⟨_, _, files⟩ : Process)) (funext fun fd => ?_)
        by_cases hat : fd = fdOf (r.cpu.x 0)
        · rw [hat, Function.update_self, Running.filesOf, hkernel, hsame]
          simp only [if_neg hne, Function.update_self]
        · rw [Function.update_of_ne hat]
          exact hother _ hlive fd (Or.inr hat)
  · have hqctx := hctx q
    rw [if_neg hne] at hqctx
    exact process_congr hqctx (by rw [hkernel]) (funext fun fd => hother q hq fd (Or.inl hne))

end ProcessInv

/-- What `exceptions_internal_open` has done when it returns. -/
theorem performSyscall_open {rounds : Nat} {x0 : Word} {answer : Option Word} {st st' : SystemState}
    {files files' : Nat → OpenFile}
    (h : performSyscall vol input rounds .open x0 (st, files) = .ok (answer, st', files')) :
    exceptionsInternalOpen vol.volume input.garbage rounds st input.filename = .ok st' ∧
    ∃ inode fatInode st₁ fd job,
      st.fatfsOpen vol.volume input.garbage (fun i => (input.filename ++ [0]).getD i 0)
        = .ok (inode, fatInode, st₁) ∧
      jobAddFile rounds (st₁.table.jobs st₁.table.currentJob) inode = .ok (fd, job) ∧
      answer = some (BitVec.ofInt 64 fd) ∧
      st' = { st₁ with table := st₁.table.setJob st₁.table.currentJob fun _ => job } ∧
      files' = Function.update files inode (.fat fatInode) := by
  obtain ⟨⟨inode, fatInode, st₁⟩, hopen, hrest⟩ := bind_eq_ok h
  obtain ⟨⟨fd, job⟩, hadd, hrest⟩ := bind_eq_ok hrest
  obtain ⟨rfl, hpair⟩ := Prod.mk.inj (Except.ok.inj hrest)
  obtain ⟨rfl, rfl⟩ := Prod.mk.inj hpair
  refine ⟨?_, inode, fatInode, st₁, fd, job, hopen, hadd, rfl, rfl, rfl⟩
  rw [exceptionsInternalOpen, hopen, ok_bind]
  simp only [hadd, ok_bind]
  rfl

/-- The data of the inode, for the name. -/
theorem openedFile_of_open {st st' : SystemState} {inode : Nat} {fatInode : FatInode}
    (hopen : st.fatfsOpen vol.volume input.garbage (fun i => (input.filename ++ [0]).getD i 0)
      = .ok (inode, fatInode, st')) :
    openedFile vol input.garbage input.filename = .ok (.fat fatInode) := by
  obtain ⟨fs, name, ext, -, hsplit, -, rfl, -⟩ := SystemState.fatfsOpen_ok hopen
  rw [openedFile, hsplit]
  rfl

/-- A descriptor comes back as it was given. -/
theorem fdOf_ofInt {fd : Int} (hlow : -1 ≤ fd) (hhigh : fd < jobMaxFiles) :
    fdOf (BitVec.ofInt 64 fd) = fd := by
  rw [jobMaxFiles] at hhigh
  rw [fdOf, BitVec.toNat_ofInt]
  unfold toInt32
  omega

/-- A descriptor without a file is one that `job_get_file` answers with `NULL`. -/
theorem filesOf_eq_none_iff (r : Running) (q : Nat) (fd : Int) :
    r.filesOf q fd = none ↔ jobGetFile (r.kernel.table.jobs q) fd = 0 := by
  rw [Running.filesOf]
  by_cases hzero : jobGetFile (r.kernel.table.jobs q) fd = 0
  · simp [hzero]
  · simp [hzero]

namespace ProcessInv

/-- An `open` is a step of the caller's process too: it finds the file by its name and puts it under
    the descriptor that it answers.  The inode is fresh, so it is no other's. -/
theorem openFile (h : ProcessInv boot s r order spaces)
    (hstep : RunningStep vol r (.svc input esr res left) r') (hcall : svcCall esr = some .open) :
    ∃ order' spaces', ProcessInv boot s r' order' spaces' ∧
      PartiesStep (processMachine vol) r.processes
        (.act r.kernel.table.currentJob (.open input.garbage input.filename (fdOf (r'.cpu.x 0))))
        r'.processes := by
  have hcur0 := hstep.1
  have hlive : r.kernel.InRing r.kernel.table.currentJob := ⟨hcur0, 0, rfl⟩
  obtain ⟨enough, hret⟩ := svc_returns (h.stack hcur0) hstep
  have hhandlers := hstep.2.2.2.2.1
  have hsys : UserStep vol.volume r.kernel (.kernel (.open input.garbage input.filename))
      r'.kernel := by
    refine ⟨nofun, hcur0, enough, fun rounds hrounds => ?_⟩
    obtain ⟨answer, hreturns, -⟩ := hret rounds hrounds
    exact (performSyscall_open (hreturns.of_some hcall)).1
  obtain ⟨order', spaces', hpriv, hmem⟩ := h.priv.step hsys
  obtain ⟨answer, hreturns, hcpu⟩ := hret enough (Nat.le_refl _)
  obtain ⟨-, inode, fatInode, st₁, fd, job, hopen, hadd, rfl, hkernel, hfiles⟩ :=
    performSyscall_open (hreturns.of_some hcall)
  have hne := fatfsOpen_ne_null hopen
  obtain ⟨hnew, hopened, htable⟩ := fatfsOpen_fresh h.priv.inv.fs hopen
  rw [htable] at hadd
  have hcur : r'.kernel.table.currentJob = r.kernel.table.currentJob := by
    rw [hkernel, ← htable]
    rfl
  have hjobs : r'.kernel.table.jobs
      = Function.update r.kernel.table.jobs r.kernel.table.currentJob job := by
    rw [hkernel, ← htable]
    rfl
  have hctxs : ∀ q, q ≠ r.kernel.table.currentJob →
      (r'.kernel.table.jobs q).ctx = (r.kernel.table.jobs q).ctx := by
    intro q hq
    rw [hjobs, Function.update_of_ne hq]
  have hopened' : r'.kernel.fs.opened.map (·.inode)
      = inode :: r.kernel.fs.opened.map (·.inode) := by
    rw [hkernel]
    exact hopened
  have hget : ∀ q g, jobGetFile (r'.kernel.table.jobs q) g = jobGetFile (r.kernel.table.jobs q) g ∨
      (q = r.kernel.table.currentJob ∧ g = fd ∧ jobGetFile (r'.kernel.table.jobs q) g = inode ∧
        jobGetFile (r.kernel.table.jobs q) g = 0) :=
    fun q g => h.files.getFile_added hlive hne hadd hjobs q g
  have hinv : ProcessInv boot s r' order' spaces' := by
    refine ⟨hpriv, h.files.opens hlive hne hnew hadd hjobs hopened' fun q => (hmem q).1,
      fun _ => (congrFun hhandlers 30).trans (h.handler hcur0), fun _ => ?_⟩
    rw [hcpu]
    exact h.stack hcur0
  -- the other descriptors do not stand for the new inode
  have hother : ∀ q, r.kernel.InRing q → ∀ g,
      jobGetFile (r'.kernel.table.jobs q) g = jobGetFile (r.kernel.table.jobs q) g →
      r'.filesOf q g = r.filesOf q g := by
    intro q hq g hsame
    rw [Running.filesOf, Running.filesOf, hsame]
    by_cases hzero : jobGetFile (r.kernel.table.jobs q) g = 0
    · simp only [hzero, if_true]
    · have hfile : r'.files (jobGetFile (r.kernel.table.jobs q) g)
          = r.files (jobGetFile (r.kernel.table.jobs q) g) := by
        rw [hfiles]
        refine Function.update_of_ne (fun heq => ?_) _ _
        exact hnew (heq ▸ h.files.opened q hq g hzero)
      simp only [hfile]
  have hfd : NewDescriptor (r.filesOf r.kernel.table.currentJob) fd := by
    rcases (jobAddFile_counted (h.files.counted _ hlive) hne hadd).2 with
      ⟨rfl, -, hfull⟩ | ⟨n, hn, rfl, hfree, hused, -⟩
    · exact Or.inl ⟨rfl, fun i hi => (filesOf_eq_none_iff ..).not.mpr (hfull i hi)⟩
    · exact Or.inr ⟨n, hn, rfl, (filesOf_eq_none_iff ..).mpr hfree,
        fun i hi => (filesOf_eq_none_iff ..).not.mpr (hused i hi)⟩
  have hrange : -1 ≤ fd ∧ fd < jobMaxFiles := by
    rcases hfd with ⟨rfl, -⟩ | ⟨n, hn, rfl, -⟩
    · exact ⟨by decide, by decide⟩
    · omega
  have hx0 : r'.cpu.x 0 = BitVec.ofInt 64 fd := by
    rw [hcpu]
    exact Function.update_self (f := r.cpu.x) 0 (BitVec.ofInt 64 fd)
  rw [hx0, fdOf_ofInt hrange.1 hrange.2]
  refine ⟨order', spaces', hinv, hlive, ?_, fun q => ⟨(hmem q).1, fun hq hqne => ?_⟩⟩
  · refine ⟨hfd, .fat fatInode, openedFile_of_open hopen, ?_⟩
    show r'.process _ = _
    rw [process_answered hcpu hcur hctxs ((hmem _).2 hlive)]
    refine congrArg (fun files => (⟨_, _, files⟩ : Process)) (funext fun g => ?_)
    by_cases hg : g = fd ∧ fd ≠ -1
    · obtain ⟨rfl, hvalid⟩ := hg
      have hat : jobGetFile (r'.kernel.table.jobs r.kernel.table.currentJob) g = inode := by
        rcases (jobAddFile_counted (h.files.counted _ hlive) hne hadd).2 with
          ⟨hfull, -, -⟩ | ⟨n, -, rfl, -, -, hat⟩
        · exact absurd hfull hvalid
        · rw [hjobs, Function.update_self, hat n, if_pos rfl]
      rw [if_neg hvalid, Function.update_self, Running.filesOf, hat, hfiles]
      simp only [if_neg hne, Function.update_self]
    · have hsame : r'.filesOf r.kernel.table.currentJob g
          = r.filesOf r.kernel.table.currentJob g := by
        refine hother _ hlive g ((hget _ g).resolve_right ?_)
        rintro ⟨-, rfl, hat, -⟩
        -- no inode is behind -1
        have hneg : g = -1 := by
          by_contra hvalid
          exact hg ⟨rfl, hvalid⟩
        rw [hneg] at hat
        exact hne hat.symm
      rw [hsame]
      split
      · rfl
      · rename_i hvalid
        exact (Function.update_of_ne (fun heq => hg ⟨heq, hvalid⟩) _ _).symm
  · have hqctx := svc_ctx hcpu hcur hctxs q
    rw [if_neg hqne] at hqctx
    refine process_congr hqctx ((hmem q).2 hq) (funext fun g => hother q hq g ?_)
    exact (hget q g).resolve_right fun hat => hqne hat.1

/-- The program executes .. -/
theorem execute (h : ProcessInv boot s r order spaces) {x : Regs} {pc sp pstate : Word}
    (hstep : RunningStep vol r (.run x pc sp pstate) r') :
    ∃ order' spaces', ProcessInv boot s r' order' spaces' ∧
      PartiesStep (processMachine vol) r.processes
        (.act r.kernel.table.currentJob (.run r'.cpu.ctx.known)) r'.processes := by
  obtain ⟨hcur0, rfl⟩ := hstep
  refine ⟨order, spaces, ⟨h.priv, h.files, h.handler, h.stack⟩, ⟨hcur0, 0, rfl⟩, ?_,
    fun q => ⟨Iff.rfl, fun _ hne => process_congr ?_ rfl rfl⟩⟩
  · refine congrArg (fun ctx => (⟨ctx, _, _⟩ : Process)) ?_
    rw [Running.ctxOf, if_pos rfl]
  · rw [Running.ctxOf, Running.ctxOf, if_neg hne, if_neg hne]

/-- .. and stores a byte. -/
theorem stores (h : ProcessInv boot s r order spaces) {va : Nat} {c : Byte}
    (hstep : RunningStep vol r (.store va c) r') :
    ∃ order' spaces', ProcessInv boot s r' order' spaces' ∧
      PartiesStep (processMachine vol) r.processes
        (.act r.kernel.table.currentJob (.store va c)) r'.processes := by
  obtain ⟨hstore, hr'⟩ := hstep
  obtain ⟨order', spaces', hpriv, hlive, hsome, hmem⟩ := h.priv.step hstore
  obtain ⟨-, tr, -, -, -, hkernel⟩ := hstore
  have htable : r'.kernel.table = r.kernel.table := by
    rw [hkernel]
  have hopened : r'.kernel.fs.opened = r.kernel.fs.opened := by
    rw [hkernel]
  have hctx : ∀ q, r'.ctxOf q = r.ctxOf q := by
    intro q
    rw [hr', Running.ctxOf, Running.ctxOf, htable]
  have hfiles : ∀ q, r'.filesOf q = r.filesOf q := fun q =>
    filesOf_congr (by rw [htable]; exact ⟨rfl, rfl⟩) (by rw [hr'])
  refine ⟨order', spaces', ⟨hpriv, h.files.keeps hopened fun q hq => ?_, fun hne => ?_, fun hne => ?_⟩,
    hlive, ⟨hsome, ?_⟩, fun q => ⟨(hmem q).1, fun hq hne => ?_⟩⟩
  · exact Or.inl ⟨(hmem q).1.mp hq, by rw [htable]; exact ⟨rfl, rfl⟩⟩
  · rw [htable] at hne
    rw [hr']
    exact h.handler hne
  · rw [htable] at hne
    rw [hr']
    exact h.stack hne
  · show r'.process _ = _
    have hload := (hmem _).2 hlive
    rw [if_pos rfl] at hload
    rw [Running.process, hctx, hfiles]
    exact congrArg (fun memory => (⟨_, memory, _⟩ : Process)) hload
  · have hload := (hmem q).2 hq
    rw [if_neg hne] at hload
    exact process_congr (hctx q) hload (hfiles q)

/-- **One event**, as the programs see it. -/
theorem step (h : ProcessInv boot s r order spaces) {e : RunningEvent}
    (hstep : RunningStep vol r e r') :
    ∃ order' spaces', ProcessInv boot s r' order' spaces' ∧
      PartiesStep (processMachine vol) r.processes (processEvent r e r') r'.processes := by
  cases e with
  | usermode garbage filename name cpu => exact h.usermode hstep
  | run x pc sp pstate => exact h.execute hstep
  | store va c => exact h.stores hstep
  | timer => exact h.timer hstep
  | svc input esr res left =>
    cases hcall : svcCall esr with
    | none =>
      simp only [processEvent, hcall]
      exact h.idle hstep (Or.inl hcall)
    | some call =>
      cases call with
      | terminate =>
        simp only [processEvent, hcall]
        exact h.idle hstep (Or.inr (Or.inr hcall))
      | log =>
        simp only [processEvent, hcall]
        exact h.idle hstep (Or.inr (Or.inl hcall))
      | «open» =>
        simp only [processEvent, hcall]
        exact h.openFile hstep hcall
      | get =>
        simp only [processEvent, hcall]
        exact h.get hstep hcall
      | spawn =>
        simp only [processEvent, hcall]
        exact h.spawn hstep hcall

end ProcessInv

end Calls

/-! ## Runs -/

section Runs

variable {vol : FatVolume} {r r' : Running}

/-- The invariant of a run. -/
def ProcessGood (r : Running) : Prop :=
  ∃ boot s order spaces, ProcessInv boot s r order spaces

/-- One event, from any good state. -/
theorem ProcessGood.step (h : ProcessGood r) {e : RunningEvent} (hstep : RunningStep vol r e r') :
    ProcessGood r' ∧
      PartiesStep (processMachine vol) r.processes (processEvent r e r') r'.processes := by
  obtain ⟨boot, s, order, spaces, hinv⟩ := h
  obtain ⟨order', spaces', hinv', hparties⟩ := hinv.step hstep
  exact ⟨⟨boot, s, order', spaces', hinv'⟩, hparties⟩

/-- Every reachable state is good. -/
theorem ProcessGood.reach (hr : (runningMachine vol).Reach r) : ProcessGood r := by
  refine hr.invariant (I := ProcessGood) (fun r h0 => ?_) fun _ _ _ h hstep => (h.step hstep).1
  obtain ⟨s, hinv⟩ := ProcessInv.start h0
  exact ⟨r.kernel.mem, s, [], [], hinv⟩

/-- A run of the kernel, as the programs see it. -/
def programRun (tr : List (Running × RunningEvent × Running)) :
    List (Parties Nat Process × PartiesEvent Nat ProcessAction × Parties Nat Process) :=
  tr.map fun (a, e, b) => (a.processes, processEvent a e b, b.processes)

/-- The processes of a run.  The induction is on the run; the invariant is `ProcessGood`. -/
theorem ProcessGood.run {tr : List (Running × RunningEvent × Running)} (h : ProcessGood r)
    (hr : (runningMachine vol).Run r tr r') :
    (partiesMachine Nat (processMachine vol)).Run r.processes (programRun tr) r'.processes :=
  hr.simulate (I := ProcessGood) Running.processes processEvent
    (fun _ _ _ h hstep => (h.step hstep).1) (fun _ _ _ h hstep => (h.step hstep).2) h

end Runs

/-- **Programs run alone.**  In every run of the kernel from a reachable state, what a job does
    while it is in the ring is a run of `processMachine`: its registers (but x1 and the flags), its
    memory and its files change by its own actions only, and each of these does what it would do
    without other jobs.  The registers are x0 to x30 and the stack pointer; the interrupts come at
    EL0, and what the calls ask of the allocators is granted. -/
theorem programs_run_alone {vol : FatVolume} {r r' : Running}
    {tr : List (Running × RunningEvent × Running)} (hreach : (runningMachine vol).Reach r)
    (hr : (runningMachine vol).Run r tr r') {q : Nat}
    (hq : ∀ a e b, (a, e, b) ∈ tr → a.kernel.InRing q ∧ b.kernel.InRing q) :
    (processMachine vol).Run (r.process q) (actionsOf q (programRun tr)) (r'.process q) := by
  refine Parties.run_alone ((ProcessGood.reach hreach).run hr) ?_
  intro m e m' hm
  obtain ⟨⟨a, e', b⟩, hin, heq⟩ := List.mem_map.mp hm
  cases heq
  exact hq a e' b hin

/-- The volume with a program on it, as it was loaded. -/
def programFat : FatVolume where
  disk := programDisk 4
  handle := programHandle 4
  sane := fatLoad_sane (programVolume_layout 4 (by decide)).load
  pos := (programVolume_loaded 4 (by decide)).cluster_pos
  sectors := (programVolume_loaded 4 (by decide)).sectors

/-- The kernel when `start` calls `usermode`, with clear registers. -/
def bootedRunning (st : SystemState) : Running where
  kernel := st
  files := fun _ => .fat (fatfsInode none fun _ => 0)
  cpu := ⟨fun _ => 0, 0, 0, 0, 0x41000000, 0, 0⟩
  stack := fun _ => 0
  handlers := fun _ => none
  contextSwitchX30 := 0
  timerReloads := 0

/-- The processor behind `usermode`, with `x0`. -/
def startedCpu (st : SystemState) (x0 : Word) : Cpu :=
  ⟨fun _ => x0, (st.table.jobs st.table.currentJob).pc, 0,
    (st.table.jobs st.table.currentJob).sp, 0x41000000, 0, 0⟩

/-- The program when it starts. -/
def startedRunning (st₀ st : SystemState) (x0 : Word) : Running :=
  { bootedRunning st₀ with
    kernel := st
    cpu := startedCpu st x0
    handlers := Function.update (fun _ => none) 30 (some .internalHandler) }

/-- The program is started, with `x0` in its first register. -/
theorem startedRunning_step {st₀ st : SystemState}
    (hstart : SystemStep (programVolume 4) st₀ (.usermode noGarbage programName 0) st) (x0 : Word) :
    RunningStep programFat (bootedRunning st₀)
      (.usermode noGarbage programName 0 (startedCpu st x0)) (startedRunning st₀ st x0) :=
  ⟨hstart, rfl, rfl, rfl, rfl, rfl, (by decide : 256 ≤ 0x41000000)⟩

/-- So the state is one that a run reaches. -/
theorem startedRunning_reach {st₀ st : SystemState} (hboot : SystemBooted st₀)
    (hstart : SystemStep (programVolume 4) st₀ (.usermode noGarbage programName 0) st) (x0 : Word) :
    (runningMachine programFat).Reach (startedRunning st₀ st x0) := by
  have h₀ : (runningMachine programFat).start (bootedRunning st₀) := hboot
  exact .step (e := .usermode noGarbage programName 0 (startedCpu st x0)) (.start h₀)
    (startedRunning_step hstart x0)

/-- The program stores a byte. -/
theorem programs_run_alone_store : ∃ r r' : Running, r.kernel.table.currentJob ≠ 0 ∧
    (processMachine programFat).Run (r.process r.kernel.table.currentJob)
      [(r.process r.kernel.table.currentJob, .store jobBaseUser 0x2a,
        r'.process r.kernel.table.currentJob)] (r'.process r.kernel.table.currentJob) := by
  obtain ⟨st₀, st, st', hboot, hstart, hcur, hstore⟩ := programVolume_stores 0x2a
  have hreach := startedRunning_reach hboot hstart 0
  obtain ⟨r, hr⟩ : ∃ r, r = startedRunning st₀ st 0 := ⟨_, rfl⟩
  have hkernel : r.kernel = st := by rw [hr]; rfl
  rw [← hr] at hreach
  rw [← hkernel] at hstore hcur
  have hrun : (runningMachine programFat).Run r
      [(r, .store jobBaseUser 0x2a, { r with kernel := st' })] { r with kernel := st' } :=
    .cons ⟨hstore, rfl⟩ (.nil _)
  have htable : st'.table = r.kernel.table := by
    obtain ⟨-, tr, -, -, -, rfl⟩ := hstore
    rfl
  have hin : r.kernel.InRing r.kernel.table.currentJob := ⟨hcur, 0, rfl⟩
  refine ⟨r, { r with kernel := st' }, hcur, ?_⟩
  have halone := programs_run_alone (q := r.kernel.table.currentJob) hreach hrun ?_
  · simp only [programRun, List.map_cons, List.map_nil, processEvent, actionsOf, if_true] at halone
    exact halone
  · intro a e b hm
    obtain ⟨rfl, -, rfl⟩ := by simpa using hm
    refine ⟨hin, ?_⟩
    rw [SystemState.InRing, htable]
    exact hin

end TinyKernel
