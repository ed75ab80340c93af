/-
  Context switches over whole runs.

  `schedMachine` is the processor at EL0 with the scheduler behind it.  The current job runs and
  changes its registers as it likes, makes system calls that create jobs or terminate it, and is
  interrupted by the timer.  Two ghosts remember what ought to come back: `expected q` is the
  context with which job `q` was last interrupted (or created), `lastSpsr q` the processor state
  word of that moment.

  The invariant says that every job but the current one has its expected context in its
  structure, EXCEPT for x1: that register lies in the one word of the frame which the C code does
  not reach.  `SchedInv.timer` is the step lemma: a timer interrupt resumes the first RUNNING job
  behind the current one with its expected context, but with x1 and the processor state of the
  job that was interrupted.  What follows for runs is stated at the end, for the registers and for
  the state word.
-/
import TinyKernel.Lib.Machine
import TinyKernel.Mp.JobRun
import TinyKernel.Mp.Sched

namespace TinyKernel

/-- The registers of a job that a context switch is meant to preserve. -/
structure Ctx where
  x : Regs
  pc : Word
  sp : Word

/-- The context of the processor at EL0. -/
def Cpu.ctx (c : Cpu) : Ctx := ⟨c.x, c.pc, c.spEl0⟩

/-- The kernel and what each job ought to find when it is resumed. -/
structure SchedState where
  kernel : Kernel
  /-- The context with which a job was last interrupted, or created. -/
  expected : Nat → Ctx
  /-- The SPSR_EL1 captured when a job was last interrupted. -/
  lastSpsr : Nat → Option Word

inductive SchedEvent
  /-- The current job executes at EL0. -/
  | run (x : Regs) (pc sp pstate : Word)
  /-- A timer interrupt, taken at EL0. -/
  | timer
  /-- A system call that creates a job. -/
  | create (entry sp : Word) (name : Mem) (paging : Nat)
  /-- A system call that terminates the current job. -/
  | terminate

/-- One event. -/
def SchedStep (st : SchedState) : SchedEvent → SchedState → Prop
  | .run x pc sp pstate, st' => st' = { st with kernel := { st.kernel with
      cpu := { st.kernel.cpu with x := x, pc := pc, spEl0 := sp, pstate := pstate } } }
  | .timer, st' => Returns (fun rounds => loweraa64Fiq rounds 30 st.kernel) st'.kernel ∧
      st'.expected = Function.update st.expected st.kernel.table.currentJob st.kernel.cpu.ctx ∧
      st'.lastSpsr = Function.update st.lastSpsr st.kernel.table.currentJob
        (some st.kernel.cpu.pstate)
  | .create entry sp name paging, st' =>
      (∃ k, k < st.kernel.table.jobSlab.maxStore ∧
        st.kernel.table.jobSlab.used st.kernel.table.mem k = false) ∧
      ∃ p t, jobCreate st.kernel.table entry sp name paging = .ok (p, t) ∧
        st' = ⟨{ st.kernel with table := t },
          Function.update st.expected p ⟨fun _ => 0, entry, sp⟩,
          Function.update st.lastSpsr p none⟩
  | .terminate, st' => st' = { st with kernel := { st.kernel with
      table := jobTerminate st.kernel.table } }

/-- Any ring of jobs that have not run yet, with the scheduler registered; the processor is in
    the current one. -/
structure SchedStart (s : Slab) (st : SchedState) (order : List Nat) : Prop where
  ring : JobInv s st.kernel.table order
  nonempty : order ≠ []
  handler : st.kernel.handlers 30 = some .internalHandler
  stack : 256 ≤ st.kernel.cpu.spEl1
  fresh : ∀ q ∈ order, (st.kernel.table.jobs q).x = (fun _ => 0) ∧
    st.expected q = ⟨fun _ => 0, (st.kernel.table.jobs q).pc, (st.kernel.table.jobs q).sp⟩ ∧
    st.lastSpsr q = none

/-- Jobs under the scheduler, in a table over the slab `s`. -/
def schedMachine (s : Slab) : Machine SchedState SchedEvent where
  start st := ∃ order, SchedStart s st order
  step := SchedStep

/-! ## The invariant -/

/-- The structure of a job holds the context `c`, but for x1. -/
structure Saved (c : Ctx) (j : Job) : Prop where
  pc : j.pc = c.pc
  sp : j.sp = c.sp
  x : ∀ r, r ≠ 1 → j.x (Fin.ofNat 31 (30 - frameIdx r)) = c.x r

/-- Every job that is not running has its expected context in its structure, but for x1. -/
structure SchedInv (s : Slab) (st : SchedState) (order : List Nat) : Prop where
  ring : JobInv s st.kernel.table order
  nonempty : order ≠ []
  handler : st.kernel.handlers 30 = some .internalHandler
  stack : 256 ≤ st.kernel.cpu.spEl1
  saved : ∀ q ∈ order, q ≠ st.kernel.table.currentJob →
    Saved (st.expected q) (st.kernel.table.jobs q)

variable {s : Slab} {st st' : SchedState} {order l : List Nat} {a : Nat}

theorem SchedStart.inv (h : SchedStart s st order) : SchedInv s st order where
  ring := h.ring
  nonempty := h.nonempty
  handler := h.handler
  stack := h.stack
  saved := by
    intro q hq _
    obtain ⟨hx, hexp, -⟩ := h.fresh q hq
    rw [hexp]
    exact ⟨rfl, rfl, fun r _ => by rw [hx]⟩

/-- What the save code stores is the interrupted context, but for x1. -/
theorem saved_savedTable (t : JobTable) (c : Cpu) :
    Saved c.ctx ((savedTable t c).jobs t.currentJob) := by
  have hjob : (savedTable t c).jobs t.currentJob = { t.jobs t.currentJob with
      pc := c.pc, sp := c.spEl0, x := fun i => frameWord c.x (30 - i.val) } :=
    Function.update_self ..
  rw [hjob]
  refine ⟨rfl, rfl, fun r hr => ?_⟩
  have hle := (frameIdx_le_iff r).mpr hr
  have hval : (Fin.ofNat 31 (30 - frameIdx r)).val = 30 - frameIdx r :=
    Nat.mod_eq_of_lt (by omega)
  show frameWord c.x (30 - (Fin.ofNat 31 (30 - frameIdx r)).val) = c.x r
  rw [hval, show 30 - (30 - frameIdx r) = frameIdx r by omega, frameWord_frameIdx]

/-- A context comes back as it was saved, but for x1. -/
theorem resumedRegs_of_saved {c : Ctx} {j : Job} (h : Saved c j) (x : Regs) (r : Fin 31) :
    resumedRegs x j r = if r = 1 then x 1 else c.x r := by
  rw [resumedRegs]
  by_cases hr : r = 1
  · rw [if_pos hr, if_pos hr]
  · rw [if_neg hr, if_neg hr, h.x r hr]

/-- Saving a context does not touch the ring. -/
theorem JobInv.savedTable {t : JobTable} (h : JobInv s t order) (c : Cpu) :
    JobInv s (savedTable t c) order :=
  h.congr rfl (fun _ _ => rfl) rfl (fun _ => next_setJob_of_next rfl) rfl

theorem savedTable_status (t : JobTable) (c : Cpu) (q : Nat) :
    (savedTable t c).status q = t.status q :=
  status_setJob_of_status rfl

theorem savedTable_jobs_of_ne {t : JobTable} {c : Cpu} {q : Nat} (h : q ≠ t.currentJob) :
    (savedTable t c).jobs q = t.jobs q :=
  Function.update_of_ne h _ _

/-- A context kept in a structure does not depend on the links. -/
theorem Saved.sameJobs {c : Ctx} {t t' : JobTable} {q : Nat} (h : Saved c (t.jobs q))
    (hs : SameJobs t t') : Saved c (t'.jobs q) := by
  rw [hs q]
  exact ⟨h.pc, h.sp, h.x⟩

/-- `q` is the first RUNNING job behind the current one. -/
def NextRunning (t : JobTable) (q : Nat) : Prop :=
  ∃ i, t.next^[i + 1] t.currentJob = q ∧ t.status q = .running ∧
    ∀ j, j < i → t.status (t.next^[j + 1] t.currentJob) ≠ .running

theorem NextRunning.unique {t : JobTable} {p q : Nat} (hp : NextRunning t p)
    (hq : NextRunning t q) : p = q := by
  obtain ⟨i, hi, hpi, hbi⟩ := hp
  obtain ⟨j, hj, hqj, hbj⟩ := hq
  rcases Nat.lt_trichotomy i j with hlt | rfl | hgt
  · exact absurd (hi ▸ hpi) (hbj i hlt)
  · exact hi.symm.trans hj
  · exact absurd (hj ▸ hqj) (hbi j hgt)

/-- The job that `job_forward` stops at, found along the links. -/
theorem JobInv.nextRunning {t : JobTable} (h : JobInv s t (a :: l)) {pre post : List Nat}
    {r : Nat} (hsplit : l ++ [a] = pre ++ r :: post) (hpre : ∀ q ∈ pre, t.status q ≠ .running)
    (hr : t.status r = .running) : NextRunning t r := by
  have hget : ∀ i, i < (pre ++ r :: post).length →
      (pre ++ r :: post)[i]? = some (t.next^[i + 1] t.currentJob) := by
    intro i hi
    rw [← hsplit] at hi ⊢
    rw [h.current_eq]
    exact h.linked.getElem?_iterate i hi
  refine ⟨pre.length, ?_, hr, ?_⟩
  · have hmid := hget pre.length (by simp)
    rw [List.getElem?_append_right (Nat.le_refl _), Nat.sub_self, List.getElem?_cons_zero] at hmid
    exact (Option.some.inj hmid).symm
  · intro j hj
    have hjth := hget j (by rw [List.length_append]; omega)
    rw [List.getElem?_append_left hj] at hjth
    exact hpre _ (List.mem_of_getElem? hjth)

/-- The jobs that `job_forward` leaves in the ring were in it before. -/
theorem mem_of_forward {pre post : List Nat} {r q : Nat} {keep : Nat → Bool}
    (hsplit : l ++ [a] = pre ++ r :: post) (hq : q ∈ r :: (post ++ pre.filter keep)) :
    q ∈ a :: l := by
  have hq' : q ∈ pre ++ r :: post := by
    simp only [List.mem_cons, List.mem_append, List.mem_filter] at hq ⊢
    tauto
  rw [← hsplit] at hq'
  exact (List.perm_append_singleton a l).mem_iff.mp hq'

/-- A timer interrupt returns when some job is RUNNING, and has moved the scheduler forward to the
    first one behind the current job. -/
theorem timer_returns {k : Kernel} (hp : s.Placed) (h : JobInv s k.table (a :: l))
    (hsp : 256 ≤ k.cpu.spEl1) (hh : k.handlers 30 = some .internalHandler)
    (hrun : ∃ q ∈ a :: l, k.table.status q = .running) :
    ∃ t pre r post, Returns (fun rounds => fiqVector rounds 30 k) (switchTo k t) ∧
      l ++ [a] = pre ++ r :: post ∧
      (∀ q ∈ pre, k.table.status q ≠ .running) ∧ k.table.status r = .running ∧
      JobInv s t (r :: (post ++ pre.filter fun q => k.table.status q = .sleeping)) ∧
      SameJobs (savedTable k.table k.cpu) t ∧
      ((∀ q ∈ pre, k.table.status q = .sleeping) →
        t = (savedTable k.table k.cpu).setCurrent r) := by
  have hforward := (h.savedTable k.cpu).forward hp
  simp only [savedTable_status] at hforward
  obtain ⟨t, pre, r, post, ⟨enough, hret⟩, hsplit, hpre, hr, hring, hsame, hset, -⟩ := hforward hrun
  refine ⟨t, pre, r, post, ⟨enough, fun rounds hge => ?_⟩, hsplit, hpre, hr, hring, hsame, hset⟩
  have hres : jobForward rounds (TinyKernel.savedTable k.table k.cpu) = .ok t := hret rounds hge
  show fiqVector rounds 30 k = .ok (switchTo k t)
  rw [fiqVector_timer hsp hh, hres]
  rfl

/-- A timer interrupt that returns found a RUNNING job. -/
theorem timer_running {k k' : Kernel} (hp : s.Placed) (h : JobInv s k.table (a :: l))
    (hsp : 256 ≤ k.cpu.spEl1) (hh : k.handlers 30 = some .internalHandler)
    (hret : Returns (fun rounds => fiqVector rounds 30 k) k') :
    ∃ q ∈ a :: l, k.table.status q = .running := by
  obtain ⟨enough, hres⟩ := hret
  have hfirst := hres enough (Nat.le_refl _)
  simp only [fiqVector_timer hsp hh] at hfirst
  cases hf : jobForward enough (TinyKernel.savedTable k.table k.cpu) with
  | ok t =>
    have hrun := (h.savedTable k.cpu).forward_running hp hf
    simp only [savedTable_status] at hrun
    exact hrun
  | error e =>
    rw [hf] at hfirst
    exact absurd hfirst (by simp [Except.map])

/-- **A timer interrupt** resumes the first RUNNING job behind the current one: with its own
    program counter, stack pointer and registers, but with x1 and the processor state of the job
    that was interrupted. -/
theorem SchedInv.timer (hp : s.Placed) (h : SchedInv s st (a :: l))
    (hstep : SchedStep st .timer st') :
    ∃ r order', NextRunning st.kernel.table r ∧ SchedInv s st' order' ∧
      st'.kernel.table.currentJob = r ∧
      st'.kernel.cpu.pc = (st'.expected r).pc ∧ st'.kernel.cpu.spEl0 = (st'.expected r).sp ∧
      (∀ i, st'.kernel.cpu.x i = if i = 1 then st.kernel.cpu.x 1 else (st'.expected r).x i) ∧
      st'.kernel.cpu.spsr = st.kernel.cpu.pstate := by
  obtain ⟨hret, hexp, -⟩ := hstep
  obtain ⟨t, pre, r, post, hret', hsplit, hpre, hr, hring, hsame, -⟩ := timer_returns hp h.ring
    h.stack h.handler (timer_running hp h.ring h.stack h.handler hret)
  have hk : st'.kernel = switchTo st.kernel t := hret.unique hret'
  have hcurt : t.currentJob = r := hring.current_eq
  -- where every job's expected context is now
  have hall : ∀ q ∈ a :: l, Saved (st'.expected q) (t.jobs q) := by
    intro q hq
    refine Saved.sameJobs ?_ hsame
    rw [hexp]
    by_cases hqa : q = st.kernel.table.currentJob
    · rw [hqa, Function.update_self]
      exact saved_savedTable ..
    · rw [Function.update_of_ne hqa, savedTable_jobs_of_ne hqa]
      exact h.saved q hq hqa
  have hmem : ∀ q ∈ r :: (post ++ pre.filter fun q => st.kernel.table.status q = .sleeping),
      q ∈ a :: l := fun q hq => mem_of_forward hsplit hq
  have hsr := hall r (hmem r List.mem_cons_self)
  refine ⟨r, r :: (post ++ pre.filter fun q => st.kernel.table.status q = .sleeping),
    h.ring.nextRunning hsplit hpre hr, ⟨?_, List.cons_ne_nil _ _, ?_, ?_, ?_⟩, ?_, ?_, ?_, ?_, ?_⟩
  · rw [hk]; exact hring
  · rw [hk]; exact h.handler
  · rw [hk]; exact h.stack
  · intro q hq _
    rw [hk]
    exact hall q (hmem q hq)
  · rw [hk]; exact hcurt
  · rw [hk, ← hsr.pc, ← hcurt]; rfl
  · rw [hk, ← hsr.sp, ← hcurt]; rfl
  · intro i
    rw [← resumedRegs_of_saved hsr, hk, ← hcurt]
    rfl
  · rw [hk]; rfl

/-- A system call that creates a job. -/
theorem SchedInv.create (hp : s.Placed) (h : SchedInv s st order) {entry sp : Word} {name : Mem}
    {paging : Nat} (hstep : SchedStep st (.create entry sp name paging) st') :
    ∃ order', SchedInv s st' order' := by
  obtain ⟨hfree, p, t, hcall, rfl⟩ := hstep
  rw [h.ring.slab] at hfree
  obtain ⟨p', t₁, hres, hring, -, -⟩ := h.ring.create hp hfree entry sp name paging
  obtain ⟨rfl, rfl⟩ := Prod.mk.inj (Except.ok.inj (hres.symm.trans hcall))
  obtain ⟨mem, -, rfl⟩ := jobCreate_ok hcall
  obtain ⟨a, l, rfl⟩ := List.exists_cons_of_ne_nil h.nonempty
  have hcur := h.ring.current_eq
  have hcur' : (jobFill { st.kernel.table with mem := mem } p' entry sp name paging).currentJob
      = a := hring.current_eq
  refine ⟨_, hring, List.cons_ne_nil _ _, h.handler, h.stack, ?_⟩
  intro q hq hqc
  simp only at hqc ⊢
  rw [hcur'] at hqc
  by_cases hqp : q = p'
  · obtain ⟨hx, hpc, hsp⟩ :=
      jobFill_self (t := { st.kernel.table with mem := mem }) p' entry sp name paging
    rw [hqp, Function.update_self]
    exact ⟨hpc, hsp, fun r _ => by rw [hx]⟩
  · have hqo : q ∈ a :: l := (mem_insertSecond.mp hq).resolve_left hqp
    have hold := h.saved q hqo (by rw [hcur]; exact hqc)
    rw [Function.update_of_ne hqp]
    refine ⟨?_, ?_, fun r hr => ?_⟩
    · rw [jobFill_other (g := Job.pc) p' entry sp name paging (fun _ _ => rfl) hqp]
      exact hold.pc
    · rw [jobFill_other (g := Job.sp) p' entry sp name paging (fun _ _ => rfl) hqp]
      exact hold.sp
    · rw [jobFill_other (g := Job.x) p' entry sp name paging (fun _ _ => rfl) hqp]
      exact hold.x r hr

/-- A system call that terminates the current job. -/
theorem SchedInv.terminate (h : SchedInv s st order) (hstep : SchedStep st .terminate st') :
    SchedInv s st' order := by
  obtain rfl := hstep
  have hring : JobInv s (jobTerminate st.kernel.table) order :=
    h.ring.congr rfl (fun _ _ => rfl) rfl (fun _ => next_setJob_of_next rfl) rfl
  refine ⟨hring, h.nonempty, h.handler, h.stack, ?_⟩
  · intro q hq hqc
    have hother : (jobTerminate st.kernel.table).jobs q = st.kernel.table.jobs q :=
      Function.update_of_ne hqc _ _
    simp only [hother]
    exact h.saved q hq hqc

/-- In every reachable state the jobs' contexts are where they should be, but for x1. -/
theorem schedMachine_inv (hp : s.Placed) (hr : (schedMachine s).Reach st) :
    ∃ order, SchedInv s st order := by
  refine hr.invariant (I := fun st => ∃ order, SchedInv s st order) ?_ ?_
  · rintro st ⟨order, h0⟩
    exact ⟨order, h0.inv⟩
  · rintro st e st' ⟨order, h⟩ hstep
    cases e with
    | run x pc sp pstate =>
      obtain rfl := hstep
      exact ⟨order, h.ring, h.nonempty, h.handler, h.stack, h.saved⟩
    | timer =>
      obtain ⟨a, l, rfl⟩ := List.exists_cons_of_ne_nil h.nonempty
      obtain ⟨r, order', -, h', -⟩ := h.timer hp hstep
      exact ⟨order', h'⟩
    | create entry sp name paging => exact h.create hp hstep
    | terminate => exact ⟨order, h.terminate hstep⟩

/-! ## Two jobs -/

/-- The state after a timer interrupt, when the next job of the ring is RUNNING. -/
def switchNext (st : SchedState) : SchedState where
  kernel := switchTo st.kernel ((savedTable st.kernel.table st.kernel.cpu).setCurrent
    (st.kernel.table.next st.kernel.table.currentJob))
  expected := Function.update st.expected st.kernel.table.currentJob st.kernel.cpu.ctx
  lastSpsr := Function.update st.lastSpsr st.kernel.table.currentJob (some st.kernel.cpu.pstate)

theorem step_switchNext (hsp : 256 ≤ st.kernel.cpu.spEl1)
    (hh : st.kernel.handlers 30 = some .internalHandler)
    (hrun : st.kernel.table.status (st.kernel.table.next st.kernel.table.currentJob) = .running) :
    SchedStep st .timer (switchNext st) := by
  refine ⟨⟨1, fun rounds hge => ?_⟩, rfl, rfl⟩
  obtain ⟨n, rfl⟩ := Nat.exists_eq_add_of_le' hge
  have hnext : (savedTable st.kernel.table st.kernel.cpu).next st.kernel.table.currentJob
      = st.kernel.table.next st.kernel.table.currentJob := next_setJob_of_next rfl
  have hforward := jobForward_of_running (t := savedTable st.kernel.table st.kernel.cpu) n
    (by rw [savedTable_status]; exact hnext ▸ hrun)
  show fiqVector (n + 1) 30 st.kernel = _
  rw [fiqVector_timer hsp hh, hforward]
  show Except.ok (switchTo st.kernel ((savedTable st.kernel.table st.kernel.cpu).setCurrent
    ((savedTable st.kernel.table st.kernel.cpu).next st.kernel.table.currentJob))) = _
  rw [hnext]
  rfl

/-- A job table with room for two jobs. -/
def twoJobSlab : Slab := ⟨0x41182000, 2, 392, 392⟩

/-- Two RUNNING jobs that have not run yet, the first one current. -/
def twoJobTable : JobTable where
  jobSlab := twoJobSlab
  mem := fun _ => 3
  jobs := fun p =>
    { name := fun _ => 0
      status := .running
      x := fun _ => 0
      pc := if p = 0x41182188 then 0x80000000 else 0x80000100
      sp := 0x80002000
      paging := 0x41000000
      openFiles := fun _ => 0
      openFilesCount := 0
      next := if p = 0x41182188 then 0x41182310 else 0x41182188 }
  currentJob := 0x41182188
  log := [.created 0x41182310, .created 0x41182188]

/-- The first of two jobs at EL0, with the registers `x`. -/
def twoJobState (x : Regs) : SchedState where
  kernel :=
    { cpu := ⟨x, 0x80000000, 0, 0x80002000, 0x41001000, 0, 0⟩
      stack := fun _ => 0
      table := twoJobTable
      pagingManager := 0x41000000
      contextSwitchX30 := 0
      handlers := fun i => if i = 30 then some .internalHandler else none
      timerReloads := 0 }
  expected := fun q => ⟨fun _ => 0, (twoJobTable.jobs q).pc, (twoJobTable.jobs q).sp⟩
  lastSpsr := fun _ => none

theorem twoJobSlab_placed : twoJobSlab.Placed := by
  constructor <;> decide

theorem twoJobTable_inv : JobInv twoJobSlab twoJobTable [0x41182188, 0x41182310] where
  slab := rfl
  slots := by
    refine ⟨by decide, ?_, ?_⟩
    · intro p hm
      simp only [List.mem_cons, List.not_mem_nil, or_false] at hm
      rcases hm with rfl | rfl
      · exact ⟨0, by decide, rfl⟩
      · exact ⟨1, by decide, rfl⟩
    · intro k hk
      have hk' : k < 2 := hk
      obtain rfl | rfl : k = 0 ∨ k = 1 := by omega
      · decide
      · decide
  ring := ⟨rfl, rfl, rfl⟩
  history := List.Perm.swap _ _ _
  terminated := by
    intro p st pg hm
    simp [twoJobTable] at hm

theorem twoJobState_start (x : Regs) :
    SchedStart twoJobSlab (twoJobState x) [0x41182188, 0x41182310] where
  ring := twoJobTable_inv
  nonempty := List.cons_ne_nil _ _
  handler := rfl
  stack := by show 256 ≤ 0x41001000; decide
  fresh := fun _ _ => ⟨rfl, rfl, rfl⟩

/-- The first timer interrupt of two jobs. -/
theorem twoJobState_run (x : Regs) : (schedMachine twoJobSlab).Run (twoJobState x)
    [(twoJobState x, .timer, switchNext (twoJobState x))] (switchNext (twoJobState x)) :=
  .cons (step_switchNext (twoJobState_start x).stack rfl rfl) (.nil _)

/-- The second of two jobs is the next to run. -/
theorem twoJobState_next (x : Regs) {q : Nat} (h : NextRunning (twoJobState x).kernel.table q) :
    q = 0x41182310 :=
  h.unique ⟨0, rfl, rfl, fun _ hj => absurd hj (Nat.not_lt_zero _)⟩

/-! ## The registers -/

/-- A timer interrupt resumes a job with the context it was last interrupted with, or created
    with: x0 .. x30, the program counter and the stack pointer. -/
def ResumesOwnContext (_ : SchedState) (e : SchedEvent) (st' : SchedState) : Prop :=
  e = .timer → st'.kernel.cpu.ctx = st'.expected st'.kernel.table.currentJob

/-- The condition on the state before a timer interrupt: unless the current job is the next to run,
    its x1 is the one that the next RUNNING job is waiting for. -/
def X1Agrees (st : SchedState) (e : SchedEvent) (_ : SchedState) : Prop :=
  e = .timer → ∀ q, NextRunning st.kernel.table q → q ≠ st.kernel.table.currentJob →
    st.kernel.cpu.x 1 = (st.expected q).x 1

/-- One timer interrupt restores the whole context exactly when x1 happens to agree. -/
theorem SchedInv.resumes_iff (hp : s.Placed) (h : SchedInv s st (a :: l))
    (hstep : SchedStep st .timer st') :
    ResumesOwnContext st .timer st' ↔ X1Agrees st .timer st' := by
  obtain ⟨r, -, hnext, -, hcur, hpc, hsp, hx, -⟩ := h.timer hp hstep
  obtain ⟨-, hexp, -⟩ := hstep
  -- for the interrupted job itself there is nothing to agree
  have hself : r = st.kernel.table.currentJob →
      (st'.expected r).x 1 = st.kernel.cpu.x 1 := by
    rintro hrc
    rw [hexp, hrc, Function.update_self]
    rfl
  have hother : r ≠ st.kernel.table.currentJob → st'.expected r = st.expected r := by
    intro hrc
    rw [hexp, Function.update_of_ne hrc]
  constructor
  · intro hres _ q hq hqc
    obtain rfl := hq.unique hnext
    have hctx := hres rfl
    rw [hcur] at hctx
    have hx1 := congrArg (fun c => c.x 1) hctx
    simp only [Cpu.ctx, hx, if_true, hother hqc] at hx1
    exact hx1
  · intro hagree _
    rw [hcur]
    have hregs : st'.kernel.cpu.x = (st'.expected r).x := by
      funext i
      rw [hx i]
      by_cases hi : i = 1
      · rw [if_pos hi, hi]
        by_cases hrc : r = st.kernel.table.currentJob
        · exact (hself hrc).symm
        · rw [hother hrc]
          exact hagree rfl r hnext hrc
      · rw [if_neg hi]
    rw [Cpu.ctx, hregs, hpc, hsp]

/-- **Context switches and registers.**  In a run every timer interrupt resumes a job with its own
    context if and only if at every timer interrupt the interrupted job's x1 is the one that the
    next RUNNING job is waiting for.  The vectors push 32 words, the zero register among them, and
    the two loops of the scheduler copy 31: x1 is in the last word, so it is neither saved nor
    restored, and the job that is resumed finds the x1 of the one that was interrupted. -/
theorem context_switch_registers_iff {s : Slab} (hp : s.Placed) {st st' : SchedState}
    {tr : List (SchedState × SchedEvent × SchedState)} (h0 : (schedMachine s).start st)
    (hr : (schedMachine s).Run st tr st') :
    (∀ a e b, (a, e, b) ∈ tr → ResumesOwnContext a e b) ↔
      (∀ a e b, (a, e, b) ∈ tr → X1Agrees a e b) := by
  refine hr.forall_iff ?_ h0
  intro a e b ha hstep
  cases e with
  | timer =>
    obtain ⟨order, h⟩ := schedMachine_inv hp ha
    obtain ⟨c, l, rfl⟩ := List.exists_cons_of_ne_nil h.nonempty
    exact h.resumes_iff hp hstep
  | run => exact ⟨fun _ he => absurd he (by simp), fun _ he => absurd he (by simp)⟩
  | create => exact ⟨fun _ he => absurd he (by simp), fun _ he => absurd he (by simp)⟩
  | terminate => exact ⟨fun _ he => absurd he (by simp), fun _ he => absurd he (by simp)⟩

/-- The registers of a program that has used all of them but x1. -/
def zeroX1 : Regs := fun i => if i = 1 then 0 else 5

/-- Two jobs whose registers differ, but not in x1: the second is started with its own context, with
    0 in every register. -/
theorem context_switch_registers_iff_zeroX1 :
    ResumesOwnContext (twoJobState zeroX1) .timer (switchNext (twoJobState zeroX1)) ∧
    (twoJobState zeroX1).kernel.cpu.x 0 = 5 ∧ (switchNext (twoJobState zeroX1)).kernel.cpu.x 0 = 0 := by
  have hown : ResumesOwnContext (twoJobState zeroX1) .timer (switchNext (twoJobState zeroX1)) := by
    refine (context_switch_registers_iff twoJobSlab_placed ⟨_, twoJobState_start zeroX1⟩
      (twoJobState_run zeroX1)).mpr ?_ _ _ _ List.mem_cons_self
    intro a e b hm _ q hq _
    obtain ⟨rfl, -⟩ := Prod.mk.inj (List.mem_singleton.mp hm)
    obtain rfl := twoJobState_next _ hq
    rfl
  exact ⟨hown, rfl, congrArg (fun c => c.x 0) (hown rfl)⟩

/-- A job that has never run is started with the x1 of the job that was interrupted: 5, where its
    initial context has 0. -/
theorem context_switch_leaks_x1 :
    (schedMachine twoJobSlab).start (twoJobState fun _ => 5) ∧
    (schedMachine twoJobSlab).Run (twoJobState fun _ => 5)
      [(twoJobState fun _ => 5, .timer, switchNext (twoJobState fun _ => 5))]
      (switchNext (twoJobState fun _ => 5)) ∧
    ¬ ResumesOwnContext (twoJobState fun _ => 5) .timer (switchNext (twoJobState fun _ => 5)) := by
  refine ⟨⟨_, twoJobState_start fun _ => 5⟩, twoJobState_run fun _ => 5, fun hres => ?_⟩
  have hx1 : (5 : Word) = 0 := congrArg (fun c => c.x 1) (hres rfl)
  exact absurd hx1 (by decide)

/-! ## The processor state word -/

/-- A timer interrupt resumes a job with the SPSR_EL1 that was captured when it was last
    interrupted, if it ever was. -/
def ResumesOwnState (_ : SchedState) (e : SchedEvent) (st' : SchedState) : Prop :=
  e = .timer → ∀ v, st'.lastSpsr st'.kernel.table.currentJob = some v → st'.kernel.cpu.spsr = v

/-- The condition on the state before a timer interrupt: unless the current job is the next to run,
    its processor state is the one the next RUNNING job was last interrupted with. -/
def StateAgrees (st : SchedState) (e : SchedEvent) (_ : SchedState) : Prop :=
  e = .timer → ∀ q, NextRunning st.kernel.table q → q ≠ st.kernel.table.currentJob →
    ∀ v, st.lastSpsr q = some v → st.kernel.cpu.pstate = v

/-- One timer interrupt hands the right state word back exactly when it happens to agree. -/
theorem SchedInv.state_iff (hp : s.Placed) (h : SchedInv s st (a :: l))
    (hstep : SchedStep st .timer st') :
    ResumesOwnState st .timer st' ↔ StateAgrees st .timer st' := by
  obtain ⟨r, -, hnext, -, hcur, -, -, -, hspsr⟩ := h.timer hp hstep
  obtain ⟨-, -, hlast⟩ := hstep
  constructor
  · intro hres _ q hq hqc v hv
    obtain rfl := hq.unique hnext
    rw [← hspsr]
    refine hres rfl v ?_
    rw [hcur, hlast, Function.update_of_ne hqc]
    exact hv
  · intro hagree _ v hv
    rw [hspsr]
    rw [hcur, hlast] at hv
    by_cases hrc : r = st.kernel.table.currentJob
    · rw [hrc, Function.update_self] at hv
      exact Option.some.inj hv
    · rw [Function.update_of_ne hrc] at hv
      exact hagree rfl r hnext hrc v hv

/-- **Context switches and the processor state.**  In a run every timer interrupt resumes a job with
    its own state word if and only if at every timer interrupt the interrupted job's state is the
    one with which the next RUNNING job was last interrupted.  `scheduling_save_context` saves
    ELR_EL1 and SP_EL0 with the registers, but not SPSR_EL1, which `exceptions_handle_syscall` does;
    so the flags of the one job come back in the other. -/
theorem context_switch_state_iff {s : Slab} (hp : s.Placed) {st st' : SchedState}
    {tr : List (SchedState × SchedEvent × SchedState)} (h0 : (schedMachine s).start st)
    (hr : (schedMachine s).Run st tr st') :
    (∀ a e b, (a, e, b) ∈ tr → ResumesOwnState a e b) ↔
      (∀ a e b, (a, e, b) ∈ tr → StateAgrees a e b) := by
  refine hr.forall_iff ?_ h0
  intro a e b ha hstep
  cases e with
  | timer =>
    obtain ⟨order, h⟩ := schedMachine_inv hp ha
    obtain ⟨c, l, rfl⟩ := List.exists_cons_of_ne_nil h.nonempty
    exact h.state_iff hp hstep
  | run => exact ⟨fun _ he => absurd he (by simp), fun _ he => absurd he (by simp)⟩
  | create => exact ⟨fun _ he => absurd he (by simp), fun _ he => absurd he (by simp)⟩
  | terminate => exact ⟨fun _ he => absurd he (by simp), fun _ he => absurd he (by simp)⟩

/-- The second job was started by the first timer interrupt and has set its Z flag. -/
def secondJobFlag (pstate : Word) : SchedState :=
  { switchNext (twoJobState fun _ => 0) with
    kernel := { (switchNext (twoJobState fun _ => 0)).kernel with
      cpu := ⟨fun _ => 0, 0x80000104, pstate, 0x80002000, 0x41001000, 0x80000100, 0⟩ } }

/-- The run in which the second job is interrupted in the state `pstate`. -/
theorem secondJobFlag_run (pstate : Word) :
    (schedMachine twoJobSlab).Run (twoJobState fun _ => 0)
      [(twoJobState fun _ => 0, .timer, switchNext (twoJobState fun _ => 0)),
        (switchNext (twoJobState fun _ => 0), .run (fun _ => 0) 0x80000104 0x80002000 pstate,
          secondJobFlag pstate),
        (secondJobFlag pstate, .timer, switchNext (secondJobFlag pstate))]
      (switchNext (secondJobFlag pstate)) := by
  refine .cons (step_switchNext (twoJobState_start _).stack rfl rfl) (.cons rfl (.cons ?_ (.nil _)))
  exact step_switchNext (twoJobState_start fun _ => 0).stack rfl rfl

/-- Two jobs that leave the state word alone are resumed with it. -/
theorem context_switch_state_iff_zero :
    ResumesOwnState (secondJobFlag 0) .timer (switchNext (secondJobFlag 0)) := by
  refine (context_switch_state_iff twoJobSlab_placed ⟨_, twoJobState_start fun _ => 0⟩
    (secondJobFlag_run 0)).mpr ?_ _ _ _ (by simp)
  intro a e b hm he q hq _ v hv
  simp only [List.mem_cons, Prod.mk.injEq, List.not_mem_nil, or_false] at hm
  rcases hm with ⟨rfl, -⟩ | ⟨-, rfl, -⟩ | ⟨rfl, -⟩
  · exact absurd hv (by simp [twoJobState])
  · exact absurd he (by simp)
  · have hfirst : q = 0x41182188 :=
      hq.unique ⟨0, rfl, rfl, fun _ hj => absurd hj (Nat.not_lt_zero _)⟩
    rw [hfirst] at hv
    exact Option.some.inj hv

/-- The Z flag of the second job comes back in the first one, which was interrupted without it. -/
theorem context_switch_leaks_flags :
    (schedMachine twoJobSlab).start (twoJobState fun _ => 0) ∧
    (schedMachine twoJobSlab).Run (twoJobState fun _ => 0)
      [(twoJobState fun _ => 0, .timer, switchNext (twoJobState fun _ => 0)),
        (switchNext (twoJobState fun _ => 0),
          .run (fun _ => 0) 0x80000104 0x80002000 0x40000000, secondJobFlag 0x40000000),
        (secondJobFlag 0x40000000, .timer, switchNext (secondJobFlag 0x40000000))]
      (switchNext (secondJobFlag 0x40000000)) ∧
    ¬ ResumesOwnState (secondJobFlag 0x40000000) .timer (switchNext (secondJobFlag 0x40000000)) := by
  refine ⟨⟨_, twoJobState_start fun _ => 0⟩, secondJobFlag_run _, fun hres => ?_⟩
  have hflag : (0x40000000 : Word) = 0 := hres rfl 0 rfl
  exact absurd hflag (by decide)

end TinyKernel
