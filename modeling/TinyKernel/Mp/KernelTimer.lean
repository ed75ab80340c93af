/-
  Timer interrupts and the kernel itself.

  The kernel runs with FIQ unmasked during the boot and inside the busy wait of
  `disk_create_request_sync`, so a timer interrupt can arrive at EL1.  `exceptions.h` says what
  should happen then: "just reload the timer since there is no usermode process to switch".  But
  `currentelx_fiq` is the same code as `loweraa64_fiq`, and `exceptions_handle_fiq` does not look
  at the level it came from.

  `kernelMachine` is the kernel from its boot on: kernel code, jobs at EL0, system calls, and the
  interrupts of the timer and of the disk whenever FIQ is not masked.  `Undisturbed` says of one
  interrupt what the comment says: everything the kernel and the jobs rely on is `Unnoticed`, and
  the timer has been reloaded.  No interrupt at EL1 is like that, for one of two reasons:

  * with the scheduler registered, `internal_handler` stores the kernel's own context over that of
    the current job and resumes a job with the kernel's SPSR (`KernelInv.timer_disturbs`);
  * before that, no handler of the timer's interrupt touches the timer: the interrupt is
    acknowledged, a line may be printed, and the kernel goes on with everything as it was
    (`KernelInv.fiq_unhandled`), but the timer still holds its interrupt line.

  The invariant `KernelInv` carries the first half: the saved program counters are those of jobs,
  EL1 runs kernel code only, and a system call returns to EL0.  Every event keeps it except a timer
  interrupt that finds the scheduler registered at EL1 (`KernelInv.step`), so it holds up to the
  first of them, which is where the saved program counter of a job becomes a kernel address.
-/
import TinyKernel.Mp.JobPaging
import TinyKernel.Mp.SchedRun

namespace TinyKernel

/-- The exception level in a processor state word. -/
def exceptionLevel (pstate : Word) : BitVec 2 := pstate.extractLsb' 2 2

/-- FIQ is masked, PSTATE.F. -/
def fiqMasked (pstate : Word) : Bool := pstate.getLsbD 6

/-- An address of the kernel.  User programs are linked at `JOB_BASE_USER`, and EL0 has no access
    to anything below it. -/
def KernelAddr (a : Word) : Prop := a.toNat < jobBaseUser

instance (a : Word) : Decidable (KernelAddr a) := inferInstanceAs (Decidable (_ < _))

/-- The kernel, and the local variables `lr` and `spsr` of `exceptions_handle_syscall` while it
    runs. -/
structure KernelState where
  kernel : Kernel
  syscall : Option (Word × Word)

inductive KernelEvent
  /-- Kernel code executes; it may mask and unmask FIQ, set the handlers of other interrupts and
      switch the paging manager. -/
  | kernel (x : Regs) (pc pstate : Word) (spEl1 : Nat) (stack : Mem)
      (handlers : Nat → Option Handler) (pagingManager : Nat)
  /-- `job_create`, with the entry point of a program. -/
  | create (entry sp : Word) (name : Mem) (paging : Nat)
  /-- `job_terminate`. -/
  | terminate
  /-- `scheduling_register_routine`. -/
  | register
  /-- `sysutils_jump_eret_usermode(job_get_current())`. -/
  | launch
  /-- The current job executes at EL0. -/
  | user (x : Regs) (pc sp pstate : Word)
  /-- A system call, up to the first lines of `exceptions_handle_syscall`. -/
  | svc
  /-- The return from a system call. -/
  | sysret (x : Regs)
  /-- An interrupt of the timer. -/
  | timer
  /-- An interrupt of the disk. -/
  | disk

/-- An interrupt is taken, at the level the processor is at. -/
def takeFiq (rounds intid : Nat) (k : Kernel) : Except Fault Kernel :=
  if exceptionLevel k.cpu.pstate = 0 then loweraa64Fiq rounds intid k
  else currentelxFiq rounds intid k

/-- One event. -/
def KernelStep (st : KernelState) : KernelEvent → KernelState → Prop
  | .kernel x pc pstate spEl1 stack handlers pagingManager, st' =>
      exceptionLevel st.kernel.cpu.pstate = 1 ∧ exceptionLevel pstate = 1 ∧ KernelAddr pc ∧
      256 ≤ spEl1 ∧ handlers 30 = st.kernel.handlers 30 ∧
      handlers 79 ≠ some .internalHandler ∧
      st' = { st with kernel := { st.kernel with
        cpu := { st.kernel.cpu with x := x, pc := pc, pstate := pstate, spEl1 := spEl1 }
        stack := stack, handlers := handlers, pagingManager := pagingManager } }
  | .create entry sp name paging, st' =>
      exceptionLevel st.kernel.cpu.pstate = 1 ∧ ¬ KernelAddr entry ∧
      (∃ k, k < st.kernel.table.jobSlab.maxStore ∧
        st.kernel.table.jobSlab.used st.kernel.table.mem k = false) ∧
      ∃ p t, jobCreate st.kernel.table entry sp name paging = .ok (p, t) ∧
        st' = { st with kernel := { st.kernel with table := t } }
  | .terminate, st' =>
      exceptionLevel st.kernel.cpu.pstate = 1 ∧ st.syscall ≠ none ∧
      st' = { st with kernel := { st.kernel with table := jobTerminate st.kernel.table } }
  | .register, st' =>
      exceptionLevel st.kernel.cpu.pstate = 1 ∧ st.kernel.table.currentJob ≠ 0 ∧
      st' = { st with kernel := schedulingRegisterRoutine st.kernel }
  | .launch, st' =>
      exceptionLevel st.kernel.cpu.pstate = 1 ∧
      st.kernel.handlers 30 = some .internalHandler ∧
      st' = { st with kernel := { st.kernel with
        cpu := { st.kernel.cpu with
          pc := (st.kernel.table.jobs st.kernel.table.currentJob).pc
          elr := (st.kernel.table.jobs st.kernel.table.currentJob).pc
          spEl0 := (st.kernel.table.jobs st.kernel.table.currentJob).sp
          spsr := st.kernel.cpu.spsr &&& ~~~0xf
          pstate := st.kernel.cpu.spsr &&& ~~~0xf }
        pagingManager := (st.kernel.table.jobs st.kernel.table.currentJob).paging } }
  | .user x pc sp pstate, st' =>
      exceptionLevel st.kernel.cpu.pstate = 0 ∧ exceptionLevel pstate = 0 ∧ ¬ KernelAddr pc ∧
      st' = { st with kernel := { st.kernel with
        cpu := { st.kernel.cpu with x := x, pc := pc, spEl0 := sp, pstate := pstate } } }
  | .svc, st' =>
      exceptionLevel st.kernel.cpu.pstate = 0 ∧
      ∃ pc, KernelAddr pc ∧ st' =
        { kernel := { st.kernel with
            -- the hardware enters EL1h with every interrupt masked
            cpu := { st.kernel.cpu with elr := st.kernel.cpu.pc, spsr := st.kernel.cpu.pstate,
                                        pc := pc, pstate := 0x3c5 } }
          syscall := some (st.kernel.cpu.pc, st.kernel.cpu.pstate) }
  | .sysret x, st' =>
      exceptionLevel st.kernel.cpu.pstate = 1 ∧
      ∃ lr spsr, st.syscall = some (lr, spsr) ∧ st' =
        { kernel := { st.kernel with
            cpu := { st.kernel.cpu with x := x, elr := lr, spsr := spsr, pc := lr, pstate := spsr } }
          syscall := none }
  | .timer, st' => fiqMasked st.kernel.cpu.pstate = false ∧ st'.syscall = st.syscall ∧
      Returns (fun rounds => takeFiq rounds 30 st.kernel) st'.kernel
  | .disk, st' => fiqMasked st.kernel.cpu.pstate = false ∧ st'.syscall = st.syscall ∧
      Returns (fun rounds => takeFiq rounds 79 st.kernel) st'.kernel

/-- The kernel after `job_init_slab`: no jobs and no handlers yet. -/
structure Booted (s : Slab) (st : KernelState) : Prop where
  ring : JobInv s st.kernel.table []
  handlers : ∀ i, st.kernel.handlers i = none
  level : exceptionLevel st.kernel.cpu.pstate = 1
  pc : KernelAddr st.kernel.cpu.pc
  stack : 256 ≤ st.kernel.cpu.spEl1
  syscall : st.syscall = none

/-- The kernel from its boot on, with a job table over the slab `s`. -/
def kernelMachine (s : Slab) : Machine KernelState KernelEvent where
  start := Booted s
  step := KernelStep

/-! ## What a timer interrupt at EL1 should leave alone -/

/-- The interrupt has come and gone, and what the kernel and the jobs rely on is as it was. -/
structure Unnoticed (k k' : Kernel) : Prop where
  currentJob : k'.table.currentJob = k.table.currentJob
  /-- The saved context of every job. -/
  contexts : ∀ q ∈ aliveJobs k.table.log, (k'.table.jobs q).x = (k.table.jobs q).x ∧
    (k'.table.jobs q).pc = (k.table.jobs q).pc ∧ (k'.table.jobs q).sp = (k.table.jobs q).sp
  /-- ELR_EL1 is what the interrupt set it to, and the kernel goes on there. -/
  elr : k'.cpu.elr = k.cpu.pc
  pc : k'.cpu.pc = k.cpu.pc
  /-- The registers of the interrupted kernel code. -/
  frame : k'.cpu.x = k.cpu.x
  pagingManager : k'.pagingManager = k.pagingManager

/-- What the comment of `exceptions_handle_fiq` promises of a timer interrupt at EL1: the timer is
    reloaded, once, and nothing else happens.  An interrupt that does not reload the timer leaves
    its condition standing, and the timer interrupts again as soon as FIQ is unmasked. -/
structure Undisturbed (k k' : Kernel) : Prop extends Unnoticed k k' where
  reloaded : k'.timerReloads = k.timerReloads + 1

/-- No job's saved program counter is a kernel address, and EL1 runs nothing but the kernel. -/
structure NoKernelContext (k : Kernel) : Prop where
  contexts : ∀ q ∈ aliveJobs k.table.log, ¬ KernelAddr (k.table.jobs q).pc
  level : exceptionLevel k.cpu.pstate = 1 → KernelAddr k.cpu.pc

/-- What holds of the kernel before a timer interrupt hits it with the scheduler registered. -/
structure KernelInv (s : Slab) (st : KernelState) (order : List Nat) : Prop where
  ring : JobInv s st.kernel.table order
  registered : st.kernel.handlers 30 = some .internalHandler → order ≠ []
  disk : st.kernel.handlers 79 ≠ some .internalHandler
  stack : 256 ≤ st.kernel.cpu.spEl1
  contexts : ∀ q ∈ order, ¬ KernelAddr (st.kernel.table.jobs q).pc
  level : (exceptionLevel st.kernel.cpu.pstate = 1 ∧ KernelAddr st.kernel.cpu.pc) ∨
    (exceptionLevel st.kernel.cpu.pstate = 0 ∧ ¬ KernelAddr st.kernel.cpu.pc)
  syscall : ∀ lr spsr, st.syscall = some (lr, spsr) →
    exceptionLevel spsr = 0 ∧ ¬ KernelAddr lr

variable {s : Slab} {st st' : KernelState} {order : List Nat} {intid : Nat}

theorem takeFiq_eq (rounds intid : Nat) (k : Kernel) :
    takeFiq rounds intid k = fiqVector rounds intid k := by
  unfold takeFiq
  split <;> rfl

/-- `sysutils_jump_eret_usermode` clears the level. -/
theorem exceptionLevel_eret (spsr : Word) : exceptionLevel (spsr &&& ~~~0xf) = 0 := by
  unfold exceptionLevel
  ext i hi
  obtain rfl | rfl : i = 0 ∨ i = 1 := by omega
  · simp
  · simp

/-- The state of EL1h with every interrupt masked. -/
theorem exceptionLevel_svc : exceptionLevel 0x3c5 = 1 := by decide

theorem Booted.inv (h : Booted s st) : KernelInv s st [] where
  ring := h.ring
  registered := by
    rw [h.handlers 30]
    exact fun hh => absurd hh (by simp)
  disk := by
    rw [h.handlers 79]
    simp
  stack := h.stack
  contexts := fun _ hq => absurd hq List.not_mem_nil
  level := .inl ⟨h.level, h.pc⟩
  syscall := by
    rw [h.syscall]
    exact fun _ _ hs => absurd hs (by simp)

namespace KernelInv

theorem noKernelContext (h : KernelInv s st order) : NoKernelContext st.kernel where
  contexts := fun q hq => h.contexts q (h.ring.history.mem_iff.mpr hq)
  level := by
    intro hel
    rcases h.level with ⟨-, hpc⟩ | ⟨hel0, -⟩
    · exact hpc
    · rw [hel] at hel0
      exact absurd hel0 (by decide)

/-- An interrupt that is not the scheduler's returns, and nothing happened: `exceptions_handle_fiq`
    acknowledges it, prints a line if it has no handler at all, and never writes to the timer. -/
theorem fiq_unhandled (h : KernelInv s st order)
    (hh : st.kernel.handlers intid ≠ some .internalHandler) :
    ∃ k, Returns (fun rounds => takeFiq rounds intid st.kernel) k ∧ Unnoticed st.kernel k ∧
      k.timerReloads = st.kernel.timerReloads ∧ KernelInv s { st with kernel := k } order := by
  obtain ⟨stack, x30, hres⟩ := fiqVector_unhandled h.stack hh
  refine ⟨_, ⟨0, fun rounds _ => (takeFiq_eq ..).trans (hres rounds)⟩, ?_, rfl, ?_⟩
  · exact ⟨rfl, fun _ _ => ⟨rfl, rfl, rfl⟩, rfl, rfl, rfl, rfl⟩
  · exact ⟨h.ring, h.registered, h.disk, h.stack, h.contexts, h.level, h.syscall⟩

/-- **A timer interrupt at EL1** with the scheduler registered stores the program counter of the
    kernel in the structure of the current job. -/
theorem timer_disturbs (hp : s.Placed) (h : KernelInv s st order)
    (hel : exceptionLevel st.kernel.cpu.pstate = 1)
    (hh : st.kernel.handlers 30 = some .internalHandler) {k : Kernel}
    (hret : Returns (fun rounds => takeFiq rounds 30 st.kernel) k) :
    ¬ Unnoticed st.kernel k := by
  intro hund
  obtain ⟨a, l, rfl⟩ := List.exists_cons_of_ne_nil (h.registered hh)
  simp only [takeFiq_eq] at hret
  obtain ⟨t, -, -, -, hret', -, -, -, -, hsame, -⟩ := timer_returns hp h.ring h.stack hh
    (timer_running hp h.ring h.stack hh hret)
  obtain rfl := hret.unique hret'
  have hcur := h.ring.current_eq
  have halive : a ∈ aliveJobs st.kernel.table.log :=
    h.ring.history.mem_iff.mp List.mem_cons_self
  -- the context that was saved is the kernel's
  have hsaved : (t.jobs a).pc = st.kernel.cpu.pc := by
    rw [hsame a, ← hcur]
    exact (saved_savedTable st.kernel.table st.kernel.cpu).pc
  have hkept : (t.jobs a).pc = (st.kernel.table.jobs a).pc := (hund.contexts a halive).2.1
  have hold := h.contexts a List.mem_cons_self
  rw [← hkept, hsaved] at hold
  exact hold (h.noKernelContext.level hel)

/-- No timer interrupt at EL1 does what the comment says: with the scheduler registered it disturbs
    the jobs, and without it the timer is not reloaded. -/
theorem timer_not_undisturbed (hp : s.Placed) (h : KernelInv s st order)
    (hel : exceptionLevel st.kernel.cpu.pstate = 1) {k : Kernel}
    (hret : Returns (fun rounds => takeFiq rounds 30 st.kernel) k) :
    ¬ Undisturbed st.kernel k := by
  intro hund
  by_cases hh : st.kernel.handlers 30 = some .internalHandler
  · exact h.timer_disturbs hp hel hh hret hund.toUnnoticed
  · obtain ⟨k', hret', -, hreloads, -⟩ := h.fiq_unhandled hh
    obtain rfl := hret.unique hret'
    have := hund.reloaded
    omega

/-- A timer interrupt at EL0 with the scheduler registered. -/
theorem timer_lower (hp : s.Placed) (h : KernelInv s st order)
    (hel : exceptionLevel st.kernel.cpu.pstate = 0)
    (hh : st.kernel.handlers 30 = some .internalHandler) {k : Kernel}
    (hret : Returns (fun rounds => takeFiq rounds 30 st.kernel) k) :
    ∃ order', KernelInv s { st with kernel := k } order' := by
  obtain ⟨a, l, rfl⟩ := List.exists_cons_of_ne_nil (h.registered hh)
  simp only [takeFiq_eq] at hret
  obtain ⟨t, pre, r, post, hret', hsplit, -, -, hring, hsame, -⟩ := timer_returns hp h.ring
    h.stack hh (timer_running hp h.ring h.stack hh hret)
  obtain rfl := hret.unique hret'
  have hpc : ¬ KernelAddr st.kernel.cpu.pc := by
    rcases h.level with ⟨hel1, -⟩ | ⟨-, hpc⟩
    · rw [hel] at hel1
      exact absurd hel1 (by decide)
    · exact hpc
  have hall : ∀ q ∈ a :: l, ¬ KernelAddr (t.jobs q).pc := by
    intro q hq
    rw [hsame q]
    by_cases hqc : q = st.kernel.table.currentJob
    · rw [hqc, (saved_savedTable st.kernel.table st.kernel.cpu).pc]
      exact hpc
    · rw [savedTable_jobs_of_ne hqc]
      exact h.contexts q hq
  have hnew : ∀ q ∈ r :: (post ++ pre.filter fun q => st.kernel.table.status q = .sleeping),
      ¬ KernelAddr (t.jobs q).pc := fun q hq => hall q (mem_of_forward hsplit hq)
  refine ⟨_, hring, fun _ => List.cons_ne_nil _ _, h.disk, h.stack, ?_, .inr ⟨hel, ?_⟩, h.syscall⟩
  · exact hnew
  · have hcurt : t.currentJob = r := hring.current_eq
    show ¬ KernelAddr (t.jobs t.currentJob).pc
    rw [hcurt]
    exact hnew r List.mem_cons_self

/-- `job_create` by the kernel. -/
theorem create (hp : s.Placed) (h : KernelInv s st order) {entry sp : Word} {name : Mem}
    {paging : Nat} (hstep : KernelStep st (.create entry sp name paging) st') :
    ∃ order', KernelInv s st' order' := by
  obtain ⟨-, hentry, hfree, p, t, hcall, rfl⟩ := hstep
  rw [h.ring.slab] at hfree
  obtain ⟨p', t₁, hres, hring, -, -⟩ := h.ring.create hp hfree entry sp name paging
  obtain ⟨rfl, rfl⟩ := Prod.mk.inj (Except.ok.inj (hres.symm.trans hcall))
  obtain ⟨mem, -, rfl⟩ := jobCreate_ok hcall
  refine ⟨_, hring, fun _ => ?_, h.disk, h.stack, ?_, h.level, h.syscall⟩
  · cases order <;> exact List.cons_ne_nil _ _
  · intro q hq
    simp only
    by_cases hqp : q = p'
    · obtain ⟨-, hpc, -⟩ :=
        jobFill_self (t := { st.kernel.table with mem := mem }) p' entry sp name paging
      rw [hqp, hpc]
      exact hentry
    · rw [jobFill_other (g := Job.pc) p' entry sp name paging (fun _ _ => rfl) hqp]
      exact h.contexts q ((mem_insertSecond.mp hq).resolve_left hqp)

/-- The current job is one of the ring. -/
theorem current_mem (h : KernelInv s st order)
    (hh : st.kernel.handlers 30 = some .internalHandler) : st.kernel.table.currentJob ∈ order := by
  obtain ⟨a, l, rfl⟩ := List.exists_cons_of_ne_nil (h.registered hh)
  rw [h.ring.current_eq]
  exact List.mem_cons_self

end KernelInv

/-- The condition on the state before a timer interrupt: the processor is not at EL1. -/
def NotAtEl1 (st : KernelState) (e : KernelEvent) (_ : KernelState) : Prop :=
  e = .timer → exceptionLevel st.kernel.cpu.pstate ≠ 1

/-- The weaker condition under which the jobs at least are left alone: at EL1 the scheduler is not
    registered. -/
def NotScheduling (st : KernelState) (e : KernelEvent) (_ : KernelState) : Prop :=
  e = .timer → exceptionLevel st.kernel.cpu.pstate = 1 →
    st.kernel.handlers 30 ≠ some .internalHandler

/-- **One event** that meets the condition keeps the invariant. -/
theorem KernelInv.step (hp : s.Placed) (h : KernelInv s st order) {e : KernelEvent}
    (hstep : KernelStep st e st') (hok : NotScheduling st e st') :
    ∃ order', KernelInv s st' order' := by
  cases e with
  | kernel x pc pstate spEl1 stack handlers pagingManager =>
    obtain ⟨-, hel, hpc, hsp, h30, h79, rfl⟩ := hstep
    refine ⟨order, h.ring, fun hh => h.registered (h30.symm.trans hh), h79, hsp, h.contexts,
      .inl ⟨hel, hpc⟩, h.syscall⟩
  | create entry sp name paging => exact h.create hp hstep
  | terminate =>
    obtain ⟨-, -, rfl⟩ := hstep
    have hring : JobInv s (jobTerminate st.kernel.table) order :=
      h.ring.congr rfl (fun _ _ => rfl) rfl (fun _ => next_setJob_of_next rfl) rfl
    refine ⟨order, hring, h.registered, h.disk, h.stack, ?_, h.level, h.syscall⟩
    intro q hq
    have hpc : ((jobTerminate st.kernel.table).jobs q).pc = (st.kernel.table.jobs q).pc :=
      field_setJob_of_eq (g := Job.pc) rfl
    show ¬ KernelAddr ((jobTerminate st.kernel.table).jobs q).pc
    rw [hpc]
    exact h.contexts q hq
  | register =>
    obtain ⟨-, hcur, rfl⟩ := hstep
    obtain ⟨a, l, rfl, -⟩ := h.ring.nonempty hcur
    exact ⟨a :: l, h.ring, fun _ => List.cons_ne_nil _ _, h.disk, h.stack, h.contexts, h.level,
      h.syscall⟩
  | launch =>
    obtain ⟨-, hh, rfl⟩ := hstep
    exact ⟨order, h.ring, h.registered, h.disk, h.stack, h.contexts,
      .inr ⟨exceptionLevel_eret _, h.contexts _ (h.current_mem hh)⟩, h.syscall⟩
  | user x pc sp pstate =>
    obtain ⟨-, hel, hpc, rfl⟩ := hstep
    exact ⟨order, h.ring, h.registered, h.disk, h.stack, h.contexts, .inr ⟨hel, hpc⟩, h.syscall⟩
  | svc =>
    obtain ⟨hel, pc, hpc, rfl⟩ := hstep
    refine ⟨order, h.ring, h.registered, h.disk, h.stack, h.contexts,
      .inl ⟨exceptionLevel_svc, hpc⟩, fun lr spsr hs => ?_⟩
    obtain ⟨rfl, rfl⟩ := Prod.mk.inj (Option.some.inj hs)
    rcases h.level with ⟨hel1, -⟩ | hlevel
    · rw [hel] at hel1
      exact absurd hel1 (by decide)
    · exact hlevel
  | sysret x =>
    obtain ⟨-, lr, spsr, hs, rfl⟩ := hstep
    exact ⟨order, h.ring, h.registered, h.disk, h.stack, h.contexts, .inr (h.syscall lr spsr hs),
      fun _ _ hs' => absurd hs' (by simp)⟩
  | timer =>
    obtain ⟨-, hs, hret⟩ := hstep
    obtain ⟨k, syscall⟩ := st'
    obtain rfl : syscall = st.syscall := hs
    by_cases hh : st.kernel.handlers 30 = some .internalHandler
    · rcases h.level with ⟨hel, -⟩ | ⟨hel, -⟩
      · exact absurd hh (hok rfl hel)
      · exact h.timer_lower hp hel hh hret
    · obtain ⟨k', hret', -, -, h'⟩ := h.fiq_unhandled hh
      obtain rfl : k = k' := hret.unique hret'
      exact ⟨order, h'⟩
  | disk =>
    obtain ⟨-, hs, hret⟩ := hstep
    obtain ⟨k, syscall⟩ := st'
    obtain rfl : syscall = st.syscall := hs
    obtain ⟨k', hret', -, -, h'⟩ := h.fiq_unhandled h.disk
    obtain rfl : k = k' := hret.unique hret'
    exact ⟨order, h'⟩

/-- A transition does with a timer interrupt at EL1 what the comment says, and leaves no kernel
    context in any job. -/
def TimerHarmless (st : KernelState) (e : KernelEvent) (st' : KernelState) : Prop :=
  (e = .timer → exceptionLevel st.kernel.cpu.pstate = 1 → Undisturbed st.kernel st'.kernel) ∧
    NoKernelContext st'.kernel

theorem NotAtEl1.notScheduling {e : KernelEvent} (h : NotAtEl1 st e st') :
    NotScheduling st e st' :=
  fun he hel => absurd hel (h he)

/-- One event is harmless exactly when it is not a timer interrupt at EL1. -/
theorem KernelInv.harmless_iff (hp : s.Placed) (h : KernelInv s st order) {e : KernelEvent}
    (hstep : KernelStep st e st') : TimerHarmless st e st' ↔ NotAtEl1 st e st' := by
  constructor
  · rintro ⟨hund, -⟩ rfl hel
    exact h.timer_not_undisturbed hp hel hstep.2.2 (hund rfl hel)
  · intro hok
    obtain ⟨order', h'⟩ := h.step hp hstep hok.notScheduling
    exact ⟨fun he hel => absurd hel (hok he), h'.noKernelContext⟩

/-- **Timer interrupts at EL1.**  In a run from the boot every timer interrupt of the kernel does
    what the comment says, and no job ever has a kernel context, if and only if no timer interrupt
    is taken at EL1 at all.  As long as none finds the scheduler registered there, no job has a
    kernel context; the next one at EL1 is never undisturbed even so: without the scheduler it
    returns, unnoticed, but the timer has not been reloaded. -/
theorem kernel_timer_harmless_iff {s : Slab} (hp : s.Placed) {st st' : KernelState}
    {tr : List (KernelState × KernelEvent × KernelState)} (h0 : (kernelMachine s).start st)
    (hr : (kernelMachine s).Run st tr st') :
    ((∀ a e b, (a, e, b) ∈ tr → TimerHarmless a e b) ↔
      (∀ a e b, (a, e, b) ∈ tr → NotAtEl1 a e b)) ∧
    ((∀ a e b, (a, e, b) ∈ tr → NotScheduling a e b) → NoKernelContext st'.kernel ∧
      (exceptionLevel st'.kernel.cpu.pstate = 1 →
        (∀ k, Returns (fun rounds => currentelxFiq rounds 30 st'.kernel) k →
          ¬ Undisturbed st'.kernel k) ∧
        (st'.kernel.handlers 30 ≠ some .internalHandler →
          ∃ k, Returns (fun rounds => currentelxFiq rounds 30 st'.kernel) k ∧
            Unnoticed st'.kernel k ∧ k.timerReloads = st'.kernel.timerReloads))) := by
  have hkeep : ∀ a e b, (∃ order, KernelInv s a order) → (kernelMachine s).step a e b →
      NotScheduling a e b → ∃ order, KernelInv s b order := by
    rintro a e b ⟨order, h⟩ hstep hok
    exact h.step hp hstep hok
  constructor
  · refine hr.forall_iff_of_invariant ?_
      (fun a e b h hstep hok => hkeep a e b h hstep hok.notScheduling) ⟨[], Booted.inv h0⟩
    rintro a e b ⟨order, h⟩ hstep
    exact h.harmless_iff hp hstep
  · intro hok
    obtain ⟨order, h⟩ := hr.invariant hkeep ⟨[], Booted.inv h0⟩ hok
    refine ⟨h.noKernelContext, fun hel => ⟨fun k hret => ?_, fun hh => ?_⟩⟩
    · refine h.timer_not_undisturbed hp hel (k := k) ?_
      simp only [takeFiq_eq]
      exact hret
    · obtain ⟨k, hret, hund, hreloads, -⟩ := h.fiq_unhandled hh
      simp only [takeFiq_eq] at hret
      exact ⟨k, hret, hund, hreloads⟩

/-! ## One job in a system call -/

/-- The kernel at its boot, with FIQ unmasked. -/
def bootState : KernelState where
  kernel :=
    { cpu := ⟨fun _ => 0, 0x50000000, 0x5, 0, 0x50011000, 0, 0⟩
      stack := fun _ => 0
      table := emptyJobTable
      pagingManager := 0x41000000
      contextSwitchX30 := 0
      handlers := fun _ => none
      timerReloads := 0 }
  syscall := none

/-- EL1h with FIQ unmasked. -/
theorem unmasked_el1 : exceptionLevel 0x5 = 1 ∧ fiqMasked 0x5 = false := by decide

theorem bootState_booted : Booted (jobSlabOf 128 0x41182000) bootState where
  ring := JobInv.start jobSlab_placed ⟨fun _ => 0, rfl, rfl, rfl⟩
  handlers := fun _ => rfl
  level := by decide
  pc := by decide
  stack := by decide
  syscall := rfl

/-- The first job has been created and launched: it is RUNNING at EL0 with FIQ unmasked, and the
    scheduler is registered. -/
theorem first_job_launched : ∃ st₁ st₂ st₃ order,
    KernelStep bootState (.create 0x80000000 0x80002000 (fun _ => 0) 0x41000000) st₁ ∧
    KernelStep st₁ .register st₂ ∧ KernelStep st₂ .launch st₃ ∧
    KernelInv (jobSlabOf 128 0x41182000) st₃ order ∧
    exceptionLevel st₃.kernel.cpu.pstate = 0 ∧ fiqMasked st₃.kernel.cpu.pstate = false ∧
    st₃.kernel.handlers 30 = some .internalHandler ∧
    st₃.kernel.table.status st₃.kernel.table.currentJob = .running := by
  have hboot := bootState_booted.inv
  have hfree := hboot.ring.slots.exists_free jobSlab_placed (by decide)
  obtain ⟨p, t, hcall, hring, -, hstatus⟩ :=
    hboot.ring.create jobSlab_placed hfree 0x80000000 0x80002000 (fun _ => 0) 0x41000000
  have hcur : t.currentJob = p := hring.current_eq
  have hne : t.currentJob ≠ 0 := by
    obtain ⟨j, -, hj⟩ := hring.slots.slots p List.mem_cons_self
    have := jobSlab_placed.slotAddr_pos j
    omega
  have hrun : t.status t.currentJob = .running := by rw [hstatus, if_pos hcur]
  obtain ⟨st₁, h₁, ht₁, hl₁, hs₁⟩ : ∃ st₁,
      KernelStep bootState (.create 0x80000000 0x80002000 (fun _ => 0) 0x41000000) st₁ ∧
      st₁.kernel.table = t ∧ exceptionLevel st₁.kernel.cpu.pstate = 1 ∧ st₁.kernel.cpu.spsr = 0 :=
    ⟨_, ⟨unmasked_el1.1, by decide, hfree, p, t, hcall, rfl⟩, rfl, unmasked_el1.1, rfl⟩
  obtain ⟨st₂, h₂, ht₂, hl₂, hh₂, hs₂⟩ : ∃ st₂, KernelStep st₁ .register st₂ ∧
      st₂.kernel.table = t ∧ exceptionLevel st₂.kernel.cpu.pstate = 1 ∧
      st₂.kernel.handlers 30 = some .internalHandler ∧ st₂.kernel.cpu.spsr = 0 :=
    ⟨_, ⟨hl₁, by rw [ht₁]; exact hne, rfl⟩, ht₁, hl₁, rfl, hs₁⟩
  obtain ⟨st₃, h₃, ht₃, hp₃, hh₃⟩ : ∃ st₃, KernelStep st₂ .launch st₃ ∧
      st₃.kernel.table = t ∧ st₃.kernel.cpu.pstate = st₂.kernel.cpu.spsr &&& ~~~0xf ∧
      st₃.kernel.handlers 30 = some .internalHandler :=
    ⟨_, ⟨hl₂, hh₂, rfl⟩, ht₂, rfl, hh₂⟩
  rw [hs₂] at hp₃
  -- none of these events is a timer interrupt
  obtain ⟨_, i₁⟩ := hboot.step jobSlab_placed h₁ fun he => absurd he (by simp)
  obtain ⟨_, i₂⟩ := i₁.step jobSlab_placed h₂ fun he => absurd he (by simp)
  obtain ⟨order, i₃⟩ := i₂.step jobSlab_placed h₃ fun he => absurd he (by simp)
  exact ⟨st₁, st₂, st₃, order, h₁, h₂, h₃, i₃, by rw [hp₃]; decide, by rw [hp₃]; decide, hh₃,
    by rw [ht₃]; exact hrun⟩

/-- A timer interrupt of the first job at EL0 is harmless, and reloads the timer.  One that comes
    during the boot goes unnoticed, but does not reload it. -/
theorem kernel_timer_harmless_iff_first :
    (∃ tr st st', (kernelMachine (jobSlabOf 128 0x41182000)).Run bootState (tr ++ [(st, .timer, st')])
        st' ∧ st'.kernel.timerReloads = st.kernel.timerReloads + 1 ∧
      ∀ a e b, (a, e, b) ∈ tr ++ [(st, .timer, st')] → TimerHarmless a e b) ∧
    ∃ k, Returns (fun rounds => currentelxFiq rounds 30 bootState.kernel) k ∧
      Unnoticed bootState.kernel k ∧ k.timerReloads = 0 ∧ ¬ Undisturbed bootState.kernel k := by
  constructor
  · obtain ⟨st₁, st₂, st₃, order, h₁, h₂, h₃, h, hel, hmask, hh, hrun⟩ := first_job_launched
    obtain ⟨a, l, rfl⟩ := List.exists_cons_of_ne_nil (h.registered hh)
    obtain ⟨t, -, -, -, hret, -⟩ := timer_returns jobSlab_placed h.ring h.stack hh
      ⟨a, List.mem_cons_self, by rw [← h.ring.current_eq]; exact hrun⟩
    simp only [← takeFiq_eq] at hret
    have h₄ : KernelStep st₃ .timer ⟨switchTo st₃.kernel t, st₃.syscall⟩ := ⟨hmask, rfl, hret⟩
    have hr : (kernelMachine (jobSlabOf 128 0x41182000)).Run bootState
        ([(bootState, .create 0x80000000 0x80002000 (fun _ => 0) 0x41000000, st₁),
          (st₁, .register, st₂), (st₂, .launch, st₃)] ++
          [(st₃, .timer, ⟨switchTo st₃.kernel t, st₃.syscall⟩)]) _ :=
      .cons h₁ (.cons h₂ (.cons h₃ (.cons h₄ (.nil _))))
    refine ⟨_, _, _, hr, rfl, ?_⟩
    refine (kernel_timer_harmless_iff jobSlab_placed bootState_booted hr).1.mpr ?_
    rintro a e b hm rfl
    simp only [List.cons_append, List.nil_append, List.mem_cons, Prod.mk.injEq, reduceCtorEq,
      false_and, and_false, List.not_mem_nil, or_false, false_or] at hm
    obtain ⟨rfl, -⟩ := hm
    rw [hel]
    decide
  · have hend := (kernel_timer_harmless_iff jobSlab_placed bootState_booted (.nil bootState)).2
      (fun a e b hm => absurd hm List.not_mem_nil)
    obtain ⟨k, hret, hun, hreloads⟩ := (hend.2 (by decide)).2 (by simp [bootState])
    exact ⟨k, hret, hun, hreloads, (hend.2 (by decide)).1 k hret⟩

/-- The busy wait of `disk_create_request_sync`, with FIQ unmasked. -/
def waitLoop : KernelEvent :=
  .kernel (fun _ => 0) 0x50001000 0x5 0x50011000 (fun _ => 0)
    (fun i => if i = 30 then some .internalHandler
      else if i = 79 then some .diskHandleInterruptSync else none) 0x41000000

/-- The first job makes a system call that waits for the disk. -/
def waitEvents : List KernelEvent :=
  [.create 0x80000000 0x80002000 (fun _ => 0) 0x41000000, .register, .launch, .svc, waitLoop]

/-- The run up to the wait: FIQ is unmasked at EL1, the scheduler is registered, and the one job
    there is is RUNNING. -/
theorem wait_reached : ∃ tr st order,
    (kernelMachine (jobSlabOf 128 0x41182000)).Run bootState tr st ∧
    tr.map (fun step => step.2.1) = waitEvents ∧
    KernelInv (jobSlabOf 128 0x41182000) st order ∧
    exceptionLevel st.kernel.cpu.pstate = 1 ∧ fiqMasked st.kernel.cpu.pstate = false ∧
    st.kernel.handlers 30 = some .internalHandler ∧
    st.kernel.table.status st.kernel.table.currentJob = .running := by
  obtain ⟨st₁, st₂, st₃, order, h₁, h₂, h₃, i₃, hl₃, -, hh₃, hrun⟩ := first_job_launched
  obtain ⟨st₄, h₄, ht₄, hl₄, hh₄⟩ : ∃ st₄, KernelStep st₃ .svc st₄ ∧
      st₄.kernel.table = st₃.kernel.table ∧ exceptionLevel st₄.kernel.cpu.pstate = 1 ∧
      st₄.kernel.handlers 30 = some .internalHandler :=
    ⟨_, ⟨hl₃, 0x40000400, by decide, rfl⟩, rfl, exceptionLevel_svc, hh₃⟩
  obtain ⟨st₅, h₅, ht₅, hl₅, hm₅, hh₅⟩ : ∃ st₅, KernelStep st₄ waitLoop st₅ ∧
      st₅.kernel.table = st₃.kernel.table ∧ exceptionLevel st₅.kernel.cpu.pstate = 1 ∧
      fiqMasked st₅.kernel.cpu.pstate = false ∧
      st₅.kernel.handlers 30 = some .internalHandler :=
    ⟨_, ⟨hl₄, by decide, by decide, by decide, hh₄.symm, by decide, rfl⟩, ht₄, unmasked_el1.1,
      unmasked_el1.2, rfl⟩
  -- the invariant holds so far: none of these events is a timer interrupt
  obtain ⟨_, i₄⟩ := i₃.step jobSlab_placed h₄ fun he => absurd he (by simp)
  obtain ⟨order, i₅⟩ := i₄.step jobSlab_placed h₅ fun he => absurd he (by simp [waitLoop])
  refine ⟨[(bootState, .create 0x80000000 0x80002000 (fun _ => 0) 0x41000000, st₁),
    (st₁, .register, st₂), (st₂, .launch, st₃), (st₃, .svc, st₄), (st₄, waitLoop, st₅)], st₅, order,
    .cons h₁ (.cons h₂ (.cons h₃ (.cons h₄ (.cons h₅ (.nil _))))), rfl, i₅, hl₅, hm₅, hh₅, ?_⟩
  rw [ht₅]
  exact hrun

/-- The timer interrupt of the wait is not harmless: it is noticed. -/
theorem kernel_timer_disturbs : ∃ tr st st',
    (kernelMachine (jobSlabOf 128 0x41182000)).start bootState ∧
    (kernelMachine (jobSlabOf 128 0x41182000)).Run bootState tr st ∧
    tr.map (fun step => step.2.1) = waitEvents ∧
    (kernelMachine (jobSlabOf 128 0x41182000)).step st .timer st' ∧
    ¬ Unnoticed st.kernel st'.kernel ∧ ¬ TimerHarmless st .timer st' := by
  obtain ⟨tr, st, order, hr, hev, h, hel, hmask, hh, hrun⟩ := wait_reached
  obtain ⟨a, l, rfl⟩ := List.exists_cons_of_ne_nil (h.registered hh)
  obtain ⟨t, -, -, -, hret, -⟩ := timer_returns jobSlab_placed h.ring h.stack hh
    ⟨a, List.mem_cons_self, by rw [← h.ring.current_eq]; exact hrun⟩
  simp only [← takeFiq_eq] at hret
  have hnoticed := h.timer_disturbs jobSlab_placed hel hh hret
  exact ⟨tr, st, ⟨switchTo st.kernel t, st.syscall⟩, bootState_booted, hr, hev,
    ⟨hmask, rfl, hret⟩, hnoticed, fun hharm => hnoticed (hharm.1 rfl hel).toUnnoticed⟩

end TinyKernel
