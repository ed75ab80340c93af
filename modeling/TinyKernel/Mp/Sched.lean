/-
  Timer interrupts and context switches: the FIQ entries of `kernel/exceptions.asm`,
  `exceptions_handle_fiq`, and `kernel/mp/sched.c`.

  On entry the assembly pushes the 31 general registers in pairs, `stp x0, x1` first and
  `stp x30, xzr` last, so that the frame is 32 words with x30 at the bottom.  The C code gets a
  pointer to it and reads the word `30 - i` as register `i`.  Both sides are modelled as written:
  the pushes and pops as lists of register pairs over a raw kernel stack, the C code as word
  accesses to the same memory.  `frameReg` is the layout the assembly really produces, and
  `frameIdx` its inverse.

  The two layouts do not agree: word 31 holds x1, the C code never touches it, and word 1 (the
  zero of xzr) is saved and restored as if it were a register.
-/
import TinyKernel.Mp.Job

namespace TinyKernel

/-- Register numbers are written as numerals. -/
instance neZeroRegs : NeZero 31 := ⟨by decide⟩

/-- The general registers x0 .. x30. -/
abbrev Regs := Fin 31 → Word

/-- A register operand; `none` is xzr. -/
abbrev Reg := Option (Fin 31)

/-! ## Pushing and popping pairs -/

def readReg (x : Regs) : Reg → Word
  | some r => x r
  | none => 0

def writeReg (x : Regs) (v : Word) : Reg → Regs
  | some r => Function.update x r v
  | none => x

/-- A sequence of `stp a, b, [sp, #-16]!`. -/
def stpAll (x : Regs) : List (Reg × Reg) → Nat → Mem → Nat × Mem
  | [], sp, m => (sp, m)
  | (a, b) :: ps, sp, m =>
    stpAll x ps (sp - 16)
      (store64 (store64 m (sp - 16) (readReg x a)) (sp - 16 + 8) (readReg x b))

/-- A sequence of `ldp a, b, [sp], #16`. -/
def ldpAll (m : Mem) : List (Reg × Reg) → Nat → Regs → Nat × Regs
  | [], sp, x => (sp, x)
  | (a, b) :: ps, sp, x =>
    ldpAll m ps (sp + 16) (writeReg (writeReg x (load64 m sp) a) (load64 m (sp + 8)) b)

/-- The pairs that the entry code pushes, in order. -/
def savePairs : List (Reg × Reg) :=
  [(some 0, some 1), (some 2, some 3), (some 4, some 5), (some 6, some 7), (some 8, some 9),
    (some 10, some 11), (some 12, some 13), (some 14, some 15), (some 16, some 17),
    (some 18, some 19), (some 20, some 21), (some 22, some 23), (some 24, some 25),
    (some 26, some 27), (some 28, some 29), (some 30, none)]

/-- The pairs that the exit code pops, in order. -/
def restorePairs : List (Reg × Reg) :=
  [(some 30, none), (some 28, some 29), (some 26, some 27), (some 24, some 25),
    (some 22, some 23), (some 20, some 21), (some 18, some 19), (some 16, some 17),
    (some 14, some 15), (some 12, some 13), (some 10, some 11), (some 8, some 9),
    (some 6, some 7), (some 4, some 5), (some 2, some 3), (some 0, some 1)]

/-! ## The kernel around the scheduler -/

/-- The registers of the processor. -/
structure Cpu where
  x : Regs
  pc : Word
  pstate : Word
  spEl0 : Word
  spEl1 : Nat
  /-- ELR_EL1. -/
  elr : Word
  /-- SPSR_EL1. -/
  spsr : Word

/-- The interrupt handlers that the kernel registers. -/
inductive Handler
  | internalHandler
  | diskHandleInterruptSync
  deriving Repr, DecidableEq

/-- The state the interrupt path works on. -/
structure Kernel where
  cpu : Cpu
  /-- The memory that holds the kernel stack. -/
  stack : Mem
  table : JobTable
  /-- `current_paging_manager`. -/
  pagingManager : Nat
  /-- `exceptions_context_switch_x30`. -/
  contextSwitchX30 : Nat
  /-- `handlers` of the interrupt controller. -/
  handlers : Nat → Option Handler
  /-- How often the timer was reloaded. -/
  timerReloads : Nat

/-- `scheduling_save_context`: ELR_EL1, SP_EL0 and the words 30 .. 0 of the frame. -/
def schedulingSaveContext (k : Kernel) (x30 job : Nat) : Kernel :=
  { k with table := k.table.setJob job fun j =>
      { j with
        pc := k.cpu.elr
        sp := k.cpu.spEl0
        x := fun i => load64 k.stack (x30 + 8 * (30 - i.val)) } }

/-- The loop of `scheduling_restore_context`, up to register `n`. -/
def restoreWords (x30 : Nat) (x : Regs) : Nat → Mem → Mem
  | 0, m => m
  | n + 1, m => store64 (restoreWords x30 x n m) (x30 + 8 * (30 - n)) (x (Fin.ofNat 31 n))

/-- `scheduling_restore_context`. -/
def schedulingRestoreContext (k : Kernel) (x30 job : Nat) : Kernel :=
  { k with
    stack := restoreWords x30 (k.table.jobs job).x 31 k.stack
    cpu := { k.cpu with elr := (k.table.jobs job).pc, spEl0 := (k.table.jobs job).sp } }

/-- `internal_handler`, the timer's handler. -/
def internalHandler (rounds : Nat) (k : Kernel) : Except Fault Kernel := do
  let k := { k with timerReloads := k.timerReloads + 1 }
  let k := schedulingSaveContext k k.contextSwitchX30 k.table.currentJob
  let table ← jobForward rounds k.table
  let k := { k with table := table }
  let k := schedulingRestoreContext k k.contextSwitchX30 k.table.currentJob
  return { k with pagingManager := (k.table.jobs k.table.currentJob).paging }

/-- `exceptions_handle_fiq`, with the acknowledged interrupt number.  The disk's handler does not
    touch this state. -/
def exceptionsHandleFiq (rounds intid x30 : Nat) (k : Kernel) : Except Fault Kernel :=
  let k := if intid = 30 then { k with contextSwitchX30 := x30 } else k
  match k.handlers intid with
  | some .internalHandler => internalHandler rounds k
  | some .diskHandleInterruptSync => .ok k
  | none => .ok k

/-- The hardware's exception entry, then the code at the vector: push, call, pop, `eret`. -/
def fiqVector (rounds intid : Nat) (k : Kernel) : Except Fault Kernel := do
  let (sp, stack) := stpAll k.cpu.x savePairs k.cpu.spEl1 k.stack
  let k ← exceptionsHandleFiq rounds intid sp
    { k with stack := stack
             cpu := { k.cpu with elr := k.cpu.pc, spsr := k.cpu.pstate, spEl1 := sp } }
  let (sp, x) := ldpAll k.stack restorePairs k.cpu.spEl1 k.cpu.x
  return { k with cpu := { k.cpu with x := x, spEl1 := sp, pc := k.cpu.elr, pstate := k.cpu.spsr } }

/-- `loweraa64_fiq`: the interrupt was taken at EL0. -/
def loweraa64Fiq (rounds intid : Nat) (k : Kernel) : Except Fault Kernel := fiqVector rounds intid k

/-- `currentelx_fiq`: the interrupt was taken at EL1.  The code is the same. -/
def currentelxFiq (rounds intid : Nat) (k : Kernel) : Except Fault Kernel :=
  fiqVector rounds intid k

/-- `scheduling_register_routine`. -/
def schedulingRegisterRoutine (k : Kernel) : Kernel :=
  { k with handlers := Function.update k.handlers 30 (some .internalHandler) }

/-! ## The frame -/

/-- The register that word `j` of the frame holds. -/
def frameReg (j : Nat) : Reg :=
  if j % 2 = 0 then some (Fin.ofNat 31 (30 - j))
  else if j = 1 then none
  else some (Fin.ofNat 31 (32 - j))

/-- The word of the frame that holds register `r`. -/
def frameIdx (r : Fin 31) : Nat := if r.val % 2 = 0 then 30 - r.val else 32 - r.val

/-- What word `j` of the frame of a processor with registers `x` is. -/
def frameWord (x : Regs) (j : Nat) : Word := readReg x (frameReg j)

theorem frameIdx_lt (r : Fin 31) : frameIdx r < 32 := by
  unfold frameIdx
  split <;> omega

theorem frameReg_frameIdx : ∀ r : Fin 31, frameReg (frameIdx r) = some r := by decide

theorem frameWord_frameIdx (x : Regs) (r : Fin 31) : frameWord x (frameIdx r) = x r := by
  rw [frameWord, frameReg_frameIdx]
  rfl

/-- Only x1 lies outside the words that the C code saves and restores. -/
theorem frameIdx_le_iff (r : Fin 31) : frameIdx r ≤ 30 ↔ r ≠ 1 := by
  revert r
  decide

/-- Pushing pairs: where they are afterwards, and what is not touched. -/
theorem stpAll_spec (x : Regs) : ∀ (ps : List (Reg × Reg)) (sp : Nat) (m : Mem),
    16 * ps.length ≤ sp →
    (stpAll x ps sp m).1 = sp - 16 * ps.length ∧
    (∀ k (hk : k < ps.length),
      load64 (stpAll x ps sp m).2 (sp - 16 * (k + 1)) = readReg x ps[k].1 ∧
      load64 (stpAll x ps sp m).2 (sp - 16 * (k + 1) + 8) = readReg x ps[k].2) ∧
    ∀ a, sp ≤ a → (stpAll x ps sp m).2 a = m a := by
  intro ps
  induction ps with
  | nil =>
    intro sp m _
    exact ⟨rfl, fun k hk => absurd hk (Nat.not_lt_zero k), fun _ _ => rfl⟩
  | cons p ps ih =>
    obtain ⟨a, b⟩ := p
    intro sp m hsp
    rw [List.length_cons] at hsp
    obtain ⟨h1, h2, h3⟩ := ih (sp - 16)
      (store64 (store64 m (sp - 16) (readReg x a)) (sp - 16 + 8) (readReg x b)) (by omega)
    refine ⟨?_, ?_, ?_⟩
    · rw [stpAll, h1, List.length_cons]
      omega
    · intro k hk
      rw [stpAll]
      cases k with
      | zero =>
        -- the later pushes are further down
        have hfirst := fun c (hc : sp - 16 ≤ c) => load64_congr fun i _ => h3 (c + i) (by omega)
        constructor
        · rw [show sp - 16 * (0 + 1) = sp - 16 by omega, hfirst _ (Nat.le_refl _),
            load64_store64_disjoint (by omega), load64_store64_same]
          rfl
        · rw [show sp - 16 * (0 + 1) = sp - 16 by omega, hfirst _ (by omega), load64_store64_same]
          rfl
      | succ k =>
        have hk' : k < ps.length := by simpa using hk
        have := h2 k hk'
        rw [show sp - 16 - 16 * (k + 1) = sp - 16 * (k + 1 + 1) by omega] at this
        simpa using this
    · intro c hc
      rw [stpAll, h3 c (by omega), store64_of_disjoint (by omega), store64_of_disjoint (by omega)]

/-- The word from which a sequence of pops loads register `r` last. -/
def popIdx : List (Reg × Reg) → Fin 31 → Option Nat
  | [], _ => none
  | (a, b) :: ps, r =>
    match popIdx ps r with
    | some j => some (j + 2)
    | none => if b = some r then some 1 else if a = some r then some 0 else none

theorem writeReg_apply (x : Regs) (v : Word) (a : Reg) (r : Fin 31) :
    writeReg x v a r = if a = some r then v else x r := by
  cases a with
  | none => rfl
  | some q =>
    by_cases h : r = q
    · subst h; simp [writeReg]
    · have h' : q ≠ r := fun e => h e.symm
      simp [writeReg, Function.update_of_ne h, h']

theorem ldpAll_spec (m : Mem) : ∀ (ps : List (Reg × Reg)) (sp : Nat) (x : Regs),
    (ldpAll m ps sp x).1 = sp + 16 * ps.length ∧
    ∀ r, (ldpAll m ps sp x).2 r = match popIdx ps r with
      | some j => load64 m (sp + 8 * j)
      | none => x r := by
  intro ps
  induction ps with
  | nil =>
    intro sp x
    exact ⟨rfl, fun _ => rfl⟩
  | cons p ps ih =>
    obtain ⟨a, b⟩ := p
    intro sp x
    obtain ⟨h1, h2⟩ := ih (sp + 16)
      (writeReg (writeReg x (load64 m sp) a) (load64 m (sp + 8)) b)
    constructor
    · rw [ldpAll, h1, List.length_cons]
      omega
    · intro r
      rw [ldpAll, h2 r, popIdx]
      cases popIdx ps r with
      | some j =>
        simp only
        rw [show sp + 16 + 8 * j = sp + 8 * (j + 2) by omega]
      | none =>
        simp only [writeReg_apply]
        split
        · rfl
        · split <;> rfl

theorem popIdx_restorePairs : ∀ r : Fin 31, popIdx restorePairs r = some (frameIdx r) := by decide

/-- The pair that word `j` of the frame belongs to, and its half. -/
theorem savePairs_frameReg : ∀ j, j < 32 →
    (if j % 2 = 0 then (savePairs.getD (15 - j / 2) (none, none)).1
      else (savePairs.getD (15 - j / 2) (none, none)).2) = frameReg j := by decide

/-- **The frame after the pushes.** -/
theorem frame_pushed (x : Regs) {sp : Nat} (m : Mem) (hsp : 256 ≤ sp) :
    (stpAll x savePairs sp m).1 = sp - 256 ∧
    ∀ j, j < 32 → load64 (stpAll x savePairs sp m).2 (sp - 256 + 8 * j) = frameWord x j := by
  obtain ⟨h1, h2, -⟩ := stpAll_spec x savePairs sp m hsp
  refine ⟨h1, fun j hj => ?_⟩
  have hlen : 15 - j / 2 < savePairs.length := by
    show _ < 16
    omega
  obtain ⟨hfst, hsnd⟩ := h2 (15 - j / 2) hlen
  have hreg := savePairs_frameReg j hj
  simp only [List.getD_eq_getElem?_getD, List.getElem?_eq_getElem hlen, Option.getD_some] at hreg
  rw [frameWord, ← hreg]
  by_cases hpar : j % 2 = 0
  · have haddr : sp - 256 + 8 * j = sp - 16 * (15 - j / 2 + 1) := by omega
    rw [if_pos hpar, ← hfst, haddr]
  · have haddr : sp - 256 + 8 * j = sp - 16 * (15 - j / 2 + 1) + 8 := by omega
    rw [if_neg hpar, ← hsnd, haddr]

/-- **The registers after the pops.** -/
theorem frame_popped (x : Regs) (sp : Nat) (m : Mem) :
    (ldpAll m restorePairs sp x).1 = sp + 256 ∧
    ∀ r, (ldpAll m restorePairs sp x).2 r = load64 m (sp + 8 * frameIdx r) := by
  obtain ⟨h1, h2⟩ := ldpAll_spec m restorePairs sp x
  refine ⟨h1, fun r => ?_⟩
  rw [h2 r, popIdx_restorePairs]

/-- What the restore loop writes: words 30 down to `31 - n`, and nothing else. -/
theorem restoreWords_load (x30 : Nat) (x : Regs) (m : Mem) : ∀ (n : Nat), n ≤ 31 → ∀ j, j < 32 →
    load64 (restoreWords x30 x n m) (x30 + 8 * j)
      = if 31 - n ≤ j ∧ j ≤ 30 then x (Fin.ofNat 31 (30 - j)) else load64 m (x30 + 8 * j) := by
  intro n
  induction n with
  | zero =>
    intro _ j _
    rw [restoreWords, if_neg (by omega)]
  | succ n ih =>
    intro hn j hj
    rw [restoreWords]
    by_cases hjn : j = 30 - n
    · rw [hjn, load64_store64_same, if_pos (by omega), show 30 - (30 - n) = n by omega]
    · rw [load64_store64_disjoint (by omega), ih (by omega) j hj]
      by_cases hin : 31 - n ≤ j ∧ j ≤ 30
      · rw [if_pos hin, if_pos (by omega)]
      · rw [if_neg hin, if_neg (by omega)]

/-! ## A timer interrupt as one step -/

/-- The job table after `scheduling_save_context`: the interrupted context goes to the current
    job, register by register as the C code sees the frame. -/
def savedTable (t : JobTable) (c : Cpu) : JobTable :=
  t.setJob t.currentJob fun j =>
    { j with pc := c.pc, sp := c.spEl0, x := fun i => frameWord c.x (30 - i.val) }

/-- The register file with which the context of `job` is resumed on top of the registers `x`. -/
def resumedRegs (x : Regs) (job : Job) : Regs := fun r =>
  if r = 1 then x 1 else job.x (Fin.ofNat 31 (30 - frameIdx r))

/-- The kernel after a timer interrupt that left the job table `t`. -/
def switchTo (k : Kernel) (t : JobTable) : Kernel where
  cpu :=
    { x := resumedRegs k.cpu.x (t.jobs t.currentJob)
      pc := (t.jobs t.currentJob).pc
      pstate := k.cpu.pstate
      spEl0 := (t.jobs t.currentJob).sp
      spEl1 := k.cpu.spEl1
      elr := (t.jobs t.currentJob).pc
      spsr := k.cpu.pstate }
  stack := restoreWords (k.cpu.spEl1 - 256) (t.jobs t.currentJob).x 31
    (stpAll k.cpu.x savePairs k.cpu.spEl1 k.stack).2
  table := t
  pagingManager := (t.jobs t.currentJob).paging
  contextSwitchX30 := k.cpu.spEl1 - 256
  handlers := k.handlers
  timerReloads := k.timerReloads + 1

variable {k : Kernel} {rounds : Nat}

/-- The registers popped from a frame that the restore loop went over. -/
theorem frame_restored (x y : Regs) (job : Job) {sp : Nat} (m : Mem) (hsp : 256 ≤ sp) :
    (ldpAll (restoreWords (sp - 256) job.x 31 (stpAll x savePairs sp m).2) restorePairs
      (sp - 256) y).2 = resumedRegs x job := by
  obtain ⟨-, hpush⟩ := frame_pushed x m hsp
  obtain ⟨-, hpop⟩ := frame_popped y (sp - 256)
    (restoreWords (sp - 256) job.x 31 (stpAll x savePairs sp m).2)
  funext r
  rw [hpop r, restoreWords_load _ _ _ 31 (Nat.le_refl _) _ (frameIdx_lt r), resumedRegs]
  by_cases hr : r = 1
  · -- word 31 is out of reach of the C code
    rw [if_pos hr, if_neg (by rw [hr]; decide), hpush _ (frameIdx_lt r), frameWord_frameIdx, hr]
  · have hle := (frameIdx_le_iff r).mpr hr
    rw [if_neg hr, if_pos ⟨by omega, hle⟩]

/-- The registers popped from a frame that nobody touched. -/
theorem frame_untouched (x y : Regs) {sp : Nat} (m : Mem) (hsp : 256 ≤ sp) :
    (ldpAll (stpAll x savePairs sp m).2 restorePairs (sp - 256) y).2 = x := by
  obtain ⟨-, hpush⟩ := frame_pushed x m hsp
  obtain ⟨-, hpop⟩ := frame_popped y (sp - 256) (stpAll x savePairs sp m).2
  funext r
  rw [hpop r, hpush _ (frameIdx_lt r), frameWord_frameIdx]

/-- **A timer interrupt**, with the scheduler registered: save, forward, resume. -/
theorem fiqVector_timer (hsp : 256 ≤ k.cpu.spEl1) (hh : k.handlers 30 = some .internalHandler) :
    fiqVector rounds 30 k
      = (jobForward rounds (savedTable k.table k.cpu)).map (switchTo k) := by
  obtain ⟨hpush, hword⟩ := frame_pushed k.cpu.x k.stack hsp
  -- the words that `scheduling_save_context` reads
  have hx : (fun i : Fin 31 => load64 (stpAll k.cpu.x savePairs k.cpu.spEl1 k.stack).2
      (k.cpu.spEl1 - 256 + 8 * (30 - i.val))) = fun i => frameWord k.cpu.x (30 - i.val) :=
    funext fun i => hword (30 - i.val) (by omega)
  simp only [fiqVector, exceptionsHandleFiq, if_true, hh, internalHandler,
    schedulingSaveContext, hpush, hx]
  rw [← savedTable]
  cases hf : jobForward rounds (savedTable k.table k.cpu) with
  | error e => rfl
  | ok t =>
    have hpop := (frame_popped k.cpu.x (k.cpu.spEl1 - 256) (restoreWords (k.cpu.spEl1 - 256)
      (t.jobs t.currentJob).x 31 (stpAll k.cpu.x savePairs k.cpu.spEl1 k.stack).2)).1
    have hregs := frame_restored k.cpu.x k.cpu.x (t.jobs t.currentJob) k.stack hsp
    rw [Nat.sub_add_cancel hsp] at hpop
    simp only [ok_bind, schedulingRestoreContext, Except.map, pure, Except.pure, hpop, hregs]
    rfl

/-- `exceptions_handle_fiq` for an interrupt that is not the scheduler's. -/
theorem exceptionsHandleFiq_unhandled {intid : Nat} (x30 : Nat)
    (hh : k.handlers intid ≠ some .internalHandler) :
    exceptionsHandleFiq rounds intid x30 k = .ok { k with
      contextSwitchX30 := if intid = 30 then x30 else k.contextSwitchX30 } := by
  have hk : (if intid = 30 then { k with contextSwitchX30 := x30 } else k)
      = { k with contextSwitchX30 := if intid = 30 then x30 else k.contextSwitchX30 } := by
    split <;> rfl
  rw [exceptionsHandleFiq, hk]
  cases hcase : k.handlers intid with
  | none => rfl
  | some h =>
    cases h with
    | internalHandler => exact absurd hcase hh
    | diskHandleInterruptSync => rfl

/-- An interrupt that does not reach the scheduler changes nothing the jobs depend on. -/
theorem fiqVector_unhandled {intid : Nat} (hsp : 256 ≤ k.cpu.spEl1)
    (hh : k.handlers intid ≠ some .internalHandler) :
    ∃ stack x30, ∀ rounds, fiqVector rounds intid k = .ok { k with
      stack := stack, contextSwitchX30 := x30
      cpu := { k.cpu with elr := k.cpu.pc, spsr := k.cpu.pstate } } := by
  obtain ⟨hpush, -⟩ := frame_pushed k.cpu.x k.stack hsp
  have hpop := (frame_popped k.cpu.x (k.cpu.spEl1 - 256)
    (stpAll k.cpu.x savePairs k.cpu.spEl1 k.stack).2).1
  have hregs := frame_untouched k.cpu.x k.cpu.x k.stack hsp
  rw [Nat.sub_add_cancel hsp] at hpop
  refine ⟨(stpAll k.cpu.x savePairs k.cpu.spEl1 k.stack).2,
    if intid = 30 then k.cpu.spEl1 - 256 else k.contextSwitchX30, fun rounds => ?_⟩
  simp only [fiqVector, hpush]
  rw [exceptionsHandleFiq_unhandled]
  · simp only [ok_bind, hpop, hregs]
    rfl
  · exact hh

end TinyKernel
