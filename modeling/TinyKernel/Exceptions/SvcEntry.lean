/-
  System calls as the program that makes them sees them: `loweraa64_svc` of `kernel/exceptions.asm`
  around `exceptions_distributor` and `exceptions_handle_syscall`.

  The assembly pushes the registers of the caller, hands a pointer to the frame to the C code, and
  pops them.  The C code takes the argument from word 30 of the frame, `REG(0)`, and stores the
  answer there.  ELR_EL1 and SPSR_EL1 are read before the call and written back behind it: the disk
  is waited for with interrupts unmasked, and an interrupt overwrites both.  What compiled code
  leaves in the registers, and on the stack below the frame, is not known (`Leftover`).

  So the caller finds everything as it was, but for x0: that is what the clobber lists of
  `userspace/sys.c` say, and `svc_abi` says it of every system call.
-/
import TinyKernel.Exceptions.Distributor
import TinyKernel.Mp.Sched

namespace TinyKernel

/-! ## The source -/

/-- The processor, the kernel stack, and the rest of the kernel. -/
structure Entered (σ : Type) where
  cpu : Cpu
  stack : Mem
  rest : σ

/-- What the C code leaves behind: its registers, its part of the stack, and what an interrupt during
    the call left in ELR_EL1 and SPSR_EL1. -/
structure Leftover where
  x : Regs
  below : Mem
  elr : Word
  spsr : Word

section Source

variable {σ : Type} (perform : Syscall → Word → σ → Except Fault (Option Word × σ)) (left : Leftover)

/-- A case of `exceptions_handle_syscall`, with what its function does to the rest of the kernel:
    it gets `REG(0)`, and says what it stores there, if anything. -/
def syscallCase (x30 : Nat) (call : Syscall) (s : Entered σ) : Except Fault (Entered σ) := do
  let lr := s.cpu.elr
  let spsr := s.cpu.spsr
  let (answer, rest) ← perform call (load64 s.stack (x30 + 8 * 30)) s.rest
  let stack := match answer with
    | some v => store64 s.stack (x30 + 8 * 30) v
    | none => s.stack
  let cpu := { s.cpu with elr := left.elr, spsr := left.spsr }
  -- `exit`
  return ⟨{ cpu with elr := lr, spsr := spsr }, stack, rest⟩

/-- The hardware's exception entry, then `loweraa64_svc`: push, call, pop, `eret`. -/
def loweraa64Svc (esr : Word) (res : BitVec 32) (s : Entered σ) :
    Except Fault (ExceptionEnd (Entered σ)) := do
  let (sp, stack) := stpAll s.cpu.x savePairs s.cpu.spEl1 s.stack
  let cpu := { s.cpu with elr := s.cpu.pc, spsr := s.cpu.pstate, spEl1 := sp }
  match ← (exceptionsDistributor (syscallCase perform left sp) esr ⟨cpu, stack, s.rest⟩ res).2 with
  | .hangs s => return .hangs s
  | .returns s =>
    let stack := fun a => if a < sp then left.below a else s.stack a
    let (sp, x) := ldpAll stack restorePairs sp left.x
    let cpu := { s.cpu with x := x, spEl1 := sp, pc := s.cpu.elr, pstate := s.cpu.spsr }
    return .returns ⟨cpu, stack, s.rest⟩

end Source

/-! ## What comes back -/

/-- The exception class is one of those that lead to `exceptions_handle_syscall`. -/
def ReachesSvc (esr : Word) : Prop :=
  exceptionClass esr = esrEcDatabtSame ∨ exceptionClass esr = esrEcDatabtLower ∨
    exceptionClass esr = esrEcSvc64

/-- The exception returns: a call was performed with this argument, or a number that is not known
    went for handled. -/
inductive CallReturns {σ : Type} (perform : Syscall → Word → σ → Except Fault (Option Word × σ))
    (esr : Word) (res : BitVec 32) (x0 : Word) (st : σ) : Option Word → σ → Prop
  | call {c : Syscall} {answer : Option Word} {st' : σ} (reaches : ReachesSvc esr)
      (number : syscallOf (esr.setWidth 16) = some c) (performed : perform c x0 st = .ok (answer, st')) :
      CallReturns perform esr res x0 st answer st'
  | unknown (reaches : ReachesSvc esr) (number : syscallOf (esr.setWidth 16) = none)
      (stale : res ≠ 0) : CallReturns perform esr res x0 st none st

/-- The frame with the answer in it. -/
def answeredFrame (frame : Mem) (x30 : Nat) (answer : Option Word) : Mem :=
  match answer with
  | some v => store64 frame (x30 + 8 * 30) v
  | none => frame

/-- The caller goes on, with the answer in x0. -/
def resumedCaller (c : Cpu) (answer : Option Word) : Cpu :=
  { c with x := Function.update c.x 0 (answer.getD (c.x 0)), elr := c.pc, spsr := c.pstate }

section Abi

variable {σ : Type} {perform : Syscall → Word → σ → Except Fault (Option Word × σ)}
  {left : Leftover} {esr : Word} {res : BitVec 32}

theorem CallReturns.of_some {x0 : Word} {st st' : σ} {answer : Option Word}
    (h : CallReturns perform esr res x0 st answer st') {c : Syscall}
    (hc : syscallOf (esr.setWidth 16) = some c) : perform c x0 st = .ok (answer, st') := by
  cases h with
  | call _ number performed =>
    obtain rfl := Option.some.inj (number.symm.trans hc)
    exact performed
  | unknown _ number => exact absurd (number.symm.trans hc) nofun

theorem CallReturns.of_none {x0 : Word} {st st' : σ} {answer : Option Word}
    (h : CallReturns perform esr res x0 st answer st') (hc : syscallOf (esr.setWidth 16) = none) :
    answer = none ∧ st' = st := by
  cases h with
  | call _ number => exact absurd (number.symm.trans hc) nofun
  | unknown => exact ⟨rfl, rfl⟩

/-- The case of the supervisor call .. -/
theorem caseSvc64_returns {τ : Type} {call : Syscall → τ → Except Fault τ} {st st' : τ} :
    (caseSvc64 call esr st res).2 = .ok (.returns st') ↔
      (∃ c, syscallOf (esr.setWidth 16) = some c ∧ call c st = .ok st') ∨
      (syscallOf (esr.setWidth 16) = none ∧ res ≠ 0 ∧ st' = st) := by
  cases hnumber : syscallOf (esr.setWidth 16) with
  | some c =>
    simp only [caseSvc64, exceptionsHandleSyscall, hnumber]
    cases hcall : call c st with
    | error e => simp [Except.map, hcall]
    | ok st₁ => simp [Except.map, hcall]
  | none =>
    simp only [caseSvc64, exceptionsHandleSyscall, hnumber]
    by_cases hres : res = 0
    · rw [decide_eq_false (not_not.mpr hres)]
      constructor
      · intro h
        cases h
      · rintro (⟨c, hc, -⟩ | ⟨-, hne, -⟩)
        · cases hc
        · exact absurd hres hne
    · rw [decide_eq_true hres]
      constructor
      · intro h
        cases h
        exact Or.inr ⟨trivial, hres, rfl⟩
      · rintro (⟨c, hc, -⟩ | ⟨-, -, rfl⟩)
        · cases hc
        · rfl

/-- .. and the classes from which it is reached. -/
theorem exceptionsDistributor_returns {τ : Type} {call : Syscall → τ → Except Fault τ} {st st' : τ} :
    (exceptionsDistributor call esr st res).2 = .ok (.returns st') ↔
      ReachesSvc esr ∧ (caseSvc64 call esr st res).2 = .ok (.returns st') := by
  unfold exceptionsDistributor ReachesSvc
  by_cases hsame : exceptionClass esr = esrEcDatabtSame
  · simp [hsame]
  by_cases hlower : exceptionClass esr = esrEcDatabtLower
  · rw [if_neg hsame, if_pos hlower]
    simp [hlower]
  by_cases hsvc : exceptionClass esr = esrEcSvc64
  · rw [if_neg hsame, if_neg hlower, if_pos hsvc]
    simp [hsvc]
  · rw [if_neg hsame, if_neg hlower, if_neg hsvc]
    simp [hsame, hlower, hsvc]

/-- The word of a frame that holds a register, after the answer was stored. -/
theorem answeredFrame_load (x : Regs) {sp : Nat} (m : Mem) (hsp : 256 ≤ sp) (answer : Option Word)
    (r : Fin 31) :
    load64 (answeredFrame (stpAll x savePairs sp m).2 (sp - 256) answer) (sp - 256 + 8 * frameIdx r)
      = Function.update x 0 (answer.getD (x 0)) r := by
  obtain ⟨-, hpush⟩ := frame_pushed x m hsp
  have hword := hpush _ (frameIdx_lt r)
  rw [frameWord_frameIdx] at hword
  cases answer with
  | none =>
    rw [Option.getD_none, Function.update_eq_self]
    exact hword
  | some v =>
    by_cases hr : r = 0
    · subst hr
      rw [Function.update_self]
      exact load64_store64_same ..
    · have hidx : ∀ r : Fin 31, r ≠ 0 → frameIdx r ≠ 30 := by decide
      have hne := hidx r hr
      rw [Function.update_of_ne hr, ← hword]
      exact load64_store64_disjoint (by omega)

/-- What the pops load. -/
theorem answeredFrame_popped (x y : Regs) {sp : Nat} (m below : Mem) (hsp : 256 ≤ sp)
    (answer : Option Word) :
    ldpAll (fun a => if a < sp - 256 then below a
        else answeredFrame (stpAll x savePairs sp m).2 (sp - 256) answer a) restorePairs (sp - 256) y
      = (sp, Function.update x 0 (answer.getD (x 0))) := by
  obtain ⟨h1, h2⟩ := frame_popped y (sp - 256) fun a => if a < sp - 256 then below a
    else answeredFrame (stpAll x savePairs sp m).2 (sp - 256) answer a
  rw [Nat.sub_add_cancel hsp] at h1
  refine Prod.ext h1 (funext fun r => ?_)
  rw [h2 r]
  refine Eq.trans ?_ (answeredFrame_load x m hsp answer r)
  -- the frame lies above what the C code overwrites
  exact load64_congr fun i _ => if_neg (by omega)

/-- A case that returns. -/
theorem syscallCase_returns {call : Syscall} {c : Cpu} {frame : Mem} {rest : σ} {x30 : Nat}
    {t : Entered σ} : syscallCase perform left x30 call ⟨c, frame, rest⟩ = .ok t ↔
      ∃ answer, perform call (load64 frame (x30 + 8 * 30)) rest = .ok (answer, t.rest) ∧ t.cpu = c ∧
        t.stack = answeredFrame frame x30 answer := by
  unfold syscallCase
  simp only
  constructor
  · intro h
    obtain ⟨⟨answer, rest'⟩, hperform, h⟩ := bind_eq_ok h
    obtain rfl := Except.ok.inj h
    refine ⟨answer, hperform, rfl, ?_⟩
    cases answer with
    | none => rfl
    | some v => rfl
  · rintro ⟨answer, hperform, hcpu, hstack⟩
    obtain ⟨cpu, stack, rest'⟩ := t
    obtain rfl : cpu = c := hcpu
    obtain rfl : stack = answeredFrame frame x30 answer := hstack
    rw [hperform, ok_bind]
    cases answer with
    | none => rfl
    | some v => rfl

/-- The C code, when it returns to the assembly. -/
theorem distributor_returns {c : Cpu} {frame : Mem} {rest : σ} {x30 : Nat} {t : Entered σ} :
    (exceptionsDistributor (syscallCase perform left x30) esr ⟨c, frame, rest⟩ res).2
      = .ok (.returns t) ↔
      ∃ answer, CallReturns perform esr res (load64 frame (x30 + 8 * 30)) rest answer t.rest ∧
        t.cpu = c ∧ t.stack = answeredFrame frame x30 answer := by
  rw [exceptionsDistributor_returns, caseSvc64_returns]
  constructor
  · rintro ⟨hreaches, ⟨call, hcall, hcase⟩ | ⟨hcall, hres, rfl⟩⟩
    · obtain ⟨answer, hperform, hrest⟩ := syscallCase_returns.mp hcase
      exact ⟨answer, .call hreaches hcall hperform, hrest⟩
    · exact ⟨none, .unknown hreaches hcall hres, rfl, rfl⟩
  · obtain ⟨cpu, stack, rest'⟩ := t
    rintro ⟨answer, hreturns, rfl, rfl⟩
    refine ⟨?_, ?_⟩
    · cases hreturns with
      | call hreaches _ _ => exact hreaches
      | unknown hreaches _ _ => exact hreaches
    · cases hreturns with
      | call _ hcall hperform =>
        exact Or.inl ⟨_, hcall, syscallCase_returns.mpr ⟨answer, hperform, rfl, rfl⟩⟩
      | unknown _ hcall hres => exact Or.inr ⟨hcall, hres, rfl⟩

/-- The whole entry: the state in which it returns. -/
theorem loweraa64Svc_returns {s s' : Entered σ} (hsp : 256 ≤ s.cpu.spEl1) :
    loweraa64Svc perform left esr res s = .ok (.returns s') ↔
      ∃ answer, CallReturns perform esr res (s.cpu.x 0) s.rest answer s'.rest ∧
        s'.cpu = resumedCaller s.cpu answer ∧
        s'.stack = fun a => if a < s.cpu.spEl1 - 256 then left.below a
          else answeredFrame (stpAll s.cpu.x savePairs s.cpu.spEl1 s.stack).2 (s.cpu.spEl1 - 256)
            answer a := by
  obtain ⟨hpush, hword⟩ := frame_pushed s.cpu.x s.stack hsp
  have hx0 : load64 (stpAll s.cpu.x savePairs s.cpu.spEl1 s.stack).2 (s.cpu.spEl1 - 256 + 8 * 30)
      = s.cpu.x 0 := (hword 30 (by decide)).trans (frameWord_frameIdx s.cpu.x 0)
  have hpop := fun answer => answeredFrame_popped s.cpu.x left.x s.stack left.below hsp answer
  unfold loweraa64Svc
  simp only [hpush]
  generalize (stpAll s.cpu.x savePairs s.cpu.spEl1 s.stack).2 = frame at hx0 hpop ⊢
  generalize s.cpu.spEl1 - 256 = x30 at hx0 hpop ⊢
  rw [← hx0]
  constructor
  · intro h
    obtain ⟨t, hreturns, h⟩ := bind_eq_ok h
    cases t with
    | hangs t => cases h
    | returns t =>
      obtain ⟨answer, hcall, hcpu, hstack⟩ := distributor_returns.mp hreturns
      simp only [hstack, hcpu, hpop] at h
      cases h
      exact ⟨answer, hcall, rfl, rfl⟩
  · obtain ⟨cpu, stack, rest⟩ := s'
    rintro ⟨answer, hcall, rfl, rfl⟩
    have hreturns : (exceptionsDistributor (syscallCase perform left x30) esr
        ⟨{ s.cpu with elr := s.cpu.pc, spsr := s.cpu.pstate, spEl1 := x30 }, frame, s.rest⟩ res).2
          = .ok (.returns ⟨_, answeredFrame frame x30 answer, rest⟩) :=
      distributor_returns.mpr ⟨answer, hcall, rfl, rfl⟩
    rw [hreturns, ok_bind]
    simp only [hpop]
    rfl

/-- **The system call interface.**  Whatever the calls do, whatever the syndrome is, and whatever
    the C code leaves behind: an exception returns to the program exactly if its call returns, which
    got the x0 of the program.  The program then has all its registers, its program counter, its
    stack pointer and its processor state as they were, but for the answer in x0; and of the kernel
    stack nothing has changed at or above where it was.  The registers are x0 to x30; those of the
    floating point unit are not part of the model, and the vectors do not save them. -/
theorem svc_abi {s : Entered σ} (hsp : 256 ≤ s.cpu.spEl1) :
    (∀ answer rest, CallReturns perform esr res (s.cpu.x 0) s.rest answer rest →
      ∃ s', loweraa64Svc perform left esr res s = .ok (.returns s') ∧ s'.rest = rest) ∧
    ∀ s', loweraa64Svc perform left esr res s = .ok (.returns s') →
      (∃ answer, CallReturns perform esr res (s.cpu.x 0) s.rest answer s'.rest ∧
        s'.cpu = resumedCaller s.cpu answer) ∧
      ∀ a, s.cpu.spEl1 ≤ a → s'.stack a = s.stack a := by
  constructor
  · intro answer rest hcall
    obtain ⟨stack, hstack⟩ : ∃ stack : Mem, stack = fun a => if a < s.cpu.spEl1 - 256 then left.below a
      else answeredFrame (stpAll s.cpu.x savePairs s.cpu.spEl1 s.stack).2 (s.cpu.spEl1 - 256)
        answer a := ⟨_, rfl⟩
    exact ⟨⟨resumedCaller s.cpu answer, stack, rest⟩,
      (loweraa64Svc_returns hsp).mpr ⟨answer, hcall, rfl, hstack⟩, rfl⟩
  · intro s' hret
    obtain ⟨answer, hcall, hcpu, hstack⟩ := (loweraa64Svc_returns hsp).mp hret
    refine ⟨⟨answer, hcall, hcpu⟩, fun a ha => ?_⟩
    obtain ⟨-, -, hpush⟩ := stpAll_spec s.cpu.x savePairs s.cpu.spEl1 s.stack hsp
    have hout : ¬ a < s.cpu.spEl1 - 256 := by omega
    simp only [hstack, if_neg hout]
    rw [← hpush a ha]
    cases answer with
    | none => rfl
    | some v => exact store64_of_disjoint (by omega)

end Abi

/-- `open` answers 3: the caller finds it in x0, and x1 as it was. -/
theorem svc_abi_open : ∃ s' : Entered Unit,
    loweraa64Svc (fun _ _ st => .ok (some 3, st)) ⟨fun _ => 9, fun _ => 9, 9, 9⟩ 0x56000014 0
      ⟨⟨fun _ => 5, 0x80000100, 0, 0x80002000, 0x41001000, 0, 0⟩, fun _ => 0, ()⟩ = .ok (.returns s') ∧
    s'.cpu.x 0 = 3 ∧ s'.cpu.x 1 = 5 ∧ s'.cpu.pc = 0x80000100 := by
  have hcall : CallReturns (fun _ _ st => .ok (some 3, st)) 0x56000014 0 5 () (some 3) () :=
    .call (c := .open) (Or.inr (Or.inr (by decide))) (by decide) rfl
  obtain ⟨hreturns, habi⟩ := @svc_abi Unit (fun _ _ st => .ok (some 3, st))
    ⟨fun _ => 9, fun _ => 9, 9, 9⟩ 0x56000014 0
    ⟨⟨fun _ => 5, 0x80000100, 0, 0x80002000, 0x41001000, 0, 0⟩, fun _ => 0, ()⟩ (by decide)
  obtain ⟨s', hret, -⟩ := hreturns _ _ hcall
  obtain ⟨⟨answer, hanswer, hcpu⟩, -⟩ := habi s' hret
  refine ⟨s', hret, ?_, ?_, ?_⟩
  · generalize s'.rest = rest at hanswer
    cases hanswer with
    | call _ _ hperform =>
      obtain ⟨rfl, -⟩ := Prod.mk.inj (Except.ok.inj hperform)
      rw [hcpu]
      rfl
    | unknown _ hnone => exact absurd hnone (by decide)
  · rw [hcpu]
    rfl
  · rw [hcpu]
    rfl

end TinyKernel
