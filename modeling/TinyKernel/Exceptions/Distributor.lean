/-
  The dispatch of synchronous exceptions, `exceptions_distributor`.

  The cases of the two data aborts have no `break`: after their message they run into the case of the
  supervisor call, which takes the low 16 bits of the syndrome for the number of a system call.  And
  `exceptions_handle_syscall` returns `res`, which it sets only for the numbers it knows; for any other
  it is what the stack held.

  What the system calls do to the kernel is a parameter; an exception is described by what it causes
  (`ExceptionAction`) and by whether it returns to the interrupted code.
-/
import TinyKernel.Lib.Bytes
import TinyKernel.Lib.CInt

namespace TinyKernel

/-! ## The source -/

/-- The cases of `exceptions_handle_syscall`. -/
inductive Syscall
  | terminate
  | log
  | open
  | get
  | spawn
  deriving Repr, DecidableEq

/-- `switch (imm)`. -/
def syscallOf (imm : BitVec 16) : Option Syscall :=
  if imm = 10 then some .terminate
  else if imm = 11 then some .log
  else if imm = 20 then some .open
  else if imm = 21 then some .get
  else if imm = 22 then some .spawn
  else none

/-- What the handler of an exception does, in order. -/
inductive ExceptionAction
  /-- "Data abort from same EL". -/
  | dataAbortSame
  /-- "Data abort from lower EL". -/
  | dataAbortLower
  | syscall (call : Syscall)
  /-- "Unhandled syscall (imm=%q)". -/
  | unhandledSyscall (imm : BitVec 16)
  /-- "Unhandled exception (esr=0x%x)", and the endless loop. -/
  | unhandledException (esr : Word)
  deriving Repr, DecidableEq

/-- How the handler ends. -/
inductive ExceptionEnd (σ : Type)
  /-- It returns to the interrupted code. -/
  | returns (st : σ)
  /-- `while (1)`. -/
  | hangs (st : σ)

section Source

variable {σ : Type} (perform : Syscall → σ → Except Fault σ)

/-- `exceptions_handle_syscall`: the calls it makes, and the result.  `res` is what the stack holds
    where the variable lies; converted to `bool` it is whether it differs from 0. -/
def exceptionsHandleSyscall (imm : BitVec 16) (st : σ) (res : BitVec 32) :
    List ExceptionAction × Except Fault (Bool × σ) :=
  match syscallOf imm with
  | some call => ([.syscall call], (perform call st).map fun st => (true, st))
  | none => ([], .ok (decide (res ≠ 0), st))

/-- `case ESR_EC_SVC64`, and `default` behind it. -/
def caseSvc64 (esr : Word) (st : σ) (res : BitVec 32) :
    List ExceptionAction × Except Fault (ExceptionEnd σ) :=
  let imm16 := esr.setWidth 16
  let (actions, result) := exceptionsHandleSyscall perform imm16 st res
  match result with
  | .error e => (actions, .error e)
  | .ok (true, st) => (actions, .ok (.returns st))
  | .ok (false, st) =>
    (actions ++ [.unhandledSyscall imm16, .unhandledException esr], .ok (.hangs st))

/-- `ec`, the exception class. -/
def exceptionClass (esr : Word) : Word := (esr >>> 26) &&& 0x3f

/-- `ESR_EC_SVC64`, `ESR_EC_DATABT_LOWER` and `ESR_EC_DATABT_SAME`. -/
def esrEcSvc64 : Word := 0b010101
def esrEcDatabtLower : Word := 0b100100
def esrEcDatabtSame : Word := 0b100101

/-- `exceptions_distributor`. -/
def exceptionsDistributor (esr : Word) (st : σ) (res : BitVec 32) :
    List ExceptionAction × Except Fault (ExceptionEnd σ) :=
  if exceptionClass esr = esrEcDatabtSame then
    -- no `break`
    let (actions, result) := caseSvc64 perform esr st res
    (.dataAbortSame :: .dataAbortLower :: actions, result)
  else if exceptionClass esr = esrEcDatabtLower then
    -- no `break`
    let (actions, result) := caseSvc64 perform esr st res
    (.dataAbortLower :: actions, result)
  else if exceptionClass esr = esrEcSvc64 then caseSvc64 perform esr st res
  else ([.unhandledException esr], .ok (.hangs st))

end Source

/-! ## What an exception may do -/

/-- No system call is performed and the interrupted code does not run on: the exception is reported
    as unhandled, and the kernel stays as it is. -/
structure Unhandled {σ : Type} (esr : Word) (st : σ)
    (outcome : List ExceptionAction × Except Fault (ExceptionEnd σ)) : Prop where
  noCall : ∀ call, ExceptionAction.syscall call ∉ outcome.1
  reported : ExceptionAction.unhandledException esr ∈ outcome.1
  hangs : outcome.2 = .ok (.hangs st)

/-- Whatever the system calls do, the state of the kernel is and the stack holds: only a supervisor
    call performs a system call, and only with one of the five numbers. -/
structure OnlySvcCalls (esr : Word) : Prop where
  other : exceptionClass esr ≠ esrEcSvc64 →
    ∀ (σ : Type) (perform : Syscall → σ → Except Fault σ) (st : σ) (res : BitVec 32),
      Unhandled esr st (exceptionsDistributor perform esr st res)
  unknown : exceptionClass esr = esrEcSvc64 → syscallOf (esr.setWidth 16) = none →
    ∀ (σ : Type) (perform : Syscall → σ → Except Fault σ) (st : σ) (res : BitVec 32),
      Unhandled esr st (exceptionsDistributor perform esr st res)

/-- The case of the supervisor call, with a number that it knows .. -/
theorem caseSvc64_some {σ : Type} (perform : Syscall → σ → Except Fault σ) {esr : Word} {st : σ}
    {res : BitVec 32} {call : Syscall} (hcall : syscallOf (esr.setWidth 16) = some call) :
    (caseSvc64 perform esr st res).1 = [.syscall call] := by
  simp only [caseSvc64, exceptionsHandleSyscall, hcall]
  cases perform call st with
  | error e => rfl
  | ok st' => rfl

/-- .. and with another, when the stack held a 1: it counts as handled. -/
theorem caseSvc64_none {σ : Type} (perform : Syscall → σ → Except Fault σ) {esr : Word} {st : σ}
    (hcall : syscallOf (esr.setWidth 16) = none) :
    caseSvc64 perform esr st 1 = ([], .ok (.returns st)) := by
  simp only [caseSvc64, exceptionsHandleSyscall, hcall]
  rfl

/-- Behind whatever was reported before, the case of the supervisor call is not the unhandled path:
    some stack makes it call or return. -/
theorem caseSvc64_not_unhandled {σ : Type} (perform : Syscall → σ → Except Fault σ) (esr : Word)
    (st : σ) (before : List ExceptionAction) :
    ¬ Unhandled esr st (before ++ (caseSvc64 perform esr st 1).1, (caseSvc64 perform esr st 1).2) := by
  intro h
  cases hcall : syscallOf (esr.setWidth 16) with
  | some call =>
    refine h.noCall call (List.mem_append_right _ ?_)
    rw [caseSvc64_some perform hcall]
    exact List.mem_singleton_self _
  | none =>
    have hhangs := h.hangs
    rw [caseSvc64_none perform hcall] at hhangs
    cases hhangs

/-- **Only supervisor calls execute system calls** if and only if the exception is no data abort,
    and a supervisor call has one of the five numbers.  The cases of `exceptions_distributor` end
    without `break`, so a data abort goes on to the system calls with what its syndrome has in the
    place of a number; and for a number that is none of the five, `exceptions_handle_syscall`
    returns the local variable that it has not set. -/
theorem only_svc_calls_iff (esr : Word) : OnlySvcCalls esr ↔
    exceptionClass esr ≠ esrEcDatabtSame ∧ exceptionClass esr ≠ esrEcDatabtLower ∧
      (exceptionClass esr = esrEcSvc64 → (syscallOf (esr.setWidth 16)).isSome = true) := by
  have hsame : esrEcDatabtSame ≠ esrEcSvc64 ∧ esrEcDatabtLower ≠ esrEcSvc64 ∧
      esrEcDatabtLower ≠ esrEcDatabtSame := by decide
  constructor
  · intro h
    refine ⟨fun hclass => ?_, fun hclass => ?_, fun hclass => ?_⟩
    · have hdata := h.other (by rw [hclass]; exact hsame.1) Unit (fun _ st => .ok st) () 1
      rw [exceptionsDistributor, if_pos hclass] at hdata
      exact caseSvc64_not_unhandled (fun _ st => .ok st) esr ()
        [.dataAbortSame, .dataAbortLower] hdata
    · have hdata := h.other (by rw [hclass]; exact hsame.2.1) Unit (fun _ st => .ok st) () 1
      rw [exceptionsDistributor, if_neg (by rw [hclass]; exact hsame.2.2), if_pos hclass] at hdata
      exact caseSvc64_not_unhandled (fun _ st => .ok st) esr () [.dataAbortLower] hdata
    · cases hcall : syscallOf (esr.setWidth 16) with
      | some call => rfl
      | none =>
        have hsvc := h.unknown hclass hcall Unit (fun _ st => .ok st) () 1
        rw [exceptionsDistributor, if_neg (by rw [hclass]; exact Ne.symm hsame.1),
          if_neg (by rw [hclass]; exact Ne.symm hsame.2.1), if_pos hclass] at hsvc
        exact absurd hsvc (caseSvc64_not_unhandled (fun _ st => .ok st) esr () [])
  · rintro ⟨hnotSame, hnotLower, hknown⟩
    constructor
    · intro hclass σ perform st res
      rw [exceptionsDistributor, if_neg hnotSame, if_neg hnotLower, if_neg hclass]
      constructor
      · intro call hmem
        cases List.mem_singleton.mp hmem
      · exact List.mem_singleton_self _
      · rfl
    · intro hclass hnone
      have hsome := hknown hclass
      rw [hnone] at hsome
      cases hsome

/-- A data abort of a user program, with 10 in the low bits of its syndrome, terminates the job; and
    `svc 0` goes for handled if the stack holds a 1. -/
theorem data_abort_terminates : ¬ OnlySvcCalls 0x9200000a ∧
    (exceptionsDistributor (fun _ st => .ok st) 0x9200000a () 0).1
      = [.dataAbortLower, .syscall .terminate] ∧
    ¬ OnlySvcCalls 0x56000000 := by
  refine ⟨fun h => ?_, by decide, fun h => ?_⟩
  · have hcall := (h.other (by decide) Unit (fun _ st => .ok st) () 0).noCall .terminate
    exact hcall (by decide)
  · have hhangs := (h.unknown (by decide) (by decide) Unit (fun _ st => .ok st) () 1).hangs
    cases hhangs

end TinyKernel
