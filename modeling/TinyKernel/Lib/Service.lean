/-
  Services: an operation is requested, takes effect once at some moment after that, and then its
  answer is returned.

  A `Service` says what its operations do one after the other, `serviceMachine` what a client sees
  that has one of them under way at a time.  The two are the same to the client: the answers of a
  run are those of the operations one after the other (`serviceMachine_replay`).  So a `Client`,
  which makes its calls one by one, does what it would do alone (`Client.Performs.run`).  For cells
  that are read and written as a whole, a read answers what was written last (`replay_get`).
-/
import Mathlib.Data.List.Basic
import TinyKernel.Lib.Machine

namespace TinyKernel

/-- What an operation answers, and what it does to the state. -/
structure Service (S O R : Type) where
  apply : O → S → R × S

/-- How far the operation is that is under way. -/
inductive Pending (O R : Type)
  | nothing
  | requested (o : O)
  | done (o : O) (r : R)

structure ServiceState (S O R : Type) where
  value : S
  pending : Pending O R

inductive ServiceEvent (O R : Type)
  | idle
  | request (o : O)
  | effect
  | answer (o : O) (r : R)

section

variable {S O R : Type} {srv : Service S O R}

/-- One event. -/
def ServiceStep (srv : Service S O R) (s : ServiceState S O R) :
    ServiceEvent O R → ServiceState S O R → Prop
  | .idle, s' => s' = s
  | .request o, s' => s.pending = .nothing ∧ s' = ⟨s.value, .requested o⟩
  | .effect, s' => ∃ o, s.pending = .requested o ∧
      s' = ⟨(srv.apply o s.value).2, .done o (srv.apply o s.value).1⟩
  | .answer o r, s' => s.pending = .done o r ∧ s' = ⟨s.value, .nothing⟩

/-- At first nothing is under way. -/
def serviceMachine (srv : Service S O R) : Machine (ServiceState S O R) (ServiceEvent O R) where
  start := fun s => s.pending = .nothing
  step := ServiceStep srv

/-- The operations that were answered in a run, with the answers. -/
def answers : List (ServiceState S O R × ServiceEvent O R × ServiceState S O R) → List (O × R)
  | [] => []
  | (_, .answer o r, _) :: tr => (o, r) :: answers tr
  | _ :: tr => answers tr

/-- `srv.Replay s h s'`: one after the other, the operations of `h` lead from `s` to `s'` and have
    the answers of `h`. -/
inductive Service.Replay (srv : Service S O R) : S → List (O × R) → S → Prop
  | nil (s : S) : Replay srv s [] s
  | cons {s s' s'' : S} {o : O} {r : R} {h : List (O × R)} (happly : srv.apply o s = (r, s'))
      (hrest : Replay srv s' h s'') : Replay srv s ((o, r) :: h) s''

/-- The state without the effect of an operation that is not yet answered. -/
def Answered (srv : Service S O R) (s : ServiceState S O R) (value : S) : Prop :=
  match s.pending with
  | .nothing | .requested _ => s.value = value
  | .done o r => srv.apply o value = (r, s.value)

theorem answered_nothing {v v' : S} : Answered srv ⟨v, .nothing⟩ v' ↔ v = v' := Iff.rfl

/-- **The replay rule.**  The induction is on the run; what is replayed lags behind by the operation
    under way. -/
theorem serviceMachine_replay {s s' : ServiceState S O R}
    {tr : List (ServiceState S O R × ServiceEvent O R × ServiceState S O R)}
    (hr : (serviceMachine srv).Run s tr s') : ∀ {v}, Answered srv s v →
    ∃ v', srv.Replay v (answers tr) v' ∧ Answered srv s' v' := by
  induction hr with
  | nil s => exact fun {v} h => ⟨v, .nil v, h⟩
  | @cons s t u e tr hstep _ ih =>
    intro v hv
    cases e with
    | idle =>
      obtain rfl := hstep
      exact ih hv
    | request o =>
      obtain ⟨hnothing, rfl⟩ := hstep
      simp only [Answered, hnothing] at hv
      exact ih hv
    | effect =>
      obtain ⟨o, hrequested, rfl⟩ := hstep
      simp only [Answered, hrequested] at hv
      subst hv
      exact ih rfl
    | answer o r =>
      obtain ⟨hdone, rfl⟩ := hstep
      simp only [Answered, hdone] at hv
      obtain ⟨v', hreplay, hafter⟩ := @ih s.value rfl
      exact ⟨v', .cons hv hreplay, hafter⟩

end

/-! ## Clients -/

section Client

variable {S O R A : Type} {srv : Service S O R}

/-- A client: what it does next depends on the answers that it has got. -/
inductive Client (O R A : Type)
  | done (a : A)
  | call (o : O) (next : R → Client O R A)

/-- `c.Performs h a`: with the answers of `h` the client makes its calls and ends with `a`. -/
inductive Client.Performs : Client O R A → List (O × R) → A → Prop
  | done (a : A) : Performs (.done a) [] a
  | call {o : O} {next : R → Client O R A} {r : R} {h : List (O × R)} {a : A}
      (hrest : Performs (next r) h a) : Performs (.call o next) ((o, r) :: h) a

/-- The client, alone on the service. -/
def Client.run (srv : Service S O R) : Client O R A → S → A × S
  | .done a, s => (a, s)
  | .call o next, s => (next (srv.apply o s).1).run srv (srv.apply o s).2

/-- The operations that it calls for, alone on the service. -/
def Client.calls (srv : Service S O R) : Client O R A → S → List O
  | .done _, _ => []
  | .call o next, s => o :: (next (srv.apply o s).1).calls srv (srv.apply o s).2

/-- A client that has got its answers from the service has done what it does alone. -/
theorem Client.Performs.run {c : Client O R A} {h : List (O × R)} {a : A} (hc : c.Performs h a) :
    ∀ {s s' : S}, srv.Replay s h s' → c.run srv s = (a, s') := by
  induction hc with
  | done a =>
    intro s s' hr
    cases hr
    rfl
  | @call o next r h a _ ih =>
    intro s s' hr
    cases hr with
    | @cons _ t _ _ _ _ happly hrest =>
      rw [Client.run, happly]
      exact ih hrest

/-- What is replayed in two parts. -/
theorem Service.Replay.append {h₁ h₂ : List (O × R)} : ∀ {s s' : S}, srv.Replay s (h₁ ++ h₂) s' →
    ∃ t, srv.Replay s h₁ t ∧ srv.Replay t h₂ s' := by
  induction h₁ with
  | nil => exact fun {s s'} hr => ⟨s, .nil s, hr⟩
  | cons x h₁ ih =>
    intro s s' hr
    cases hr with
    | cons happly hrest =>
      obtain ⟨t, hfirst, hsecond⟩ := ih hrest
      exact ⟨t, .cons happly hfirst, hsecond⟩

end Client

/-! ## Cells -/

section Cells

variable {κ V : Type} [DecidableEq κ]

inductive CellOp (κ V : Type)
  | get (k : κ)
  | put (k : κ) (v : V)

/-- Cells that are read and written as a whole. -/
def cells (κ V : Type) [DecidableEq κ] : Service (κ → V) (CellOp κ V) (Option V) where
  apply
    | .get k, s => (some (s k), s)
    | .put k v, s => (none, Function.update s k v)

/-- What was put into a cell last. -/
def lastPut (k : κ) : List (CellOp κ V × Option V) → Option V
  | [] => none
  | (.put k' v, _) :: h => (lastPut k h).or (if k' = k then some v else none)
  | _ :: h => lastPut k h

/-- A cell after a replay. -/
theorem replay_cell {s s' : κ → V} {h : List (CellOp κ V × Option V)}
    (hr : (cells κ V).Replay s h s') (k : κ) : s' k = (lastPut k h).getD (s k) := by
  induction hr with
  | nil s => rfl
  | @cons s t u o r h happly _ ih =>
    cases o with
    | get k' =>
      obtain ⟨-, rfl⟩ := Prod.mk.inj happly
      exact ih
    | put k' v =>
      obtain ⟨-, rfl⟩ := Prod.mk.inj happly
      rw [ih, lastPut]
      by_cases hk : k' = k
      · subst hk
        rw [if_pos rfl, Function.update_self]
        cases lastPut k' h <;> rfl
      · rw [if_neg hk, Function.update_of_ne (Ne.symm hk), Option.or_none]

/-- **A read answers what was written last**, or what was there at first. -/
theorem replay_get {s s' : κ → V} {h : List (CellOp κ V × Option V)}
    (hr : (cells κ V).Replay s h s') : ∀ {i : Nat} {k : κ} {r : Option V},
    h[i]? = some (.get k, r) → r = some ((lastPut k (h.take i)).getD (s k)) := by
  induction hr with
  | nil s => exact fun hi => absurd hi (by simp)
  | @cons s t u o r h happly hrest ih =>
    intro i k r' hi
    cases i with
    | zero =>
      obtain ⟨rfl, rfl⟩ := Prod.mk.inj (Option.some.inj hi)
      exact (Prod.mk.inj happly).1.symm
    | succ i =>
      rw [ih hi, List.take_succ_cons]
      cases o with
      | get k' =>
        obtain ⟨-, rfl⟩ := Prod.mk.inj happly
        rfl
      | put k' v =>
        obtain ⟨-, rfl⟩ := Prod.mk.inj happly
        rw [lastPut]
        by_cases hk : k' = k
        · subst hk
          rw [if_pos rfl, Function.update_self]
          cases lastPut k' (h.take i) <;> rfl
        · rw [if_neg hk, Function.update_of_ne (Ne.symm hk), Option.or_none]

/-- The client only reads. -/
def Client.Reads {A : Type} : Client (CellOp κ V) (Option V) A → Prop
  | .done _ => True
  | .call (.get _) next => ∀ r, (next r).Reads
  | .call (.put _ _) _ => False

/-- A client that only reads leaves the cells as they are. -/
theorem Client.Reads.run {A : Type} {c : Client (CellOp κ V) (Option V) A} {s : κ → V}
    (hc : c.Reads) : (c.run (cells κ V) s).2 = s := by
  induction c with
  | done a => rfl
  | call o next ih =>
    cases o with
    | get k => exact ih _ (hc _)
    | put k v => exact hc.elim

end Cells

end TinyKernel
