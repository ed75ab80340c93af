/-
  Parties that come and go, each with a state of its own: what a system that runs many programs side
  by side promises to every one of them.

  One party by itself follows a machine `M`.  In `partiesMachine` those that are there act in any
  order, others come and go in between, and nothing of this touches the state of a party that is
  there before and after.  What it amounts to is `Parties.run_alone`: the actions of one party, taken
  out of a run of all, are a run of `M`.  So a property of the runs of one program is enough, however
  many there are.
-/
import TinyKernel.Lib.Machine

namespace TinyKernel

/-- The parties that are there, and the state of each. -/
structure Parties (ι S : Type) where
  live : ι → Prop
  state : ι → S

inductive PartiesEvent (ι A : Type)
  /-- A party comes. -/
  | start
  /-- Parties go. -/
  | stop
  | idle
  | act (q : ι) (a : A)

section

variable {ι S A : Type} {M : Machine S A}

/-- One event. -/
def PartiesStep (M : Machine S A) (s : Parties ι S) : PartiesEvent ι A → Parties ι S → Prop
  | .start, s' => (∃ q, ¬ s.live q ∧ M.start (s'.state q) ∧ ∀ p, s'.live p ↔ p = q ∨ s.live p) ∧
      ∀ p, s.live p → s'.state p = s.state p
  | .stop, s' => ∀ p, s'.live p → s.live p ∧ s'.state p = s.state p
  | .idle, s' => ∀ p, (s'.live p ↔ s.live p) ∧ (s.live p → s'.state p = s.state p)
  | .act q a, s' => s.live q ∧ M.step (s.state q) a (s'.state q) ∧
      ∀ p, (s'.live p ↔ s.live p) ∧ (s.live p → p ≠ q → s'.state p = s.state p)

/-- At first there is nobody. -/
def partiesMachine (ι : Type) (M : Machine S A) : Machine (Parties ι S) (PartiesEvent ι A) where
  start := fun s => ∀ q, ¬ s.live q
  step := PartiesStep M

/-- The party `q` is there before every event of the run and after it. -/
def Parties.Stays (q : ι) (tr : List (Parties ι S × PartiesEvent ι A × Parties ι S)) : Prop :=
  ∀ s e s', (s, e, s') ∈ tr → s.live q ∧ s'.live q

/-- What `q` does in a run, and how its state changes. -/
def actionsOf [DecidableEq ι] (q : ι) :
    List (Parties ι S × PartiesEvent ι A × Parties ι S) → List (S × A × S)
  | [] => []
  | (s, .act p a, s') :: tr =>
    if p = q then (s.state q, a, s'.state q) :: actionsOf q tr else actionsOf q tr
  | _ :: tr => actionsOf q tr

/-- An event is an action of `q`, or leaves its state alone. -/
theorem PartiesStep.cases [DecidableEq ι] {s s' : Parties ι S} {e : PartiesEvent ι A}
    (h : PartiesStep M s e s') {q : ι} (hq : s.live q) (hq' : s'.live q)
    (tr : List (Parties ι S × PartiesEvent ι A × Parties ι S)) :
    (∃ a, actionsOf q ((s, e, s') :: tr) = (s.state q, a, s'.state q) :: actionsOf q tr ∧
      M.step (s.state q) a (s'.state q)) ∨
    (actionsOf q ((s, e, s') :: tr) = actionsOf q tr ∧ s'.state q = s.state q) := by
  cases e with
  | start => exact Or.inr ⟨rfl, h.2 q hq⟩
  | stop => exact Or.inr ⟨rfl, (h q hq').2⟩
  | idle => exact Or.inr ⟨rfl, (h q).2 hq⟩
  | act p a =>
    by_cases hp : p = q
    · subst hp
      exact Or.inl ⟨a, if_pos rfl, h.2.1⟩
    · exact Or.inr ⟨if_neg hp, (h.2.2 q).2 hq (Ne.symm hp)⟩

/-- **Each party runs alone.**  The induction is on the run of all. -/
theorem Parties.run_alone [DecidableEq ι] {s s' : Parties ι S}
    {tr : List (Parties ι S × PartiesEvent ι A × Parties ι S)}
    (hr : (partiesMachine ι M).Run s tr s') {q : ι} (hq : Parties.Stays q tr) :
    M.Run (s.state q) (actionsOf q tr) (s'.state q) := by
  induction hr with
  | nil s => exact .nil _
  | @cons s t u e tr h _ ih =>
    obtain ⟨hs, ht⟩ := hq _ _ _ List.mem_cons_self
    have hrest := ih fun a e b hm => hq a e b (List.mem_cons_of_mem _ hm)
    rcases PartiesStep.cases h hs ht tr with ⟨a, hactions, hstep⟩ | ⟨hactions, hsame⟩
    · rw [hactions]
      exact .cons hstep hrest
    · rw [hactions, ← hsame]
      exact hrest

end

end TinyKernel
