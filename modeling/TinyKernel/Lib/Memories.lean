/-
  Parties that come and go, each with a memory of its own.

  `Memories` is what an operating system promises to its processes: a party reads what it wrote
  itself, and nothing that another one does can be seen there.  `memoriesMachine` says so step by
  step; `Memories.run_load` says it for whole runs: as long as a party lives, each address holds
  what the party stored there last (`lastStore`), or what was there at first.

  Whether an address is accessible never changes while the party lives, which is why a store needs
  no case of its own in `run_load` for addresses out of reach.
-/
import Mathlib.Logic.Function.Basic
import TinyKernel.Lib.Machine

namespace TinyKernel

/-- The parties that are there, and what each of them has in its memory; an address out of reach has
    no value. -/
structure Memories (ι A V : Type) where
  live : ι → Prop
  memory : ι → A → Option V

inductive MemoriesEvent (ι A V : Type)
  /-- A party comes. -/
  | start
  /-- Parties go. -/
  | stop
  | idle
  | store (q : ι) (a : A) (v : V)

variable {ι A V : Type} [DecidableEq ι] [DecidableEq A]

/-- One event. -/
def MemoriesStep (s : Memories ι A V) : MemoriesEvent ι A V → Memories ι A V → Prop
  | .start, s' => (∃ q, ¬ s.live q ∧ ∀ p, s'.live p ↔ p = q ∨ s.live p) ∧
      ∀ p, s.live p → s'.memory p = s.memory p
  | .stop, s' => ∀ p, s'.live p → s.live p ∧ s'.memory p = s.memory p
  | .idle, s' => ∀ p, (s'.live p ↔ s.live p) ∧ (s.live p → s'.memory p = s.memory p)
  | .store q a v, s' => s.live q ∧ (s.memory q a).isSome ∧
      ∀ p, (s'.live p ↔ s.live p) ∧ (s.live p → s'.memory p
        = if p = q then Function.update (s.memory q) a (some v) else s.memory p)

/-- At first there is nobody. -/
def memoriesMachine (ι A V : Type) [DecidableEq ι] [DecidableEq A] :
    Machine (Memories ι A V) (MemoriesEvent ι A V) where
  start := fun s => ∀ q, ¬ s.live q
  step := MemoriesStep

/-- What the party `q` stored last at `a`, if it did. -/
def lastStore (q : ι) (a : A) : List (MemoriesEvent ι A V) → Option V
  | [] => none
  | .store p b v :: es => (lastStore q a es).or (if p = q ∧ b = a then some v else none)
  | _ :: es => lastStore q a es

/-- The party `q` is there before every event of the run and after it. -/
def LivesThrough (q : ι) (tr : List (Memories ι A V × MemoriesEvent ι A V × Memories ι A V)) :
    Prop :=
  ∀ s e s', (s, e, s') ∈ tr → s.live q ∧ s'.live q

/-- What one event does to the memory of a party that lives through it. -/
theorem MemoriesStep.load {s s' : Memories ι A V} {e : MemoriesEvent ι A V}
    (h : MemoriesStep s e s') {q : ι} (hq : s.live q) (hq' : s'.live q) (a : A) :
    s'.memory q a = (lastStore q a [e]).or (s.memory q a) := by
  cases e with
  | start => exact congrFun (h.2 q hq) a
  | stop => exact congrFun (h q hq').2 a
  | idle => exact congrFun ((h q).2 hq) a
  | store p b v =>
    rw [(h.2.2 q).2 hq, lastStore, lastStore, Option.none_or]
    by_cases hp : q = p
    · subst hp
      rw [if_pos rfl]
      by_cases hb : b = a
      · rw [if_pos ⟨rfl, hb⟩, hb, Function.update_self]
        rfl
      · rw [if_neg fun h => hb h.2, Function.update_of_ne (Ne.symm hb), Option.none_or]
    · rw [if_neg hp, if_neg fun h => hp h.1.symm, Option.none_or]

/-- The events of a run, one by one. -/
theorem lastStore_cons (q : ι) (a : A) (e : MemoriesEvent ι A V) (es : List (MemoriesEvent ι A V)) :
    lastStore q a (e :: es) = (lastStore q a es).or (lastStore q a [e]) := by
  cases e with
  | store p b v => rw [lastStore, lastStore, lastStore, Option.none_or]
  | start | stop | idle => exact (Option.or_none ..).symm

/-- **A party reads its own stores.**  The induction is on the run. -/
theorem Memories.run_load {s s' : Memories ι A V}
    {tr : List (Memories ι A V × MemoriesEvent ι A V × Memories ι A V)}
    (hr : (memoriesMachine ι A V).Run s tr s') {q : ι} (hq : LivesThrough q tr) (a : A) :
    s'.memory q a = (lastStore q a (tr.map (·.2.1))).or (s.memory q a) := by
  induction hr with
  | nil s => rfl
  | @cons s t u e tr h _ ih =>
    obtain ⟨hs, ht⟩ := hq _ _ _ List.mem_cons_self
    have hrest := ih fun a e b hm => hq a e b (List.mem_cons_of_mem _ hm)
    have hfirst := MemoriesStep.load h hs ht a
    rw [hrest, hfirst, List.map_cons, lastStore_cons q a e (tr.map (·.2.1)), Option.or_assoc]

end TinyKernel
