/-
  Labelled transition systems: reachable states, runs, and the rules every whole-run
  result of this development is an instance of.

  A `Machine σ ε` is a set of start states and a labelled step relation.  Two readings of
  "for every run" are used:

  * `Machine.Reach` — the states some run ends in.  A safety property is proved by
    `Reach.invariant`: it holds at the start and one step keeps it.
  * `Machine.Run`   — a run together with the list of transitions it took.  A per-step
    equivalence of two properties of TRANSITIONS lifts to the run: always when it holds in every
    reachable state (`Run.forall_iff`), and also when it needs an invariant that only the good
    steps keep (`Run.forall_iff_of_invariant`).  Runs of one machine are shown as runs of another
    by `Run.simulate`, and followed by another, with the same answers, by `Run.follow`.

  Nothing here names a concrete system.
-/

namespace TinyKernel

/-- A labelled transition system: where runs may start, and what one step may do. -/
structure Machine (σ ε : Type) where
  /-- The states a run may start in. -/
  start : σ → Prop
  /-- `step s e s'`: the event `e` may take `s` to `s'`. -/
  step : σ → ε → σ → Prop

namespace Machine

variable {σ ε : Type} {M : Machine σ ε}

/-- The states reachable by finitely many steps from a start state. -/
inductive Reach (M : Machine σ ε) : σ → Prop
  | start {s : σ} (h : M.start s) : Reach M s
  | step {s s' : σ} {e : ε} (hr : Reach M s) (h : M.step s e s') : Reach M s'

/-- **The invariant rule.**  A property of the start states that every step keeps holds in
    every reachable state. -/
theorem Reach.invariant {I : σ → Prop} (h0 : ∀ s, M.start s → I s)
    (h1 : ∀ s e s', I s → M.step s e s' → I s') {s : σ} (hr : M.Reach s) : I s := by
  induction hr with
  | start h => exact h0 _ h
  | step _ h ih => exact h1 _ _ _ ih h

/-- `M.Run s tr s'`: from `s` the machine takes the transitions listed in `tr`, in order, and
    ends in `s'`. -/
inductive Run (M : Machine σ ε) : σ → List (σ × ε × σ) → σ → Prop
  | nil (s : σ) : Run M s [] s
  | cons {s t u : σ} {e : ε} {tr : List (σ × ε × σ)} (h : M.step s e t) (hr : Run M t tr u) :
      Run M s ((s, e, t) :: tr) u

/-- **The conditional invariant rule.**  A property that every step of the kind `Q` keeps holds at
    the end of every run of such steps. -/
theorem Run.invariant {I : σ → Prop} {Q : σ → ε → σ → Prop}
    (hkeep : ∀ a e b, I a → M.step a e b → Q a e b → I b)
    {s u : σ} {tr : List (σ × ε × σ)} (hr : M.Run s tr u) (hs : I s)
    (hQ : ∀ a e b, (a, e, b) ∈ tr → Q a e b) : I u := by
  induction hr with
  | nil s => exact hs
  | cons h _ ih =>
    refine ih (hkeep _ _ _ hs h (hQ _ _ _ List.mem_cons_self)) ?_
    exact fun a e b hm => hQ a e b (List.mem_cons_of_mem _ hm)

/-- **The run rule.**  Two transition properties hold of every transition of the same runs, when
    they agree on every step out of a state with the invariant, and the steps of which they hold
    keep it. -/
theorem Run.forall_iff_of_invariant {I : σ → Prop} {P Q : σ → ε → σ → Prop}
    (hPQ : ∀ a e b, I a → M.step a e b → (P a e b ↔ Q a e b))
    (hkeep : ∀ a e b, I a → M.step a e b → Q a e b → I b)
    {s u : σ} {tr : List (σ × ε × σ)} (hr : M.Run s tr u) (hs : I s) :
    (∀ a e b, (a, e, b) ∈ tr → P a e b) ↔ (∀ a e b, (a, e, b) ∈ tr → Q a e b) := by
  induction hr with
  | nil s => exact ⟨fun _ _ _ _ hm => absurd hm List.not_mem_nil,
      fun _ _ _ _ hm => absurd hm List.not_mem_nil⟩
  | @cons s t u e tr h _ ih =>
    have hsplit : ∀ R : σ → ε → σ → Prop, (∀ a e' b, (a, e', b) ∈ (s, e, t) :: tr → R a e' b) ↔
        R s e t ∧ ∀ a e' b, (a, e', b) ∈ tr → R a e' b := by
      intro R
      constructor
      · exact fun hR => ⟨hR _ _ _ List.mem_cons_self,
          fun a e' b hm => hR a e' b (List.mem_cons_of_mem _ hm)⟩
      · rintro ⟨hfirst, hrest⟩ a e' b hm
        cases hm with
        | head => exact hfirst
        | tail _ hm => exact hrest a e' b hm
    rw [hsplit, hsplit, hPQ _ _ _ hs h]
    exact and_congr_right fun hq => ih (hkeep _ _ _ hs h hq)

/-- The run rule for properties that agree in every reachable state. -/
theorem Run.forall_iff {P Q : σ → ε → σ → Prop}
    (hPQ : ∀ a e b, M.Reach a → M.step a e b → (P a e b ↔ Q a e b))
    {s u : σ} {tr : List (σ × ε × σ)} (hs : M.start s) (hr : M.Run s tr u) :
    (∀ a e b, (a, e, b) ∈ tr → P a e b) ↔ (∀ a e b, (a, e, b) ∈ tr → Q a e b) :=
  hr.forall_iff_of_invariant hPQ (fun _ _ _ ha h _ => ha.step h) (Reach.start hs)

/-- **The simulation rule.**  `f` and `g` show the states and the steps of `M` as those of `N`.  When
    every step out of a state with the invariant is shown as a step, every run is shown as a run. -/
theorem Run.simulate {τ δ : Type} {N : Machine τ δ} {I : σ → Prop} (f : σ → τ) (g : σ → ε → σ → δ)
    (hkeep : ∀ a e b, I a → M.step a e b → I b)
    (hstep : ∀ a e b, I a → M.step a e b → N.step (f a) (g a e b) (f b))
    {s u : σ} {tr : List (σ × ε × σ)} (hr : M.Run s tr u) (hs : I s) :
    N.Run (f s) (tr.map fun (a, e, b) => (f a, g a e b, f b)) (f u) := by
  induction hr with
  | nil s => exact .nil (f s)
  | cons h _ ih => exact .cons (hstep _ _ _ hs h) (ih (hkeep _ _ _ hs h))

/-- The simulation rule for runs whose steps are of the kind `Q`. -/
theorem Run.simulate_of {τ δ : Type} {N : Machine τ δ} {I : σ → Prop} {Q : σ → ε → σ → Prop}
    (f : σ → τ) (g : σ → ε → σ → δ)
    (hstep : ∀ a e b, I a → M.step a e b → Q a e b → I b ∧ N.step (f a) (g a e b) (f b))
    {s u : σ} {tr : List (σ × ε × σ)} (hr : M.Run s tr u) (hs : I s)
    (hQ : ∀ a e b, (a, e, b) ∈ tr → Q a e b) :
    I u ∧ N.Run (f s) (tr.map fun (a, e, b) => (f a, g a e b, f b)) (f u) := by
  induction hr with
  | nil s => exact ⟨hs, .nil (f s)⟩
  | cons h _ ih =>
    obtain ⟨hi, hn⟩ := hstep _ _ _ hs h (hQ _ _ _ List.mem_cons_self)
    obtain ⟨hu, hrun⟩ := ih hi fun a e b hm => hQ a e b (List.mem_cons_of_mem _ hm)
    exact ⟨hu, .cons hn hrun⟩

/-- **The following rule.**  When related states take the same events to related states and answer
    them alike, each run is followed by a run from the related state. -/
theorem Run.follow {τ α : Type} {N : Machine τ ε} {R : σ → τ → Prop} {f : σ → ε → α}
    {g : τ → ε → α}
    (hstep : ∀ a b e a', R a b → M.step a e a' →
      ∃ b', N.step b e b' ∧ R a' b' ∧ g b e = f a e)
    {a u : σ} {tr : List (σ × ε × σ)} (hr : M.Run a tr u) : ∀ {b : τ}, R a b →
    ∃ tr' v, N.Run b tr' v ∧ R u v ∧
      tr'.map (fun (s, e, _) => (e, g s e)) = tr.map (fun (s, e, _) => (e, f s e)) := by
  induction hr with
  | nil a => exact fun {b} hR => ⟨[], b, .nil b, hR, rfl⟩
  | @cons a t u e tr h _ ih =>
    intro b hR
    obtain ⟨b', hb, hR', hanswer⟩ := hstep _ _ _ _ hR h
    obtain ⟨tr', v, hr', hRv, hmap⟩ := ih hR'
    refine ⟨(b, e, b') :: tr', v, .cons hb hr', hRv, ?_⟩
    rw [List.map_cons, List.map_cons, hmap]
    exact congrArg (fun x => (e, x) :: _) hanswer

end Machine

end TinyKernel
