/-
  Round robin: what `job_forward` does to the ring, and in which order jobs get their turn.

  `RingWellFormed` is the part of `JobInv` that is about memory: the circular list and the slots.
  It says nothing about the ghost log, which no function of `job.c` reads (`forwardLoop_setLog`), so
  that the results here are about any ring and not only about those with a history.

  The key to fairness is the list of RUNNING jobs in the order in which they come up, from the
  current job's successor round to the current job itself.  A call of `job_forward` makes the first
  one of the list current, and so moves it to the end of the list (`RingWellFormed.turn`).  Whatever
  is deleted on the way was not in the list.

  From one turn to all of them:

  * `RingWellFormed.forward` — the jobs are passed in order up to the first RUNNING one; the
    TERMINATED ones among them are gone, and the others stand at the end in the same order;
  * `RingWellFormed.turn` — so the list of RUNNING jobs is rotated by one;
  * `RingWellFormed.turns` — after as many turns as the list has jobs, each has been current once.  The
    induction is on the list, with what has been rotated already behind it.
-/
import TinyKernel.Mp.JobRun

namespace TinyKernel

/-- The jobs of `order` are chained into a ring, the current one first, and they are the slots that
    are in use. -/
structure RingWellFormed (s : Slab) (t : JobTable) (order : List Nat) : Prop where
  slab : t.jobSlab = s
  slots : SlabInv s ⟨t.mem, order⟩
  ring : RingAt t order

/-- One call of `job_forward`, and then whatever neither creates a job nor changes one's status. -/
structure NextTurn (t t' : JobTable) : Prop where
  returns : ∃ t₁, Returns (fun rounds => jobForward rounds t) t₁ ∧ t'.jobSlab = t₁.jobSlab ∧
    t'.mem = t₁.mem ∧ t'.currentJob = t₁.currentJob ∧
    ∀ p, t'.next p = t₁.next p ∧ t'.status p = t₁.status p

/-- The RUNNING jobs of `order`. -/
def runningJobs (t : JobTable) (order : List Nat) : List Nat :=
  order.filter fun q => t.status q = .running

/-! ## The log is a ghost -/

/-- The table with another log. -/
def JobTable.setLog (t : JobTable) (log : List JobAction) : JobTable := { t with log := log }

theorem deleteWalk_setLog (t : JobTable) (log : List JobAction) (job : Nat) :
    ∀ (rounds last curr : Nat),
      jobDeleteWalk (t.setLog log) job rounds last curr = jobDeleteWalk t job rounds last curr := by
  intro rounds
  induction rounds with
  | zero =>
    intro last curr
    rfl
  | succ rounds ih =>
    intro last curr
    rw [jobDeleteWalk, jobDeleteWalk, ih]
    rfl

theorem delete_setLog {t t' : JobTable} {log : List JobAction} {rounds job : Nat}
    (h : jobDelete rounds (t.setLog log) job = .ok t') :
    ∃ new, t'.log = new ++ log ∧ jobDelete rounds t job = .ok (t'.setLog (new ++ t.log)) := by
  obtain ⟨hne, h⟩ := guard_eq_ok h
  obtain ⟨last, hwalk, h⟩ := bind_eq_ok h
  obtain ⟨⟨r, mem⟩, hfree, h⟩ := bind_eq_ok h
  obtain rfl := Except.ok.inj h
  rw [deleteWalk_setLog] at hwalk
  have hwalk' : jobDeleteWalk t job rounds t.currentJob (t.next t.currentJob) = .ok last := hwalk
  have hfree' : slabFree t.jobSlab t.mem job = .ok (r, mem) := hfree
  let unlinked := t.setJob last fun j => { j with next := t.next job }
  refine ⟨[.deleted job (unlinked.status job) (unlinked.jobs job).paging], rfl, ?_⟩
  rw [jobDelete, if_neg (show ¬ t.currentJob = t.next t.currentJob from hne)]
  simp only [hwalk', hfree', ok_bind]
  rfl

/-- **`job_forward` does not look at the log**, it only adds to it. -/
theorem forwardLoop_setLog {rounds : Nat} {t' : JobTable} : ∀ (n : Nat) (t : JobTable)
    (log : List JobAction), jobForwardLoop rounds n (t.setLog log) = .ok t' →
    ∃ new, t'.log = new ++ log ∧ jobForwardLoop rounds n t = .ok (t'.setLog (new ++ t.log)) := by
  intro n
  induction n with
  | zero =>
    intro t log h
    exact absurd h (by simp [jobForwardLoop])
  | succ n ih =>
    intro t log h
    have hstatus : (t.setLog log).status (t.setLog log).currentJob = t.status t.currentJob := rfl
    rw [jobForwardLoop, hstatus] at h
    rw [jobForwardLoop]
    cases hst : t.status t.currentJob with
    | running =>
      rw [hst] at h
      obtain rfl := Except.ok.inj h
      exact ⟨[], rfl, rfl⟩
    | sleeping =>
      rw [hst] at h
      exact ih (t.setCurrent (t.next t.currentJob)) log h
    | terminated =>
      rw [hst] at h
      obtain ⟨t₁, hdelete, h⟩ := bind_eq_ok h
      obtain ⟨new₁, hlog₁, hdelete'⟩ := delete_setLog hdelete
      obtain ⟨new₂, hlog₂, h'⟩ := ih (t₁.setLog (new₁ ++ t.log)) t₁.log h
      refine ⟨new₂ ++ new₁, by rw [hlog₂, hlog₁, List.append_assoc], ?_⟩
      have hcur : (t.setLog log).currentJob = t.currentJob := rfl
      simp only [← hcur, hdelete', ok_bind]
      rw [List.append_assoc]
      exact h'

/-! ## One turn -/

/-- The log of a ring that was made by creations only. -/
theorem aliveJobs_created (order : List Nat) : aliveJobs (order.map .created) = order := by
  induction order with
  | nil => rfl
  | cons a l ih => rw [List.map_cons, aliveJobs, ih]

namespace RingWellFormed

variable {s : Slab} {t t' : JobTable} {order l : List Nat} {a : Nat}

theorem jobInv (h : RingWellFormed s t order) :
    JobInv s (t.setLog (order.map .created)) order where
  slab := h.slab
  slots := h.slots
  ring := by
    have hring := h.ring
    cases order with
    | nil => exact hring
    | cons a l => exact hring
  history := by
    show order.Perm (aliveJobs (order.map .created))
    rw [aliveJobs_created]
  terminated := by
    intro p st pg hm
    obtain ⟨_, -, heq⟩ := List.mem_map.mp (show _ ∈ order.map JobAction.created from hm)
    cases heq

/-- **`job_forward`** on a well-formed ring with a RUNNING job: the jobs are passed in order up to
    the first RUNNING one, which becomes current; the TERMINATED ones among those passed are gone,
    and the others stand in their old order. -/
theorem forward (hp : s.Placed) (h : RingWellFormed s t (a :: l))
    (hrun : ∃ q ∈ a :: l, t.status q = .running) :
    ∃ t' pre r post, Returns (fun rounds => jobForward rounds t) t' ∧
      l ++ [a] = pre ++ r :: post ∧ (∀ q ∈ pre, t.status q ≠ .running) ∧
      t.status r = .running ∧
      RingWellFormed s t' (r :: (post ++ pre.filter fun q => t.status q ≠ .terminated)) ∧
      SameJobs t t' := by
  obtain ⟨t₁, pre, r, post, ⟨enough, hret⟩, hsplit, hpre, hst, hinv, hsame, -, -⟩ :=
    h.jobInv.forward hp hrun
  obtain ⟨new, hlog, -⟩ := forwardLoop_setLog enough (t.setCurrent (t.next t.currentJob)) _
    (hret enough (Nat.le_refl _))
  have hres : ∀ rounds, enough ≤ rounds →
      jobForward rounds t = .ok (t₁.setLog (new ++ t.log)) := by
    intro rounds hr
    obtain ⟨new', hlog', hres⟩ := forwardLoop_setLog rounds
      (t.setCurrent (t.next t.currentJob)) _ (hret rounds hr)
    rw [hlog] at hlog'
    obtain rfl := List.append_cancel_right hlog'
    exact hres
  have hkeep : pre.filter (fun q => t.status q ≠ .terminated)
      = pre.filter fun q => t.status q = .sleeping := by
    refine List.filter_congr fun q hq => ?_
    have hnot := hpre q hq
    cases hq' : t.status q
    · exact absurd hq' hnot
    · rfl
    · rfl
  refine ⟨t₁.setLog (new ++ t.log), pre, r, post, ⟨enough, hres⟩, hsplit, hpre, hst, ?_, hsame⟩
  rw [hkeep]
  exact ⟨hinv.slab, hinv.slots, hinv.ring⟩

/-- **One turn.**  The first job of the list of RUNNING jobs becomes current, and the last one of
    the list. -/
theorem turn (hp : s.Placed) (h : RingWellFormed s t (a :: l)) {x : Nat} {rest : List Nat}
    (hlist : runningJobs t (l ++ [a]) = x :: rest) (hturn : NextTurn t t') :
    ∃ l', RingWellFormed s t' (x :: l') ∧ runningJobs t' (l' ++ [x]) = rest ++ [x] := by
  have hx : x ∈ runningJobs t (l ++ [a]) := by
    rw [hlist]
    exact List.mem_cons_self
  obtain ⟨hxm, hxr⟩ := List.mem_filter.mp hx
  obtain ⟨t₂, pre, r, post, hret, hsplit, hpre, hst, hring, hsame⟩ :=
    h.forward hp ⟨x, (List.perm_append_singleton a l).mem_iff.mp hxm, of_decide_eq_true hxr⟩
  obtain ⟨t₁, hret', hslab, hmem, hcur, hjobs⟩ := hturn.returns
  obtain rfl := hret.unique hret'
  have hstatus : ∀ q, t'.status q = t.status q := fun q => (hjobs q).2.trans (hsame.status q)
  -- nothing of what was passed is in the list
  have hnone : ∀ passed, (∀ q ∈ passed, q ∈ pre) → runningJobs t passed = [] := fun _ hsub =>
    List.filter_eq_nil_iff.mpr fun q hq => by simpa using hpre q (hsub q hq)
  have hlist' : runningJobs t (l ++ [a]) = r :: runningJobs t post := by
    rw [hsplit, runningJobs, List.filter_append, List.filter_cons_of_pos (by simpa using hst)]
    exact congrArg (· ++ _) (hnone pre fun _ hq => hq)
  obtain ⟨rfl, rfl⟩ := List.cons.inj (hlist.symm.trans hlist')
  refine ⟨_, ⟨hslab.trans hring.slab, hmem ▸ hring.slots, ?_⟩, ?_⟩
  · exact ⟨hcur.trans hring.ring.1, hring.ring.2.congr fun q _ => (hjobs q).1⟩
  · have hsame' : runningJobs t' = runningJobs t := by
      funext order
      simp only [runningJobs, hstatus]
    have hgone := hnone (pre.filter fun q => t.status q ≠ .terminated)
      fun q hq => List.mem_of_mem_filter hq
    rw [hsame', runningJobs, List.filter_append, List.filter_append,
      List.filter_cons_of_pos (by simpa using hst), List.filter_nil]
    exact congrArg (· ++ [x]) ((congrArg (_ ++ ·) hgone).trans (List.append_nil _))

/-- Turn after turn the jobs of the list become current, in order. -/
theorem turns (hp : s.Placed) : ∀ (rest done l : List Nat) (a : Nat) (f : Nat → JobTable),
    RingWellFormed s (f 0) (a :: l) → runningJobs (f 0) (l ++ [a]) = rest ++ done →
    (∀ i, i < rest.length → NextTurn (f i) (f (i + 1))) →
    ∀ i, i < rest.length → rest[i]? = some (f (i + 1)).currentJob := by
  intro rest
  induction rest with
  | nil =>
    intro _ _ _ _ _ _ _ _ hi
    exact absurd hi (Nat.not_lt_zero _)
  | cons x rest ih =>
    intro done l a f h hlist hturns i hi
    rw [List.cons_append] at hlist
    obtain ⟨l', hring, hlist'⟩ := h.turn hp hlist (hturns 0 (Nat.zero_lt_succ _))
    cases i with
    | zero => exact congrArg some hring.ring.1.symm
    | succ i =>
      rw [List.append_assoc] at hlist'
      rw [List.getElem?_cons_succ]
      exact ih (done ++ [x]) l' x (fun i => f (i + 1)) hring hlist'
        (fun j hj => hturns (j + 1) (Nat.succ_lt_succ hj)) i (Nat.lt_of_succ_lt_succ hi)

end RingWellFormed

/-! ## Round robin -/

/-- What a call of `job_forward` does to the ring of `a` and `l`: the jobs behind the current one,
    which itself comes last, are passed up to the first RUNNING one, and of those passed only the
    TERMINATED ones are removed. -/
def ForwardsRing (s : Slab) (t : JobTable) (a : Nat) (l : List Nat) : Prop :=
  ∃ t' pre r post, Returns (fun rounds => jobForward rounds t) t' ∧ t'.currentJob = r ∧
    l ++ [a] = pre ++ r :: post ∧ (∀ q ∈ pre, t.status q ≠ .running) ∧ t.status r = .running ∧
    RingWellFormed s t' (r :: (post ++ pre.filter fun q => t.status q ≠ .terminated)) ∧
    SameJobs t t'

/-- **Round robin.**  On every well-formed ring with a RUNNING job, `job_forward` returns and goes
    to the next RUNNING job of the ring.  As long as no job is created and none changes its status,
    in as many turns as there are RUNNING jobs each of them becomes current exactly once.  As a list
    the ring is rotated up to the job that is found, without the TERMINATED ones that are passed. -/
theorem job_forward_round_robin {s : Slab} (hp : s.Placed) {t : JobTable} {a : Nat} {l : List Nat}
    (h : RingWellFormed s t (a :: l)) (hrun : ∃ q ∈ a :: l, t.status q = .running) :
    ForwardsRing s t a l ∧
    ∀ f : Nat → JobTable, f 0 = t →
      (∀ i, i < (runningJobs t (a :: l)).length → NextTurn (f i) (f (i + 1))) →
      ∀ q ∈ a :: l, t.status q = .running →
        ∃! i, i < (runningJobs t (a :: l)).length ∧ (f (i + 1)).currentJob = q := by
  constructor
  · obtain ⟨t', pre, r, post, hret, hsplit, hpre, hst, hring, hsame⟩ := h.forward hp hrun
    exact ⟨t', pre, r, post, hret, hring.ring.1, hsplit, hpre, hst, hring, hsame⟩
  · rintro f rfl hturns q hq hst
    have hperm : (runningJobs (f 0) (l ++ [a])).Perm (runningJobs (f 0) (a :: l)) :=
      (List.perm_append_singleton a l).filter _
    have hnodup : (runningJobs (f 0) (l ++ [a])).Nodup :=
      ((List.perm_append_singleton a l).nodup_iff.mpr h.slots.nodup).filter _
    have hmem : q ∈ runningJobs (f 0) (l ++ [a]) :=
      hperm.mem_iff.mpr (List.mem_filter.mpr ⟨hq, decide_eq_true hst⟩)
    rw [← hperm.length_eq] at hturns ⊢
    have hcurrent := RingWellFormed.turns hp (runningJobs (f 0) (l ++ [a])) [] l a f h
      (List.append_nil _).symm hturns
    obtain ⟨i, hi, hget⟩ := List.getElem_of_mem hmem
    refine ⟨i, ⟨hi, ?_⟩, ?_⟩
    · have := hcurrent i hi
      rw [List.getElem?_eq_getElem hi, hget] at this
      exact (Option.some.inj this).symm
    · rintro j ⟨hj, hqj⟩
      have := hcurrent j hj
      rw [List.getElem?_eq_getElem hj, hqj, ← hget] at this
      exact (hnodup.getElem_inj_iff).mp (Option.some.inj this)

/-- The kernel creates four jobs. -/
theorem four_jobs : ∃ t a b c d, JobInv (jobSlabOf 128 0x41182000) t [a, b, c, d] := by
  have hp := jobSlab_placed
  have hcreate : ∀ {t order}, JobInv (jobSlabOf 128 0x41182000) t order → order.length < 128 →
      ∃ p t', JobInv (jobSlabOf 128 0x41182000) t' (insertSecond p order) := by
    intro t order h hlen
    obtain ⟨p, t', -, h', -⟩ := h.create hp (h.slots.exists_free hp hlen) 0x80000000 0x80002000
      (fun _ => 0) 0x41000000
    exact ⟨p, t', h'⟩
  obtain ⟨a, t₁, h₁⟩ := hcreate
    (JobInv.start (t := emptyJobTable) hp ⟨fun _ => 0, rfl, rfl, rfl⟩) (by decide)
  obtain ⟨d, t₂, h₂⟩ := hcreate h₁ (show 1 < 128 by decide)
  obtain ⟨c, t₃, h₃⟩ := hcreate h₂ (show 2 < 128 by decide)
  obtain ⟨b, t₄, h₄⟩ := hcreate h₃ (show 3 < 128 by decide)
  exact ⟨t₄, a, b, c, d, h₄⟩

/-- A ring of four, in which the current job and the last one are RUNNING, and of the two between
    them one is TERMINATED and one SLEEPING. -/
theorem job_forward_round_robin_four : ∃ t a b c d,
    RingWellFormed (jobSlabOf 128 0x41182000) t [a, b, c, d] ∧ t.status a = .running ∧
    t.status b = .terminated ∧ t.status c = .sleeping ∧ t.status d = .running ∧
    ForwardsRing (jobSlabOf 128 0x41182000) t a [b, c, d] ∧
    ∀ f : Nat → JobTable, f 0 = t → NextTurn (f 0) (f 1) → NextTurn (f 1) (f 2) →
      (∃! i, i < 2 ∧ (f (i + 1)).currentJob = a) ∧ ∃! i, i < 2 ∧ (f (i + 1)).currentJob = d := by
  have hp := jobSlab_placed
  obtain ⟨t, a, b, c, d, h⟩ := four_jobs
  have hnodup := h.slots.nodup
  simp only [List.nodup_cons, List.mem_cons, List.not_mem_nil, or_false, not_or] at hnodup
  obtain ⟨⟨hab, hac, had⟩, ⟨hbc, hbd⟩, hcd, -⟩ := hnodup
  generalize ht : ({ t with jobs := fun q => { t.jobs q with status :=
    if q = b then .terminated else if q = c then .sleeping else .running } } : JobTable) = u
  have hu : RingWellFormed (jobSlabOf 128 0x41182000) u [a, b, c, d] := by
    rw [← ht]
    exact ⟨h.slab, h.slots, h.ring.1, h.ring.2.congr fun _ _ => rfl⟩
  have hstatus : ∀ q, u.status q
      = if q = b then .terminated else if q = c then .sleeping else .running := by
    intro q
    rw [← ht]
    rfl
  have ha : u.status a = .running := by rw [hstatus, if_neg hab, if_neg hac]
  have hb : u.status b = .terminated := by rw [hstatus, if_pos rfl]
  have hc : u.status c = .sleeping := by rw [hstatus, if_neg (Ne.symm hbc), if_pos rfl]
  have hd : u.status d = .running := by rw [hstatus, if_neg (Ne.symm hbd), if_neg (Ne.symm hcd)]
  have hrunning : runningJobs u [a, b, c, d] = [a, d] := by simp [runningJobs, ha, hb, hc, hd]
  obtain ⟨hforward, hturns⟩ := job_forward_round_robin hp hu ⟨a, List.mem_cons_self, ha⟩
  refine ⟨u, a, b, c, d, hu, ha, hb, hc, hd, hforward, fun f h0 h1 h2 => ?_⟩
  have hround := hturns f h0
  rw [hrunning] at hround
  have hnext : ∀ i, i < 2 → NextTurn (f i) (f (i + 1)) := by
    intro i hi
    obtain rfl | rfl : i = 0 ∨ i = 1 := by omega
    · exact h1
    · exact h2
  exact ⟨hround hnext a List.mem_cons_self ha, hround hnext d (by simp) hd⟩

end TinyKernel
