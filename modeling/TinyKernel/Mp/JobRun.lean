/-
  The job ring over whole runs.

  `jobMachine` runs the job table from `job_init_slab`: jobs are created while a slot is free,
  the current job is terminated, the scheduler moves forward while some job is RUNNING, and
  everything the rest of the kernel does to jobs (saving registers, opening files, putting them
  to sleep) happens in between.

  `JobInv s t order` ties the three views of the table together: the circular list of `next`
  fields, the slots marked used in the slab, and the history of creations and deletions.  `order`
  is the ring as a list, the current job first.  Each operation has one lemma that says what it
  does to `order`:

  * `JobInv.create` — the new job goes to the second place;
  * `JobInv.delete` — the first job goes away;
  * `JobInv.skip`   — the first job goes to the end;
  * `JobInv.forwardLoop` — skips and deletes up to the first RUNNING job.
-/
import TinyKernel.Alloc.SlabRun
import TinyKernel.Mp.Job

namespace TinyKernel

/-- The jobs created and not deleted, by the log. -/
def aliveJobs : List JobAction → List Nat
  | [] => []
  | .created p :: log => p :: aliveJobs log
  | .deleted p _ _ :: log => (aliveJobs log).erase p

/-- The order with `p` in the second place, or alone. -/
def insertSecond (p : Nat) : List Nat → List Nat
  | [] => [p]
  | a :: l => a :: p :: l

theorem insertSecond_perm (p : Nat) (order : List Nat) :
    (insertSecond p order).Perm (p :: order) := by
  cases order with
  | nil => exact List.Perm.refl _
  | cons a l => exact List.Perm.swap ..

theorem mem_insertSecond {p q : Nat} {order : List Nat} :
    q ∈ insertSecond p order ↔ q = p ∨ q ∈ order :=
  (insertSecond_perm p order).mem_iff.trans List.mem_cons

/-- The ring seen from the current job is `order`. -/
def RingAt (t : JobTable) : List Nat → Prop
  | [] => t.currentJob = 0
  | a :: l => t.currentJob = a ∧ Linked t.next a l a

/-- The ring, the slab and the history agree on which jobs there are. -/
structure JobInv (s : Slab) (t : JobTable) (order : List Nat) : Prop where
  slab : t.jobSlab = s
  slots : SlabInv s ⟨t.mem, order⟩
  ring : RingAt t order
  history : order.Perm (aliveJobs t.log)
  terminated : ∀ p st pg, JobAction.deleted p st pg ∈ t.log → st = .terminated

variable {s : Slab} {t t' : JobTable} {order l : List Nat} {a b : Nat}

theorem SlabInv.perm {m : Mem} {live live' : List Nat} (h : SlabInv s ⟨m, live⟩)
    (hp : live.Perm live') : SlabInv s ⟨m, live'⟩ where
  nodup := hp.nodup_iff.mp h.nodup
  slots := fun p hm => h.slots p (hp.mem_iff.mpr hm)
  bits := fun k hk => (h.bits k hk).trans hp.mem_iff

namespace JobInv

/-! ## The links -/

theorem current_eq (h : JobInv s t (a :: l)) : t.currentJob = a := h.ring.1

theorem linked (h : JobInv s t (a :: l)) : Linked t.next a l a := h.ring.2

/-- A change to the jobs that keeps the links keeps the invariant. -/
theorem congr (h : JobInv s t order) (hslab : t'.jobSlab = t.jobSlab)
    (hbits : ∀ k, k < s.maxStore → s.used t'.mem k = s.used t.mem k)
    (hcur : t'.currentJob = t.currentJob) (hnext : ∀ p, t'.next p = t.next p)
    (hlog : t'.log = t.log) : JobInv s t' order where
  slab := hslab.trans h.slab
  slots := ⟨h.slots.nodup, h.slots.slots, fun k hk => by
    rw [← h.slots.bits k hk]
    show s.used t'.mem k = true ↔ s.used t.mem k = true
    rw [hbits k hk]⟩
  ring := by
    have hr := h.ring
    cases order with
    | nil => exact hcur.trans hr
    | cons a l => exact ⟨hcur.trans hr.1, hr.2.congr fun x _ => hnext x⟩
  history := by rw [hlog]; exact h.history
  terminated := by rw [hlog]; exact h.terminated

/-! ## `job_create` -/

/-- **`job_create`** on a table with a free slot: the new job is RUNNING and stands right behind
    the current one, and nothing else changes in the ring. -/
theorem create (hp : s.Placed) (h : JobInv s t order)
    (hfree : ∃ k, k < s.maxStore ∧ s.used t.mem k = false) (entry sp : Word) (name : Mem)
    (paging : Nat) :
    ∃ p t', jobCreate t entry sp name paging = .ok (p, t') ∧
      JobInv s t' (insertSecond p order) ∧ t'.log = .created p :: t.log ∧
      ∀ q, t'.status q = if q = p then .running else t.status q := by
  obtain ⟨k, hk, hbit, -, hslab⟩ := hp.allocate t.mem hfree
  have hmark := h.slots.mark hp hk hbit
  have hnew : s.slotAddr k ∉ order := (List.nodup_cons.mp hmark.nodup).1
  generalize s.slotAddr k = p at *
  generalize hm : setBit t.mem s.startingAddress k true = mem at *
  rw [← h.slab] at hslab
  obtain ⟨hslab', hmem', hlog'⟩ :=
    jobFill_rest (t := { t with mem := mem }) p entry sp name paging
  have hnext := jobFill_next (t := { t with mem := mem }) p entry sp name paging
  have hhead := jobHead_next (t := { t with mem := mem }) p entry sp paging
  have hperm := insertSecond_perm p order
  have hring : RingAt (jobFill { t with mem := mem } p entry sp name paging)
      (insertSecond p order) := by
    cases order with
    | nil =>
      obtain ⟨hcur, hlink⟩ :=
        jobLink_of_null (jobHead { t with mem := mem } p entry sp paging) p h.ring
      refine ⟨hcur, ?_⟩
      show (jobFill _ _ _ _ _ _).next p = p
      rw [hnext, hlink, if_pos rfl]
    | cons a l =>
      have hcur0 : t.currentJob = a := h.current_eq
      have ha0 : t.currentJob ≠ 0 := by
        obtain ⟨j, -, hj⟩ := h.slots.slots a List.mem_cons_self
        have := hp.slotAddr_pos j
        omega
      obtain ⟨hcur, hlink⟩ :=
        jobLink_of_current (jobHead { t with mem := mem } p entry sp paging) p ha0
      have hpa : a ≠ p := fun heq => hnew (heq ▸ List.mem_cons_self)
      have hlink' : ∀ q, (jobFill { t with mem := mem } p entry sp name paging).next q
          = if q = p then t.next a else if q = a then p else t.next q := by
        intro q
        rw [hnext, hlink]
        simp only [hhead]
        rw [show (jobHead { t with mem := mem } p entry sp paging).currentJob = a from hcur0]
        rfl
      refine ⟨hcur.trans hcur0, h.linked.insert hnew h.slots.nodup ?_ ?_ ?_⟩
      · rw [hlink', if_neg hpa, if_pos rfl]
      · rw [hlink', if_pos rfl]
      · intro x hxa hxp
        rw [hlink', if_neg hxp, if_neg hxa]
  refine ⟨p, _, ?_, ⟨hslab'.trans h.slab, ?_, hring, ?_, ?_⟩, hlog', ?_⟩
  · rw [jobCreate, hslab]
    rfl
  · rw [hmem']
    exact hmark.perm hperm.symm
  · rw [hlog']
    exact hperm.trans (h.history.cons p)
  · rw [hlog']
    intro q st pg hq
    rcases List.mem_cons.mp hq with heq | hq
    · exact absurd heq (by simp)
    · exact h.terminated q st pg hq
  · exact fun q => jobFill_status ..

/-- `job_create` when the slab has given out the slot `p`. -/
theorem filled (hp : s.Placed) (h : JobInv s t order) {p : Nat} {mem : Mem}
    (hslab : slabAllocate t.jobSlab t.mem = .ok (p, mem)) (entry sp : Word) (name : Mem)
    (paging : Nat) :
    JobInv s (jobFill { t with mem := mem } p entry sp name paging) (insertSecond p order) ∧
      p ∉ order := by
  have hcall : jobCreate t entry sp name paging
      = .ok (p, jobFill { t with mem := mem } p entry sp name paging) := by
    rw [jobCreate, hslab]
    rfl
  have hfree : ∃ k, k < s.maxStore ∧ s.used t.mem k = false := by
    rw [h.slab] at hslab
    rcases hp.allocate_cases t.mem with ⟨-, herr⟩ | ⟨k, hk, hbit, -⟩
    · cases herr.symm.trans hslab
    · exact ⟨k, hk, hbit⟩
  obtain ⟨p', t', hres, hinv, -⟩ := h.create hp hfree entry sp name paging
  obtain ⟨rfl, rfl⟩ := Prod.mk.inj (Except.ok.inj (hres.symm.trans hcall))
  exact ⟨hinv,
    (List.nodup_cons.mp ((insertSecond_perm p' order).nodup_iff.mp hinv.slots.nodup)).1⟩

/-! ## `job_delete` of the current job -/

/-- The loop of `job_delete` stops at the predecessor of the job. -/
theorem deleteWalk {job : Nat} : ∀ (rounds last : Nat) (seg : List Nat),
    Linked t.next last seg job → job ∉ seg → seg.length < rounds →
    jobDeleteWalk t job rounds last (t.next last)
      = .ok ((last :: seg).getLast (List.cons_ne_nil last seg)) := by
  intro rounds
  induction rounds with
  | zero =>
    intro _ _ _ _ hr
    exact absurd hr (by omega)
  | succ rounds ih =>
    intro last seg hl hn hr
    cases seg with
    | nil =>
      have hjob : t.next last = job := hl
      rw [jobDeleteWalk, if_pos hjob]
      rfl
    | cons c seg =>
      obtain ⟨hc, hl⟩ := hl
      have hne : ¬ c = job := fun h => hn (h ▸ List.mem_cons_self)
      rw [jobDeleteWalk, hc, if_neg hne]
      rw [ih c seg hl (fun hm => hn (List.mem_cons_of_mem _ hm)) (by simpa using hr)]
      rw [List.getLast_cons (List.cons_ne_nil c seg)]

/-- **`job_delete(current_job)`** in a ring of at least two: the current job is unlinked, its slot
    is freed, and the next job becomes current. -/
theorem delete (hp : s.Placed) (h : JobInv s t (a :: b :: l))
    (hterm : t.status a = .terminated) :
    ∃ t', (∀ rounds, (b :: l).length < rounds → jobDelete rounds t t.currentJob = .ok t') ∧
      JobInv s t' (b :: l) ∧ SameJobs t t' ∧ t'.log = deletion t a :: t.log := by
  have hcur := h.current_eq
  obtain ⟨hab, hbl⟩ := h.linked
  obtain ⟨hna, hnd⟩ := List.nodup_cons.mp h.slots.nodup
  have hne : ¬ a = b := fun heq => hna (heq ▸ List.mem_cons_self)
  obtain ⟨k, hk, hak⟩ := h.slots.slots a List.mem_cons_self
  have hused : s.used t.mem k = true :=
    (h.slots.bits k hk).mpr (hak ▸ List.mem_cons_self)
  have hfree := hp.free t.mem hk
  rw [hused, if_pos rfl, ← hak] at hfree
  have hwalk : ∀ rounds, (b :: l).length < rounds → jobDeleteWalk t a rounds a b
      = .ok ((b :: l).getLast (List.cons_ne_nil b l)) := by
    intro rounds hr
    have hw := deleteWalk rounds a (b :: l) h.linked hna hr
    rw [hab] at hw
    rw [hw, List.getLast_cons (List.cons_ne_nil b l)]
  have hlast : (b :: l).getLast (List.cons_ne_nil b l) ∈ b :: l := List.getLast_mem _
  generalize hz : (b :: l).getLast (List.cons_ne_nil b l) = z at *
  have hunmark := h.slots.unmark hp hk
  rw [← hak] at hunmark
  simp only [List.erase_cons_head] at hunmark
  have hlog := jobUnlink_log hterm z b (setBit t.mem s.startingAddress k false)
  refine ⟨jobUnlink t a z b (setBit t.mem s.startingAddress k false), ?_,
    ⟨h.slab, hunmark, ⟨rfl, ?_⟩, ?_, ?_⟩, jobUnlink_same _ _ _ _, hlog⟩
  · intro rounds hr
    rw [jobDelete, hcur, hab, if_neg hne, hwalk rounds hr, ok_bind, h.slab, hfree, ok_bind,
      if_pos rfl]
    rfl
  · refine hbl.redirect hnd ?_ ?_
    · rw [hz, jobUnlink_next, if_pos rfl, hab]
    · intro x hx
      rw [hz] at hx
      rw [jobUnlink_next, if_neg hx]
  · rw [hlog]
    have := (h.history.erase a)
    rwa [List.erase_cons_head] at this
  · rw [hlog]
    intro q st pg hq
    rcases List.mem_cons.mp hq with heq | hq
    · injection heq with _ hst _
    · exact h.terminated q st pg hq

/-- Passing over the current job. -/
theorem skip (h : JobInv s t (a :: l)) :
    JobInv s (t.setCurrent (t.next t.currentJob)) (l ++ [a]) where
  slab := h.slab
  slots := h.slots.perm (List.perm_append_singleton a l).symm
  ring := by
    rw [h.current_eq]
    cases l with
    | nil => exact ⟨h.linked, h.linked⟩
    | cons b l => exact ⟨h.linked.1, h.linked.rotate⟩
  history := (List.perm_append_singleton a l).trans h.history
  terminated := h.terminated

/-! ## `job_forward` -/

/-- **The loop of `job_forward`** ends at the first RUNNING job of the order; of the jobs before it
    the TERMINATED ones are gone and the others stand at the end.  The induction is on the jobs
    before the RUNNING one: each round removes the first of them or moves it to the end. -/
theorem forwardLoop (hp : s.Placed) {r : Nat} : ∀ (pre post : List Nat) (t : JobTable),
    JobInv s t (pre ++ r :: post) → (∀ q ∈ pre, t.status q ≠ .running) →
    t.status r = .running →
    ∃ t', (∀ rounds n, pre.length < n → (pre ++ r :: post).length ≤ rounds →
        jobForwardLoop rounds n t = .ok t') ∧
      JobInv s t' (r :: (post ++ pre.filter fun q => t.status q = .sleeping)) ∧
      SameJobs t t' ∧ ((∀ q ∈ pre, t.status q = .sleeping) → t' = t.setCurrent r) ∧
      t'.log = ((pre.filter fun q => t.status q = .terminated).map (deletion t)).reverse ++ t.log := by
  intro pre
  induction pre with
  | nil =>
    intro post t h _ hrun
    have hcur : t.currentJob = r := h.current_eq
    refine ⟨t, ?_, ?_, SameJobs.refl t, fun _ => ?_, rfl⟩
    · intro rounds n hn _
      obtain ⟨n, rfl⟩ := Nat.exists_eq_succ_of_ne_zero (Nat.ne_of_gt hn)
      rw [jobForwardLoop, hcur, hrun]
    · rw [List.filter_nil, List.append_nil]
      exact h
    · rw [← hcur]
      rfl
  | cons a pre ih =>
    intro post t h hpre hrun
    have hcur : t.currentJob = a := h.current_eq
    rw [List.cons_append] at h
    cases hst : t.status a with
    | running => exact absurd hst (hpre a List.mem_cons_self)
    | terminated =>
      obtain ⟨b, l, hbl⟩ := List.exists_cons_of_ne_nil
        (List.append_ne_nil_of_right_ne_nil pre (List.cons_ne_nil r post))
      rw [hbl] at h
      obtain ⟨t₁, hdel, h₁, hsame₁, hlog₁⟩ := h.delete hp hst
      have hst₁ := hsame₁.status
      rw [← hbl] at h₁ hdel
      obtain ⟨t', hrest, h', hsame', -, hlog'⟩ := ih post t₁ h₁
        (fun q hq => by rw [hst₁]; exact hpre q (List.mem_cons_of_mem _ hq)) (by rw [hst₁, hrun])
      refine ⟨t', ?_, ?_, hsame₁.trans hsame', fun hall => ?_, ?_⟩
      · intro rounds n hn hr
        obtain ⟨n, rfl⟩ := Nat.exists_eq_succ_of_ne_zero (Nat.ne_zero_of_lt hn)
        have hstep := hdel rounds hr
        rw [hcur] at hstep
        rw [jobForwardLoop, hcur, hst]
        simp only
        rw [hstep, ok_bind]
        exact hrest rounds n (Nat.lt_of_succ_lt_succ hn) (Nat.le_of_succ_le hr)
      · simp only [hst₁] at h'
        rw [List.filter_cons_of_neg (by simp [hst])]
        exact h'
      · have hsleep := hall a List.mem_cons_self
        rw [hst] at hsleep
        exact absurd hsleep (by decide)
      · simp only [hst₁, funext hsame₁.deletion] at hlog'
        rw [List.filter_cons_of_pos (by simp [hst]), hlog', hlog₁, List.map_cons,
          List.reverse_cons, List.append_assoc]
        rfl
    | sleeping =>
      have h₁ := h.skip
      rw [List.append_assoc, List.cons_append] at h₁
      obtain ⟨t', hrest, h', hsame', hcur', hlog'⟩ := ih (post ++ [a]) _ h₁
        (fun q hq => hpre q (List.mem_cons_of_mem _ hq)) hrun
      refine ⟨t', ?_, ?_, hsame', fun hall => ?_, ?_⟩
      · intro rounds n hn hr
        obtain ⟨n, rfl⟩ := Nat.exists_eq_succ_of_ne_zero (Nat.ne_zero_of_lt hn)
        rw [jobForwardLoop, hcur, hst]
        rw [hcur] at hrest
        refine hrest rounds n (Nat.lt_of_succ_lt_succ hn) ?_
        simp only [List.length_append, List.length_cons, List.length_nil] at hr ⊢
        omega
      · rw [List.filter_cons_of_pos (by simp [hst])]
        rw [List.append_assoc] at h'
        exact h'
      · rw [hcur' fun q hq => hall q (List.mem_cons_of_mem _ hq)]
        rfl
      · rw [List.filter_cons_of_neg (by simp [hst])]
        exact hlog'

/-- **`job_forward`** returns when some job of the ring is RUNNING: the first RUNNING job behind
    the current one becomes current. -/
theorem forward (hp : s.Placed) (h : JobInv s t (a :: l))
    (hrun : ∃ q ∈ a :: l, t.status q = .running) :
    ∃ t' pre r post, Returns (fun rounds => jobForward rounds t) t' ∧
      l ++ [a] = pre ++ r :: post ∧ (∀ q ∈ pre, t.status q ≠ .running) ∧
      t.status r = .running ∧
      JobInv s t' (r :: (post ++ pre.filter fun q => t.status q = .sleeping)) ∧
      SameJobs t t' ∧ ((∀ q ∈ pre, t.status q = .sleeping) → t' = t.setCurrent r) ∧
      t'.log = ((pre.filter fun q => t.status q = .terminated).map (deletion t)).reverse
        ++ t.log := by
  have hfirst : ((l ++ [a]).find? fun q => t.status q = .running).isSome := by
    obtain ⟨q, hq, hst⟩ := hrun
    rw [List.find?_isSome]
    refine ⟨q, ?_, by simpa using hst⟩
    exact (List.perm_append_singleton a l).mem_iff.mpr hq
  obtain ⟨r, hr⟩ := Option.isSome_iff_exists.mp hfirst
  obtain ⟨hst, pre, post, hsplit, hpre⟩ := List.find?_eq_some_iff_append.mp hr
  have hpre' : ∀ q ∈ pre, t.status q ≠ .running := fun q hq => by simpa using hpre q hq
  have hst' : t.status r = .running := by simpa using hst
  have hskip := h.skip
  rw [hsplit] at hskip
  obtain ⟨t', hloop, h', hsame, hcur, hlog⟩ := forwardLoop hp pre post _ hskip hpre' hst'
  refine ⟨t', pre, r, post, ⟨(pre ++ r :: post).length, fun rounds hr => ?_⟩, hsplit, hpre',
    hst', h', hsame, fun hall => hcur hall, hlog⟩
  refine hloop rounds rounds ?_ hr
  rw [List.length_append, List.length_cons] at hr
  omega

/-- More rounds do not change what the loop of `job_delete` finds. -/
theorem deleteWalk_mono {job z : Nat} : ∀ {rounds rounds' last curr : Nat},
    jobDeleteWalk t job rounds last curr = .ok z → rounds ≤ rounds' →
    jobDeleteWalk t job rounds' last curr = .ok z := by
  intro rounds
  induction rounds with
  | zero =>
    intro rounds' last curr h _
    exact absurd h (by simp [jobDeleteWalk])
  | succ rounds ih =>
    intro rounds' last curr h hle
    obtain ⟨rounds', rfl⟩ : ∃ n, rounds' = n + 1 := Nat.exists_eq_add_one.mpr (by omega)
    rw [jobDeleteWalk] at h ⊢
    split
    · rename_i heq
      rw [if_pos heq] at h
      exact h
    · rename_i hne
      rw [if_neg hne] at h
      exact ih h (Nat.le_of_succ_le_succ hle)

/-- A `job_delete` that returns does so with any larger number of rounds. -/
theorem delete_mono {job rounds rounds' : Nat} (h : jobDelete rounds t job = .ok t')
    (hle : rounds ≤ rounds') : jobDelete rounds' t job = .ok t' := by
  obtain ⟨hne, h⟩ := guard_eq_ok h
  obtain ⟨z, hwalk, h⟩ := bind_eq_ok h
  rw [jobDelete, if_neg hne, deleteWalk_mono hwalk hle]
  exact h

/-- **`job_forward` needs a RUNNING job**: the loop can only end at one. -/
theorem forwardLoop_running (hp : s.Placed) {rounds : Nat} : ∀ (n : Nat) (t : JobTable)
    (order : List Nat), JobInv s t order → order ≠ [] → jobForwardLoop rounds n t = .ok t' →
    ∃ q ∈ order, t.status q = .running := by
  intro n
  induction n with
  | zero =>
    intro t order _ _ hres
    exact absurd hres (by simp [jobForwardLoop])
  | succ n ih =>
    intro t order h hne hres
    obtain ⟨a, l, rfl⟩ := List.exists_cons_of_ne_nil hne
    have hcur := h.current_eq
    rw [jobForwardLoop, hcur] at hres
    cases hst : t.status a with
    | running => exact ⟨a, List.mem_cons_self, hst⟩
    | sleeping =>
      rw [hst] at hres
      have hskip := h.skip
      rw [hcur] at hskip
      obtain ⟨q, hq, hrun⟩ := ih _ _ hskip (by simp) hres
      exact ⟨q, (List.perm_append_singleton a l).mem_iff.mp hq, hrun⟩
    | terminated =>
      rw [hst] at hres
      obtain ⟨t₁, hdel, hres⟩ := bind_eq_ok hres
      cases l with
      | nil =>
        -- the last job is never deleted
        have hself : t.next a = a := h.linked
        obtain ⟨hne, -⟩ := guard_eq_ok hdel
        rw [hcur] at hne
        exact absurd hself.symm hne
      | cons b l =>
        obtain ⟨t₂, hdel₂, h₂, hsame, -⟩ := h.delete hp hst
        have heq := hdel₂ (rounds + (b :: l).length + 1) (by omega)
        rw [hcur, delete_mono hdel (by omega)] at heq
        obtain rfl := Except.ok.inj heq
        obtain ⟨q, hq, hrun⟩ := ih _ _ h₂ (List.cons_ne_nil b l) hres
        exact ⟨q, List.mem_cons_of_mem _ hq, by rw [← hsame.status q, hrun]⟩

theorem forward_running (hp : s.Placed) (h : JobInv s t (a :: l)) {rounds : Nat}
    (hres : jobForward rounds t = .ok t') : ∃ q ∈ a :: l, t.status q = .running := by
  obtain ⟨q, hq, hrun⟩ := forwardLoop_running hp rounds _ _ h.skip (by simp) hres
  exact ⟨q, (List.perm_append_singleton a l).mem_iff.mp hq, hrun⟩

end JobInv

/-! ## The machine -/

/-- What happens to the job table. -/
inductive JobEvent
  | create (entry sp : Word) (name : Mem) (paging : Nat)
  | terminate
  | forward
  /-- The rest of the kernel works on the jobs. -/
  | other

/-- Some job of the ring is RUNNING. -/
def SomeRunning (t : JobTable) : Prop :=
  t.currentJob ≠ 0 ∧ ∃ i, t.status (t.next^[i] t.currentJob) = .running

/-- One event.  Outside `job.c` nobody touches the links, the header of the slab, or whether a
    job is TERMINATED. -/
def JobStep (t : JobTable) : JobEvent → JobTable → Prop
  | .create entry sp name paging, t' =>
      (∃ k, k < t.jobSlab.maxStore ∧ t.jobSlab.used t.mem k = false) ∧
      ∃ p, jobCreate t entry sp name paging = .ok (p, t')
  | .terminate, t' => t.currentJob ≠ 0 ∧ t' = jobTerminate t
  | .forward, t' => SomeRunning t ∧ Returns (fun rounds => jobForward rounds t) t'
  | .other, t' => t'.jobSlab = t.jobSlab ∧ t'.currentJob = t.currentJob ∧ t'.log = t.log ∧
      (∀ k, k < t.jobSlab.maxStore → t.jobSlab.used t'.mem k = t.jobSlab.used t.mem k) ∧
      ∀ p, t'.next p = t.next p ∧ (t'.status p = .terminated ↔ t.status p = .terminated)

/-- The job table from `job_init_slab` on. -/
def jobMachine (maxJobs slabZone : Nat) : Machine JobTable JobEvent where
  start t := ∃ m, (t.jobSlab, t.mem) = jobInitSlab maxJobs slabZone m ∧ t.currentJob = 0 ∧
    t.log = []
  step := JobStep

/-- The slab of the job table. -/
def jobSlabOf (maxJobs slabZone : Nat) : Slab := createdSlab jobStructSize maxJobs slabZone

namespace JobInv

/-- The empty table. -/
theorem start {maxJobs slabZone : Nat} (hp : (jobSlabOf maxJobs slabZone).Placed)
    (h : (jobMachine maxJobs slabZone).start t) : JobInv (jobSlabOf maxJobs slabZone) t [] := by
  obtain ⟨m, hinit, hcur, hlog⟩ := h
  obtain ⟨hslab, hmem⟩ := Prod.mk.inj hinit
  refine ⟨hslab, ?_, hcur, ?_, ?_⟩
  · rw [hmem]
    exact SlabInv.created m hp
  · rw [hlog]
    exact List.Perm.refl _
  · rw [hlog]
    exact fun _ _ _ hm => absurd hm List.not_mem_nil

/-- A ring is empty exactly when there is no current job. -/
theorem nonempty (h : JobInv s t order) (hcur : t.currentJob ≠ 0) :
    ∃ a l, order = a :: l ∧ t.currentJob = a := by
  cases order with
  | nil => exact absurd h.ring hcur
  | cons a l => exact ⟨a, l, rfl, h.current_eq⟩

theorem order_nil (hp : s.Placed) (h : JobInv s t order) (hcur : t.currentJob = 0) : order = [] := by
  cases order with
  | nil => rfl
  | cons a l =>
    obtain ⟨k, -, hk⟩ := h.slots.slots a List.mem_cons_self
    have := hp.slotAddr_pos k
    have := h.current_eq
    omega

/-- The RUNNING job that the links lead to is a job of the ring. -/
theorem running_mem (h : JobInv s t order) (hrun : SomeRunning t) :
    ∃ a l, order = a :: l ∧ ∃ q ∈ a :: l, t.status q = .running := by
  obtain ⟨hcur, i, hi⟩ := hrun
  obtain ⟨a, l, rfl, hca⟩ := h.nonempty hcur
  rw [hca] at hi
  exact ⟨a, l, rfl, _, h.linked.iterate_mem i, hi⟩

/-- One event keeps the invariant, for some order. -/
theorem step (hp : s.Placed) (h : JobInv s t order) {e : JobEvent} (hstep : JobStep t e t') :
    ∃ order', JobInv s t' order' := by
  cases e with
  | create entry sp name paging =>
    obtain ⟨hfree, p, hcall⟩ := hstep
    rw [h.slab] at hfree
    obtain ⟨p', t₁, hres, h', -⟩ := h.create hp hfree entry sp name paging
    obtain ⟨rfl, rfl⟩ := Prod.mk.inj (Except.ok.inj (hres.symm.trans hcall))
    exact ⟨_, h'⟩
  | terminate =>
    obtain ⟨-, rfl⟩ := hstep
    exact ⟨order, h.congr rfl (fun _ _ => rfl) rfl (fun _ => next_setJob_of_next rfl) rfl⟩
  | forward =>
    obtain ⟨hrun, hret⟩ := hstep
    obtain ⟨a, l, rfl, hq⟩ := h.running_mem hrun
    obtain ⟨t₁, pre, r, post, hret', -, -, -, h', -⟩ := h.forward hp hq
    obtain rfl := hret.unique hret'
    exact ⟨_, h'⟩
  | other =>
    obtain ⟨hslab, hcur, hlog, hbits, hjobs⟩ := hstep
    rw [h.slab] at hbits
    exact ⟨order, h.congr hslab hbits hcur (fun p => (hjobs p).1) hlog⟩

end JobInv

/-- What the ring, the slab and the history have to do with each other. -/
structure JobRing (s : Slab) (t : JobTable) : Prop where
  /-- Following `next` from the current job visits every live job exactly once .. -/
  visits : (orbit t.next (aliveJobs t.log).length t.currentJob).Perm (aliveJobs t.log)
  nodup : (aliveJobs t.log).Nodup
  /-- .. and comes back to it. -/
  returns : t.currentJob ≠ 0 → t.next^[(aliveJobs t.log).length] t.currentJob = t.currentJob
  current : t.currentJob = 0 ↔ aliveJobs t.log = []
  /-- The slots in use are those of the live jobs. -/
  slots : ∀ p ∈ aliveJobs t.log, ∃ k, k < s.maxStore ∧ p = s.slotAddr k
  bits : ∀ k, k < s.maxStore → (s.used t.mem k = true ↔ s.slotAddr k ∈ aliveJobs t.log)
  /-- Only TERMINATED jobs were deleted. -/
  deleted : ∀ p st pg, JobAction.deleted p st pg ∈ t.log → st = .terminated

/-- The order is what an observer sees who follows the links. -/
theorem JobInv.orbit_eq (h : JobInv s t order) :
    orbit t.next (aliveJobs t.log).length t.currentJob = order := by
  rw [← h.history.length_eq]
  cases order with
  | nil => rfl
  | cons a l =>
    rw [h.current_eq]
    exact h.linked.orbit_eq.1

theorem JobInv.jobRing (hp : s.Placed) (h : JobInv s t order) : JobRing s t where
  visits := by
    rw [h.orbit_eq]
    exact h.history
  nodup := h.history.nodup_iff.mp h.slots.nodup
  returns := by
    intro hcur
    obtain ⟨a, l, rfl, hca⟩ := h.nonempty hcur
    rw [← h.history.length_eq, hca]
    exact h.linked.orbit_eq.2
  current := by
    constructor
    · intro hcur
      have hperm := h.history
      rw [h.order_nil hp hcur] at hperm
      exact List.nil_perm.mp hperm
    · intro hnil
      have hperm := h.history
      rw [hnil] at hperm
      have hring := h.ring
      rw [List.perm_nil.mp hperm] at hring
      exact hring
  slots := fun p hm => h.slots.slots p (h.history.mem_iff.mpr hm)
  bits := fun k hk => (h.slots.bits k hk).trans h.history.mem_iff
  deleted := h.terminated

/-- **The job ring.**  In every reachable table the ring, the slab and the history agree, and only
    TERMINATED jobs were deleted.  A call of `job_create` with a free slot returns and puts the new
    job right behind the current one, in an order that is otherwise the same; a call of
    `job_forward` with a RUNNING job in the ring returns.  What the induction carries is the order
    of the ring as a list (`JobInv`), and each call has one lemma that says what it does to the
    list. -/
theorem job_ring_invariant {maxJobs slabZone : Nat} (hmax : 1 ≤ maxJobs)
    (hfit : slabGetHeaderSize jobStructSize maxJobs + jobStructSize * maxJobs < 2147483648)
    (hspace : slabZone + slabGetNeededSize jobStructSize maxJobs ≤ 18446744073709551616)
    {t : JobTable} (hr : (jobMachine maxJobs slabZone).Reach t) :
    JobRing (jobSlabOf maxJobs slabZone) t ∧
    (∀ entry sp name paging, (∃ k, k < t.jobSlab.maxStore ∧ t.jobSlab.used t.mem k = false) →
      ∃ p t', jobCreate t entry sp name paging = .ok (p, t') ∧
        aliveJobs t'.log = p :: aliveJobs t.log ∧
        orbit t'.next (aliveJobs t'.log).length t'.currentJob
          = insertSecond p (orbit t.next (aliveJobs t.log).length t.currentJob)) ∧
    (SomeRunning t → ∃ t', Returns (fun rounds => jobForward rounds t) t') := by
  have hp : (jobSlabOf maxJobs slabZone).Placed :=
    slabCreate_placed (fun _ => 0) (by decide) hmax hfit hspace
  obtain ⟨order, h⟩ : ∃ order, JobInv (jobSlabOf maxJobs slabZone) t order := by
    refine hr.invariant (I := fun t => ∃ order, JobInv (jobSlabOf maxJobs slabZone) t order) ?_ ?_
    · exact fun t h0 => ⟨[], JobInv.start hp h0⟩
    · rintro t e t' ⟨order, h⟩ hstep
      exact h.step hp hstep
  refine ⟨h.jobRing hp, ?_, ?_⟩
  · intro entry sp name paging hfree
    rw [h.slab] at hfree
    obtain ⟨p, t', hres, h', hlog, -⟩ := h.create hp hfree entry sp name paging
    refine ⟨p, t', hres, ?_, ?_⟩
    · rw [hlog]
      rfl
    · rw [h'.orbit_eq, h.orbit_eq]
  · intro hrun
    obtain ⟨a, l, rfl, hq⟩ := h.running_mem hrun
    obtain ⟨t', -, -, -, hret, -⟩ := h.forward hp hq
    exact ⟨t', hret⟩

/-- The job table of the kernel at its start, over cleared memory. -/
def emptyJobTable : JobTable where
  jobSlab := jobSlabOf 128 0x41182000
  mem := (jobInitSlab 128 0x41182000 fun _ => 0).2
  jobs := fun _ => ⟨fun _ => 0, .running, fun _ => 0, 0, 0, 0, fun _ => 0, 0, 0⟩
  currentJob := 0
  log := []

/-- An event in a reachable table. -/
theorem JobStep.reach {maxJobs slabZone : Nat} {e : JobEvent}
    (hr : (jobMachine maxJobs slabZone).Reach t) (hs : JobStep t e t') :
    (jobMachine maxJobs slabZone).Reach t' :=
  Machine.Reach.step (e := e) hr hs

/-- The RUNNING jobs of the ring are found along the links. -/
theorem JobInv.someRunning (hp : s.Placed) (h : JobInv s t (a :: l))
    (hrun : ∃ q ∈ a :: l, t.status q = .running) : SomeRunning t := by
  obtain ⟨q, hq, hst⟩ := hrun
  obtain ⟨k, -, hk⟩ := h.slots.slots a List.mem_cons_self
  have hpos := hp.slotAddr_pos k
  have hcur := h.current_eq
  obtain ⟨i, hi, hget⟩ :=
    List.getElem_of_mem ((List.perm_append_singleton a l).mem_iff.mpr hq)
  refine ⟨by omega, i + 1, ?_⟩
  have hiter := h.linked.getElem?_iterate i hi
  rw [List.getElem?_eq_getElem hi, hget] at hiter
  rw [hcur, ← Option.some.inj hiter]
  exact hst

/-- Of a ring of two, of which the second is RUNNING, the second becomes current.  The first stays in
    the ring .. -/
theorem JobInv.forward_second (hp : s.Placed) (h : JobInv s t [a, b])
    (hb : t.status b = .running) : ∃ t', JobStep t .forward t' ∧ JobInv s t' [b, a] ∧
      ∀ q, t'.status q = t.status q := by
  have hrun : ∃ q ∈ [a, b], t.status q = .running := ⟨b, by simp, hb⟩
  obtain ⟨t', pre, r, post, hret, hsplit, hpre, -, h', hsame, -⟩ := h.forward hp hrun
  cases pre with
  | nil =>
    obtain ⟨rfl, rfl⟩ := List.cons.inj hsplit
    exact ⟨t', ⟨h.someRunning hp hrun, hret⟩, h', hsame.status⟩
  | cons x pre =>
    obtain ⟨rfl, -⟩ := List.cons.inj hsplit
    exact absurd hb (hpre _ List.mem_cons_self)

/-- .. until it is passed as a TERMINATED one: then it is deleted. -/
theorem JobInv.forward_deletes (hp : s.Placed) (h : JobInv s t [b, a])
    (ha : t.status a = .terminated) (hb : t.status b = .running) :
    ∃ t', JobStep t .forward t' ∧ JobInv s t' [b] := by
  have hrun : ∃ q ∈ [b, a], t.status q = .running := ⟨b, by simp, hb⟩
  obtain ⟨t', pre, r, post, hret, hsplit, -, hr, h', -, -⟩ := h.forward hp hrun
  cases pre with
  | nil =>
    obtain ⟨rfl, -⟩ := List.cons.inj hsplit
    rw [ha] at hr
    exact absurd hr (by decide)
  | cons x pre =>
    obtain ⟨rfl, hrest⟩ := List.cons.inj hsplit
    cases pre with
    | nil =>
      obtain ⟨rfl, rfl⟩ := List.cons.inj hrest
      refine ⟨t', ⟨h.someRunning hp hrun, hret⟩, ?_⟩
      rw [List.nil_append, List.filter_cons_of_neg (by simp [ha]), List.filter_nil] at h'
      exact h'
    | cons y pre => exact absurd (List.cons.inj hrest).2 (by simp)

/-- The slab of the kernel's job table. -/
theorem jobSlab_placed : (jobSlabOf 128 0x41182000).Placed := createdJobSlab_placed

/-- In the kernel's table of 128 jobs, two jobs are created, and the first of them terminates.  The
    next interrupt goes on to the second, and the one after it past the first to the second again:
    then the first is deleted. -/
theorem job_ring_invariant_two : ∃ t₁ t₂ t₃ t₄ t₅ : JobTable,
    JobStep emptyJobTable (.create 0x80000000 0x80002000 (fun _ => 0) 0x41000000) t₁ ∧
    JobStep t₁ (.create 0x80000000 0x80003000 (fun _ => 0) 0x41001000) t₂ ∧
    JobStep t₂ .terminate t₃ ∧ JobStep t₃ .forward t₄ ∧ JobStep t₄ .forward t₅ ∧
    (aliveJobs t₄.log).length = 2 ∧ JobRing (jobSlabOf 128 0x41182000) t₄ ∧
    (aliveJobs t₅.log).length = 1 ∧ JobRing (jobSlabOf 128 0x41182000) t₅ := by
  obtain ⟨hfit, hspace, -⟩ := jobSlab_checks
  have hp := jobSlab_placed
  have hstart : (jobMachine 128 0x41182000).start emptyJobTable := ⟨fun _ => 0, rfl, rfl, rfl⟩
  have h₀ := JobInv.start hp hstart
  obtain ⟨a, t₁, hcall₁, h₁, -, -⟩ := h₀.create hp (h₀.slots.exists_free hp (by decide))
    0x80000000 0x80002000 (fun _ => 0) 0x41000000
  have hs₁ : JobStep emptyJobTable (.create 0x80000000 0x80002000 (fun _ => 0) 0x41000000) t₁ :=
    ⟨h₀.slots.exists_free hp (by decide), a, hcall₁⟩
  have hfree₁ := h₁.slots.exists_free hp (show 1 < 128 by decide)
  obtain ⟨b, t₂, hcall₂, h₂, -, hstatus⟩ := h₁.create hp hfree₁ 0x80000000 0x80003000 (fun _ => 0)
    0x41001000
  have hs₂ : JobStep t₁ (.create 0x80000000 0x80003000 (fun _ => 0) 0x41001000) t₂ :=
    ⟨by rw [h₁.slab]; exact hfree₁, b, hcall₂⟩
  have hcur : t₂.currentJob = a := h₂.current_eq
  have hab : b ≠ a := by
    have hnodup := h₂.slots.nodup
    exact fun heq => (List.nodup_cons.mp hnodup).1 (heq ▸ List.mem_cons_self)
  -- the first job terminates
  have hs₃ : JobStep t₂ .terminate (jobTerminate t₂) := by
    obtain ⟨k, -, hk⟩ := h₂.slots.slots a List.mem_cons_self
    have hpos := hp.slotAddr_pos k
    exact ⟨by omega, rfl⟩
  have h₃ : JobInv (jobSlabOf 128 0x41182000) (jobTerminate t₂) [a, b] :=
    h₂.congr rfl (fun _ _ => rfl) rfl (fun _ => next_setJob_of_next rfl) rfl
  have hstatus₃ : ∀ q, (jobTerminate t₂).status q
      = if q = a then .terminated else t₂.status q := by
    intro q
    rw [jobTerminate, JobTable.status_setJob, hcur]
  have hb₃ : (jobTerminate t₂).status b = .running := by
    rw [hstatus₃, if_neg hab, hstatus, if_pos rfl]
  obtain ⟨t₄, hs₄, h₄, hstatus₄⟩ := h₃.forward_second hp hb₃
  obtain ⟨t₅, hs₅, h₅⟩ := h₄.forward_deletes hp (by rw [hstatus₄, hstatus₃, if_pos rfl])
    ((hstatus₄ b).trans hb₃)
  have hr₄ := JobStep.reach (JobStep.reach (JobStep.reach (JobStep.reach (.start hstart) hs₁) hs₂)
    hs₃) hs₄
  exact ⟨t₁, t₂, _, t₄, t₅, hs₁, hs₂, hs₃, hs₄, hs₅, h₄.history.length_eq.symm,
    (job_ring_invariant (by decide) hfit hspace hr₄).1, h₅.history.length_eq.symm,
    (job_ring_invariant (by decide) hfit hspace (JobStep.reach hr₄ hs₅)).1⟩

end TinyKernel
