/-
  How long a RUNNING job waits for its turn, in runs of the whole kernel.

  The measure is `JobTable.ahead`: how many RUNNING jobs come up before the job `q` when one follows
  the ring from the current job on.  One timer interrupt takes the first of them out, unless that is
  `q` itself; a new job is linked in right behind the current one, so it comes up before all others;
  nothing else changes the measure.  So the account is exact (`running_job_waits`): a job waits as
  many turns as there were RUNNING jobs ahead of it, and one more for every program that is started
  in the meantime.

  Each event has its lemma: `SystemInv.timer_waits` for the turn that is taken, `SystemInv.start_waits`
  for the job that is linked in, and `SystemInv.waits` for all of them.  `SystemGood.waits` is
  the induction on the run; it stops at the first turn of `q`, because from there on the job
  is last again and the account starts anew.
-/
import TinyKernel.Mp.Isolation
import TinyKernel.Mp.RoundRobin

namespace TinyKernel

/-! ## The measure -/

namespace JobTable

/-- The jobs in the order in which `job_forward` comes to them: the current one is the last. -/
def behind (t : JobTable) : List Nat :=
  orbit t.next (aliveJobs t.log).length (t.next t.currentJob)

/-- The RUNNING jobs that come up before `q`. -/
def ahead (t : JobTable) (q : Nat) : Nat := (runningJobs t t.behind).idxOf q

end JobTable

def SystemEvent.isTimer : SystemEvent → Bool
  | .timer _ => true
  | _ => false

/-- From the second node on, round a ring. -/
theorem Linked.orbit_behind {α : Type} {next : α → α} {a : α} {l : List α}
    (h : Linked next a l a) : orbit next (a :: l).length (next a) = l ++ [a] := by
  cases l with
  | nil =>
    have hself : next a = a := h
    rw [hself]
    rfl
  | cons b l =>
    have horbit := h.rotate.orbit_eq.1
    rw [List.length_cons, List.length_append, List.length_singleton] at horbit
    rw [show next a = b from h.1]
    exact horbit

variable {s : Slab} {t t' : JobTable} {a q : Nat} {l : List Nat}

theorem JobInv.behind_eq (h : JobInv s t (a :: l)) : t.behind = l ++ [a] := by
  rw [JobTable.behind, ← h.history.length_eq, h.current_eq]
  exact h.linked.orbit_behind

/-- A change that keeps the links and the states. -/
theorem JobTable.ahead_congr (hnext : ∀ p, t'.next p = t.next p)
    (hcur : t'.currentJob = t.currentJob) (hlog : t'.log = t.log)
    (hstatus : ∀ p, t'.status p = t.status p) (q : Nat) : t'.ahead q = t.ahead q := by
  have hsame : runningJobs t' = runningJobs t := by
    funext order
    simp only [runningJobs, hstatus]
  rw [JobTable.ahead, JobTable.ahead, JobTable.behind, JobTable.behind, hlog, hcur, hnext,
    funext hnext, hsame]

/-- What the states of the others are plays no role, nor that of the current job. -/
theorem JobInv.ahead_congr (h : JobInv s t (a :: l)) (h' : JobInv s t' (a :: l))
    (hstatus : ∀ p ∈ l, t'.status p = t.status p) (hq : q ∈ l) (hrun : t.status q = .running) :
    t'.ahead q = t.ahead q := by
  have hsame : runningJobs t' l = runningJobs t l :=
    List.filter_congr fun p hp => by rw [hstatus p hp]
  have hin : q ∈ runningJobs t l := List.mem_filter.mpr ⟨hq, decide_eq_true hrun⟩
  rw [JobTable.ahead, JobTable.ahead, h.behind_eq, h'.behind_eq, runningJobs, runningJobs,
    List.filter_append, List.filter_append]
  change (runningJobs t' l ++ _).idxOf q = (runningJobs t l ++ _).idxOf q
  rw [hsame, List.idxOf_append_of_mem hin, List.idxOf_append_of_mem hin]

/-- A new job comes up first. -/
theorem JobInv.ahead_create {job : Nat} (h : JobInv s t (a :: l)) (h' : JobInv s t' (a :: job :: l))
    (hstatus : ∀ p ∈ a :: l, t'.status p = t.status p) (hnew : t'.status job = .running)
    (hq : job ≠ q) : t'.ahead q = t.ahead q + 1 := by
  have hsame : runningJobs t' (l ++ [a]) = runningJobs t (l ++ [a]) :=
    List.filter_congr fun p hp => by
      rw [hstatus p ((List.perm_append_singleton a l).mem_iff.mp hp)]
  have hcons : runningJobs t' (job :: l ++ [a]) = job :: runningJobs t' (l ++ [a]) :=
    List.filter_cons_of_pos (by simpa using hnew)
  rw [JobTable.ahead, JobTable.ahead, h.behind_eq, h'.behind_eq, hcons, hsame,
    List.idxOf_cons_ne _ hq]

/-- A turn takes the first one out, and puts it at the end. -/
theorem JobInv.ahead_forward {pre post rest : List Nat} {r : Nat} (h : JobInv s t (a :: l))
    (hsplit : l ++ [a] = pre ++ r :: post) (hpre : ∀ p ∈ pre, t.status p ≠ .running)
    (hr : t.status r = .running) (h' : JobInv s t' (r :: (post ++ rest)))
    (hrest : ∀ p ∈ rest, t.status p ≠ .running) (hstatus : ∀ p, t'.status p = t.status p)
    (hq : q ∈ a :: l) (hrun : t.status q = .running) (hne : r ≠ q) :
    q ∈ post ∧ 1 + t'.ahead q = t.ahead q := by
  have hnone : ∀ passed : List Nat, (∀ p ∈ passed, t.status p ≠ .running) →
      runningJobs t passed = [] := fun passed hp =>
    List.filter_eq_nil_iff.mpr fun p hin => by simpa using hp p hin
  have hpost : q ∈ post := by
    have hin := (List.perm_append_singleton a l).mem_iff.mpr hq
    rw [hsplit, List.mem_append, List.mem_cons] at hin
    rcases hin with hin | rfl | hin
    · exact absurd hrun (hpre q hin)
    · exact absurd rfl hne
    · exact hin
  have hbefore : runningJobs t (l ++ [a]) = r :: runningJobs t post := by
    rw [hsplit, runningJobs, List.filter_append, List.filter_cons_of_pos (by simpa using hr)]
    exact congrArg (· ++ _) (hnone pre hpre)
  have hafter : runningJobs t' (post ++ rest ++ [r]) = runningJobs t post ++ [r] := by
    have hsame : runningJobs t' = runningJobs t := by
      funext order
      simp only [runningJobs, hstatus]
    rw [hsame, runningJobs, List.filter_append, List.filter_append,
      List.filter_cons_of_pos (by simpa using hr), List.filter_nil]
    exact congrArg (· ++ [r]) ((congrArg (_ ++ ·) (hnone rest hrest)).trans (List.append_nil _))
  have hin : q ∈ runningJobs t post := List.mem_filter.mpr ⟨hpost, decide_eq_true hrun⟩
  refine ⟨hpost, ?_⟩
  rw [JobTable.ahead, JobTable.ahead, h.behind_eq, h'.behind_eq, hbefore, hafter,
    List.idxOf_append_of_mem hin, List.idxOf_cons_ne _ hne]
  omega

/-! ## One event -/

/-- `q` is in the ring and RUNNING. -/
def SystemState.Ready (st : SystemState) (q : Nat) : Prop :=
  st.InRing q ∧ st.table.status q = .running

section Events

variable {volume : Volume} {st st' : SystemState} {order : List Nat}

/-- A timer interrupt makes `q` current, or brings it nearer by one. -/
theorem SystemInv.timer_waits (h : SystemInv s st (a :: l)) {c : Cpu}
    (hstep : SystemStep volume st (.timer c) st') (hq : q ∈ a :: l)
    (hrun : st.table.status q = .running) :
    st'.table.currentJob = q ∨ (st'.Ready q ∧ 1 + st'.table.ahead q = st.table.ahead q) := by
  obtain ⟨-, ⟨enough, hret⟩⟩ := hstep
  have hsaved := h.jobs.savedTable c
  obtain ⟨t, pre, r, post, ⟨enough', hret'⟩, hsplit, hpre, hr, hjobs, hsame, -, -⟩ :=
    hsaved.forward h.placed ⟨q, hq, (savedTable_status ..).trans hrun⟩
  obtain ⟨st₁, hres, hst'⟩ := bind_eq_ok (hret (max enough enough') (Nat.le_max_left _ _))
  obtain ⟨t', ht', hst₁⟩ := bind_eq_ok hres
  obtain rfl := Except.ok.inj ((hret' _ (Nat.le_max_right enough enough')).symm.trans ht')
  obtain rfl := Except.ok.inj hst₁
  obtain rfl := Except.ok.inj hst'
  by_cases hne : r = q
  · left
    exact hjobs.current_eq.trans hne
  right
  have hrest : ∀ p ∈ pre.filter fun p => (savedTable st.table c).status p = .sleeping,
      (savedTable st.table c).status p ≠ .running := fun p hp =>
    hpre p (List.mem_of_mem_filter hp)
  obtain ⟨hpost, hcount⟩ := hsaved.ahead_forward hsplit hpre hr hjobs hrest hsame.status hq
    ((savedTable_status ..).trans hrun) hne
  have hahead : (savedTable st.table c).ahead q = st.table.ahead q := by
    rw [JobTable.ahead, JobTable.ahead, hsaved.behind_eq, h.jobs.behind_eq]
    simp only [runningJobs, savedTable_status]
  have hmem : q ∈ r :: (post ++ pre.filter fun p => (savedTable st.table c).status p = .sleeping) :=
    List.mem_cons_of_mem _ (List.mem_append_left _ hpost)
  refine ⟨⟨hjobs.reaches h.placed hmem, ?_⟩, hcount.trans hahead⟩
  show t.status q = _
  rw [hsame.status, savedTable_status]
  exact hrun

/-- The job that a spawn adds is RUNNING, and no other changes its state. -/
theorem SystemInv.spawn_status (h : SystemInv s st (a :: l)) {garbage : Garbage}
    {filename : List Byte} (hstep : SystemStep volume st (.spawn garbage filename) st') :
    ∃ job, SystemInv s st' (a :: job :: l) ∧
      ∀ p, st'.table.status p = if p = job then .running else st.table.status p := by
  obtain ⟨-, ⟨enough, hret⟩, hall⟩ := hstep
  have hres := hret enough (Nat.le_refl _)
  obtain ⟨job, pm, initMem, size, hst⟩ := spawn_started h.fs hres hall
  obtain ⟨role, spaces, hspaces⟩ := h.spaces
  obtain ⟨htables, role', space, hspaces'⟩ := spawn_spaces h.fs hspaces hres
  obtain ⟨hinv, -⟩ := h.started hst ⟨htables, role', space, spaces, hspaces'⟩
  obtain ⟨mem, entry, sp, name, -, htable⟩ := hst.table
  exact ⟨job, hinv, fun p => by rw [htable, jobFill_status]; rfl⟩

/-- A new job is linked in before `q`. -/
theorem SystemInv.start_waits {job : Nat} (h : SystemInv s st (a :: l))
    (h' : SystemInv s st' (a :: job :: l))
    (hstatus : ∀ p, st'.table.status p = if p = job then .running else st.table.status p)
    (hq : q ∈ a :: l) (hrun : st.table.status q = .running) :
    st'.Ready q ∧ st'.table.ahead q = st.table.ahead q + 1 := by
  have hnodup := (insertSecond_perm job (a :: l)).nodup_iff.mp h'.jobs.slots.nodup
  have hnew := (List.nodup_cons.mp hnodup).1
  have hother : ∀ p ∈ a :: l, st'.table.status p = st.table.status p := by
    intro p hp
    refine (hstatus p).trans (if_neg ?_)
    rintro rfl
    exact hnew hp
  refine ⟨⟨(h'.inRing_iff q).mpr ?_, (hother q hq).trans hrun⟩, ?_⟩
  · have hin : q ∈ insertSecond job (a :: l) := mem_insertSecond.mpr (Or.inr hq)
    exact hin
  · refine h.jobs.ahead_create h'.jobs hother ((hstatus job).trans (if_pos rfl)) ?_
    rintro rfl
    exact hnew hq

/-- **One event**, when `q` does not end: a timer interrupt makes it current or brings it nearer, a
    start puts one job before it. -/
theorem SystemInv.waits (h : SystemInv s st order) (happ : ∀ a ∈ order.head?, st.Applied a)
    {e : SystemEvent} (hstep : SystemStep volume st e st') (hq : st.Ready q)
    (hexit : e = .terminate → st.table.currentJob ≠ q) :
    (e.isTimer = true ∧ st'.table.currentJob = q) ∨
    (st'.Ready q ∧ e.isTimer.toNat + st'.table.ahead q = st.table.ahead q + e.starts.toNat) := by
  obtain ⟨hin, hrun⟩ := hq
  have hmem := h.mem_of_inRing hin
  obtain ⟨a, l, rfl, ha⟩ := h.jobs.nonempty hin.1
  cases e with
  | timer c =>
    refine (h.timer_waits hstep hmem hrun).imp (fun hcur => ⟨rfl, hcur⟩) fun hready => ?_
    exact hready
  | usermode garbage filename name => exact absurd hstep.1 hin.1
  | spawn garbage filename =>
    right
    obtain ⟨job, hinv, hstatus⟩ := h.spawn_status hstep
    have hwaits := h.start_waits hinv hstatus hmem hrun
    exact ⟨hwaits.1, by rw [hwaits.2]; exact Nat.zero_add _⟩
  | «open» garbage filename =>
    right
    obtain ⟨-, ⟨enough, hret⟩⟩ := hstep
    obtain ⟨hinv', -, -⟩ := h.openFile (hret enough (Nat.le_refl _))
    obtain ⟨fs, files, count, -, rfl⟩ := exceptionsInternalOpen_ok (hret enough (Nat.le_refl _))
    have hstatus : ∀ p, (st.table.setJob st.table.currentJob fun j =>
        { j with openFiles := files, openFilesCount := count }).status p = st.table.status p :=
      fun _ => status_setJob_of_status rfl
    refine ⟨⟨(hinv'.inRing_iff q).mpr hmem, (hstatus q).trans hrun⟩, (Nat.zero_add _).trans ?_⟩
    exact JobTable.ahead_congr (fun _ => next_setJob_of_next rfl) rfl rfl hstatus q
  | terminate =>
    right
    obtain ⟨-, rfl⟩ := hstep
    have hinv' := h.terminate
    have hother : ∀ p, p ≠ a → (jobTerminate st.table).status p = st.table.status p := by
      intro p hp
      rw [jobTerminate, JobTable.status_setJob, ha, if_neg hp]
    have hqa : q ≠ a := fun heq => hexit rfl (ha.trans heq.symm)
    have hnodup := List.nodup_cons.mp h.jobs.slots.nodup
    refine ⟨⟨(hinv'.inRing_iff q).mpr hmem, (hother q hqa).trans hrun⟩, ?_⟩
    refine (Nat.zero_add _).trans (h.jobs.ahead_congr hinv'.jobs (fun p hp => hother p ?_)
      ((List.mem_cons.mp hmem).resolve_left hqa) hrun)
    rintro rfl
    exact hnodup.1 hp
  | user mem =>
    right
    obtain ⟨-, rfl⟩ := hstep
    exact ⟨⟨hin, hrun⟩, Nat.zero_add _⟩

/-- The timer interrupt returns when a job is RUNNING. -/
theorem SystemInv.timer_returns (h : SystemInv s st (a :: l))
    (hrun : ∃ q ∈ a :: l, st.table.status q = .running) (c : Cpu) :
    ∃ st', SystemStep volume st (.timer c) st' := by
  obtain ⟨q, hq, hst⟩ := hrun
  obtain ⟨hcur, i, hi⟩ := h.jobs.reaches h.placed hq
  obtain ⟨t, -, -, -, ⟨enough, hret⟩, -⟩ :=
    (h.jobs.savedTable c).forward h.placed ⟨q, hq, (savedTable_status ..).trans hst⟩
  let heap := (freedManagers (savedTable st.table c).log t.log).foldl HeapState.kfree st.heap
  let st₁ : SystemState := { st.setHeap heap with table := t }
  refine ⟨(st₁.pagingManagerApply (t.jobs t.currentJob).paging).2, ⟨hcur, i, hi ▸ hst⟩, enough,
    fun rounds hrounds => ?_⟩
  unfold SystemState.internalHandler SystemState.jobForward
  simp only [hret rounds hrounds, ok_bind]
  rfl

theorem SystemGood.timer_returns (h : SystemGood st) {q : Nat} (hq : st.Ready q) (c : Cpu) :
    ∃ st', SystemStep volume st (.timer c) st' := by
  obtain ⟨s, order, hinv, -⟩ := h
  have hmem := hinv.mem_of_inRing hq.1
  obtain ⟨a, l, rfl, -⟩ := hinv.jobs.nonempty hq.1.1
  exact hinv.timer_returns ⟨q, hmem, hq.2⟩ c

/-- The same over a run.  The induction is on the run; it ends at the first turn of `q`. -/
theorem SystemGood.waits {tr : List (SystemState × SystemEvent × SystemState)}
    (hr : (systemMachine volume).Run st tr st') : SystemGood st → st.Ready q →
    (∀ a b, (a, .terminate, b) ∈ tr → a.table.currentJob ≠ q) →
    (∃ a c b, (a, .timer c, b) ∈ tr ∧ b.table.currentJob = q) ∨
    (st'.Ready q ∧ tr.countP (·.2.1.isTimer) + st'.table.ahead q
      = st.table.ahead q + tr.countP (·.2.1.starts)) := by
  induction hr with
  | nil st => exact fun _ hq _ => Or.inr ⟨hq, Nat.zero_add _⟩
  | @cons st st₁ st₂ e tr hstep _ ih =>
    rintro hgood hq hexit
    obtain ⟨s, order, hinv, happ⟩ := id hgood
    rcases hinv.waits happ hstep hq (fun he => by
      subst he
      exact hexit _ _ List.mem_cons_self) with
      ⟨htimer, hcur⟩ | ⟨hq₁, hcount⟩
    · left
      cases e with
      | timer c => exact ⟨st, c, st₁, List.mem_cons_self, hcur⟩
      | usermode | spawn | «open» | terminate | user => cases htimer
    · refine (ih (hgood.step hstep) hq₁ fun a b hm => hexit a b (List.mem_cons_of_mem _ hm)).imp ?_ ?_
      · rintro ⟨a, c, b, hm, hcur⟩
        exact ⟨a, c, b, List.mem_cons_of_mem _ hm, hcur⟩
      · rintro ⟨hq₂, hrest⟩
        refine ⟨hq₂, ?_⟩
        rw [List.countP_cons, List.countP_cons]
        have hbool : ∀ b : Bool, (if b = true then 1 else 0) = b.toNat := by
          decide
        simp only [hbool]
        omega

/-- A CPU with all registers zero. -/
def firstInterrupt : Cpu := ⟨fun _ => 0, 0, 0, 0, 0, 0, 0⟩

/-- The program spawned its own file: both jobs are RUNNING, and the new one comes up first. -/
theorem programVolume_spawned : ∃ st a b, (systemMachine (programVolume 4)).Reach st ∧ a ≠ b ∧
    st.Ready a ∧ st.Ready b ∧ st.table.ahead b = 0 ∧ st.table.ahead a = 1 := by
  obtain ⟨st₀, st', st, -, -, hboot, hstart, hspawn, -⟩ := programVolume_two
  have hreach : (systemMachine (programVolume 4)).Reach st :=
    .step (e := .spawn noGarbage [0x61, 0x2e, 0x62])
      (.step (e := .usermode noGarbage programName 0) (.start hboot) hstart) hspawn
  obtain ⟨s, hinv₀⟩ := hboot.inv
  obtain ⟨a, hinv', -, hrun, -⟩ := hinv₀.usermode hstart
  obtain ⟨b, hinv, hstatus⟩ := hinv'.spawn_status hspawn
  have hne : a ≠ b := fun heq =>
    (List.nodup_cons.mp hinv.jobs.slots.nodup).1 (heq ▸ List.mem_cons_self)
  have ha : st.table.status a = .running := (hstatus a).trans ((if_neg hne).trans hrun)
  have hb : st.table.status b = .running := (hstatus b).trans (if_pos rfl)
  have horder : runningJobs st.table st.table.behind = [b, a] := by
    rw [hinv.jobs.behind_eq]
    simp [runningJobs, ha, hb]
  refine ⟨st, a, b, hreach, hne, ⟨(hinv.inRing_iff a).mpr (by simp), ha⟩,
    ⟨(hinv.inRing_iff b).mpr (by simp), hb⟩, ?_, ?_⟩
  · rw [JobTable.ahead, horder, List.idxOf_cons_self]
  · rw [JobTable.ahead, horder, List.idxOf_cons_ne _ hne.symm, List.idxOf_cons_self]

/-- The new one gets the first turn, and the other is next. -/
theorem programVolume_turn : ∃ st st₁ a b, (systemMachine (programVolume 4)).Reach st ∧ a ≠ b ∧
    st.Ready b ∧ SystemStep (programVolume 4) st (.timer firstInterrupt) st₁ ∧
    st₁.table.currentJob = b ∧ st₁.Ready a ∧ st₁.table.ahead a = 0 := by
  obtain ⟨st, a, b, hreach, hne, ha, hb, hahead, hahead'⟩ := programVolume_spawned
  have hgood := SystemGood.reach hreach
  obtain ⟨st₁, hstep⟩ : ∃ st₁, SystemStep (programVolume 4) st (.timer firstInterrupt) st₁ :=
    hgood.timer_returns ha firstInterrupt
  have hrun : (systemMachine (programVolume 4)).Run st [(st, .timer firstInterrupt, st₁)] st₁ :=
    .cons hstep (.nil st₁)
  have hcur : st₁.table.currentJob = b := by
    rcases SystemGood.waits hrun hgood hb (fun x y hm => by
      cases List.mem_singleton.mp hm) with ⟨x, c, y, hm, hcur⟩ | ⟨-, hcount⟩
    · cases List.mem_singleton.mp hm
      exact hcur
    · have hone : 1 + st₁.table.ahead b = st.table.ahead b + 0 := hcount
      omega
  refine ⟨st, st₁, a, b, hreach, hne, hb, hstep, hcur, ?_⟩
  rcases SystemGood.waits hrun hgood ha (fun x y hm => by
    cases List.mem_singleton.mp hm) with ⟨x, c, y, hm, hcur'⟩ | ⟨hready, hcount⟩
  · cases List.mem_singleton.mp hm
    exact absurd (hcur'.symm.trans hcur) hne
  · have hone : 1 + st₁.table.ahead a = st.table.ahead a + 0 := hcount
    exact ⟨hready, by omega⟩

end Events

/-- **Waiting.**  In every run of the kernel from a reachable state, a RUNNING job that does not end
    itself either gets a turn, or has waited for exactly as many turns of others as there were
    RUNNING jobs ahead of it and programs started since, less those that are still ahead of it. -/
theorem running_job_waits {volume : Volume} {st st' : SystemState}
    {tr : List (SystemState × SystemEvent × SystemState)} (hreach : (systemMachine volume).Reach st)
    (hr : (systemMachine volume).Run st tr st') {q : Nat} (hq : st.InRing q)
    (hrun : st.table.status q = .running)
    (hexit : ∀ a b, (a, .terminate, b) ∈ tr → a.table.currentJob ≠ q) :
    (∃ a c b, (a, .timer c, b) ∈ tr ∧ b.table.currentJob = q) ∨
    (st'.InRing q ∧ st'.table.status q = .running ∧
      tr.countP (·.2.1.isTimer) + st'.table.ahead q
        = st.table.ahead q + tr.countP (·.2.1.starts)) := by
  rcases SystemGood.waits hr (SystemGood.reach hreach) ⟨hq, hrun⟩ hexit with
    hturn | ⟨⟨hin, hstatus⟩, hcount⟩
  · exact Or.inl hturn
  · exact Or.inr ⟨hin, hstatus, hcount⟩

/-- The program and the one that it spawned take turns: the new one first. -/
theorem running_job_waits_two : ∃ st st₁ st₂ a b, (systemMachine (programVolume 4)).Reach st ∧
    a ≠ b ∧ SystemStep (programVolume 4) st (.timer firstInterrupt) st₁ ∧
    st₁.table.currentJob = b ∧ SystemStep (programVolume 4) st₁ (.timer firstInterrupt) st₂ ∧
    st₂.table.currentJob = a := by
  obtain ⟨st, st₁, a, b, hreach, hne, -, hstep, hcur, ha, hahead⟩ := programVolume_turn
  have hreach₁ : (systemMachine (programVolume 4)).Reach st₁ :=
    hreach.step (e := .timer firstInterrupt) hstep
  obtain ⟨st₂, hstep₂⟩ : ∃ st₂, SystemStep (programVolume 4) st₁ (.timer firstInterrupt) st₂ :=
    (SystemGood.reach hreach₁).timer_returns ha firstInterrupt
  have hrun : (systemMachine (programVolume 4)).Run st₁ [(st₁, .timer firstInterrupt, st₂)] st₂ :=
    .cons hstep₂ (.nil st₂)
  refine ⟨st, st₁, st₂, a, b, hreach, hne, hstep, hcur, hstep₂, ?_⟩
  rcases running_job_waits hreach₁ hrun ha.1 ha.2 (fun x y hm => by
    cases List.mem_singleton.mp hm) with ⟨x, c, y, hm, hcur₂⟩ | ⟨-, -, hcount⟩
  · cases List.mem_singleton.mp hm
    exact hcur₂
  · have hone : 1 + st₂.table.ahead a = st₁.table.ahead a + 0 := hcount
    omega

end TinyKernel
