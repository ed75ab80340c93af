/-
  The job table, `kernel/mp/job.c`.

  Jobs live in slots of a slab and are chained into a circular list through their `next` fields;
  `current_job` points into it.  The slab's header is raw memory (the allocator is the one of
  `Alloc.Slab`), the job structures themselves are kept as records indexed by their address: the
  header and the objects of a slab never overlap, and no function here reads a job through a
  pointer of another type.

  `job_delete` and `job_forward` loop along the list, so their models take a number of rounds
  and end in `Fault.noReturn` when it is used up.  The specifications show how many rounds
  suffice.

  `log` is a ghost: it records the jobs created and deleted, newest first.
-/
import TinyKernel.Lib.Ring
import TinyKernel.Alloc.Slab

namespace TinyKernel

/-- `enum job_status`. -/
inductive JobStatus
  | running
  | sleeping
  | terminated
  deriving Repr, DecidableEq

/-- `MAX_NAME_CHAR`. -/
def maxNameChar : Nat := 30

/-- `JOB_MAX_FILES`. -/
def jobMaxFiles : Nat := 8

/-- `struct job`.  `name` is the bytes from the start of the structure (the field has
    `MAX_NAME_CHAR` of them), pointers are addresses. -/
structure Job where
  name : Mem
  status : JobStatus
  x : Fin 31 → Word
  pc : Word
  sp : Word
  paging : Nat
  openFiles : Nat → Nat
  openFilesCount : Int
  next : Nat

/-- `sizeof(struct job)`. -/
def jobStructSize : Nat := 392

/-- What happened to a job. -/
inductive JobAction
  | created (job : Nat)
  /-- With the status the job had, and the paging manager that was freed with it. -/
  | deleted (job : Nat) (status : JobStatus) (paging : Nat)
  deriving Repr, DecidableEq

/-- The state of `job.c`. -/
structure JobTable where
  jobSlab : Slab
  mem : Mem
  jobs : Nat → Job
  /-- `current_job`; 0 is `NULL`. -/
  currentJob : Nat
  log : List JobAction

namespace JobTable

/-- Store to the job at `p`. -/
def setJob (t : JobTable) (p : Nat) (f : Job → Job) : JobTable :=
  { t with jobs := Function.update t.jobs p (f (t.jobs p)) }

/-- `current_job = p`. -/
def setCurrent (t : JobTable) (p : Nat) : JobTable := { t with currentJob := p }

/-- The `next` fields, as a successor function. -/
def next (t : JobTable) (p : Nat) : Nat := (t.jobs p).next

/-- The status of the job at `p`. -/
def status (t : JobTable) (p : Nat) : JobStatus := (t.jobs p).status

end JobTable

/-! ## The source -/

/-- `job_init_slab`, with the zone `kalloc` returned. -/
def jobInitSlab (maxJobs slabZone : Nat) (m : Mem) : Slab × Mem :=
  slabCreate jobStructSize maxJobs slabZone m

/-- "Adds the newly created job after the current one." -/
def jobLink (t : JobTable) (job : Nat) : JobTable :=
  if t.currentJob = 0 then (t.setCurrent job).setJob job fun j => { j with next := job }
  else
    let save := t.next t.currentJob
    let t := t.setJob t.currentJob fun j => { j with next := job }
    t.setJob job fun j => { j with next := save }

/-- The fields `job_create` sets before it links the job in. -/
def jobHead (t : JobTable) (job : Nat) (entry sp : Word) (paging : Nat) : JobTable :=
  t.setJob job fun j => { j with status := .running, pc := entry, sp := sp, paging := paging }

/-- The fields `job_create` sets after it. -/
def jobTail (t : JobTable) (job : Nat) (name : Mem) : JobTable :=
  t.setJob job fun j =>
    { j with
      name := strncpy name 0 maxNameChar j.name
      x := fun _ => 0
      openFiles := fun i => if i < jobMaxFiles then 0 else j.openFiles i
      openFilesCount := 0 }

/-- `job_create` once the slot is allocated. -/
def jobFill (t : JobTable) (job : Nat) (entry sp : Word) (name : Mem) (paging : Nat) : JobTable :=
  let t := jobTail (jobLink (jobHead t job entry sp paging) job) job name
  { t with log := .created job :: t.log }

/-- `job_create`: the new job and the table. -/
def jobCreate (t : JobTable) (entry sp : Word) (name : Mem) (paging : Nat) :
    Except Fault (Nat × JobTable) := do
  let (job, mem) ← slabAllocate t.jobSlab t.mem
  return (job, jobFill { t with mem := mem } job entry sp name paging)

/-- The loop of `job_delete`: `while (curr_ptr != job) ..`; the result is `last_ptr`. -/
def jobDeleteWalk (t : JobTable) (job : Nat) : Nat → Nat → Nat → Except Fault Nat
  | 0, _, _ => .error .noReturn
  | rounds + 1, lastPtr, currPtr =>
    if currPtr = job then .ok lastPtr
    else jobDeleteWalk t job rounds currPtr (t.next currPtr)

/-- `job_delete` after the loop: unlink, free, and restore the current job. -/
def jobUnlink (t : JobTable) (job lastPtr restoreJob : Nat) (mem : Mem) : JobTable :=
  let t := t.setJob lastPtr fun j => { j with next := t.next job }
  { t with mem := mem, currentJob := restoreJob,
           log := .deleted job (t.status job) (t.jobs job).paging :: t.log }

/-- `job_delete`. -/
def jobDelete (rounds : Nat) (t : JobTable) (job : Nat) : Except Fault JobTable := do
  let lastPtr := t.currentJob
  let currPtr := t.next t.currentJob
  let restoreJob := if job = t.currentJob then t.next t.currentJob else t.currentJob
  -- "Trying to delete init job": the kernel stops here for good
  if lastPtr = currPtr then throw .noReturn
  let lastPtr ← jobDeleteWalk t job rounds lastPtr currPtr
  let (_, mem) ← slabFree t.jobSlab t.mem job
  return jobUnlink t job lastPtr restoreJob mem

/-- The loop of `job_forward`. -/
def jobForwardLoop (rounds : Nat) : Nat → JobTable → Except Fault JobTable
  | 0, _ => .error .noReturn
  | n + 1, t =>
    match t.status t.currentJob with
    | .running => .ok t
    | .terminated => do
      let t ← jobDelete rounds t t.currentJob
      jobForwardLoop rounds n t
    | .sleeping => jobForwardLoop rounds n (t.setCurrent (t.next t.currentJob))

/-- `job_forward`. -/
def jobForward (rounds : Nat) (t : JobTable) : Except Fault JobTable :=
  jobForwardLoop rounds rounds (t.setCurrent (t.next t.currentJob))

/-- `job_terminate`. -/
def jobTerminate (t : JobTable) : JobTable :=
  t.setJob t.currentJob fun j => { j with status := .terminated }

/-- The search loop of `job_add_file`, `while (job->open_files[fd] != NULL) fd++`. -/
def jobAddFileSearch (job : Job) : Nat → Nat → Except Fault Nat
  | 0, _ => .error .noReturn
  | rounds + 1, fd => if job.openFiles fd = 0 then .ok fd else jobAddFileSearch job rounds (fd + 1)

/-- `job_add_file`: the descriptor, or -1. -/
def jobAddFile (rounds : Nat) (job : Job) (inode : Nat) : Except Fault (Int × Job) :=
  if (jobMaxFiles : Int) ≤ job.openFilesCount then .ok (-1, job)
  else do
    let fd ← jobAddFileSearch job rounds 0
    return (fd, { job with openFiles := Function.update job.openFiles fd inode
                           openFilesCount := job.openFilesCount + 1 })

/-- `job_get_file`; 0 is `NULL`. -/
def jobGetFile (job : Job) (fd : Int) : Nat :=
  if fd < 0 ∨ job.openFilesCount ≤ fd then 0 else job.openFiles fd.toNat

/-! ## What the operations do to the links and the states -/

variable {t : JobTable}

/-- From `t` to `t'` no job changed, but for its `next` field. -/
def SameJobs (t t' : JobTable) : Prop := ∀ q, t'.jobs q = { t.jobs q with next := t'.next q }

theorem SameJobs.refl (t : JobTable) : SameJobs t t := fun _ => rfl

theorem SameJobs.trans {t₁ t₂ : JobTable} (h : SameJobs t t₁) (h' : SameJobs t₁ t₂) :
    SameJobs t t₂ := by
  intro q
  rw [h' q, h q]

theorem SameJobs.status {t' : JobTable} (h : SameJobs t t') (q : Nat) :
    t'.status q = t.status q := by
  rw [JobTable.status, h q]
  rfl

/-- What the log says about the deletion of the TERMINATED job `q`. -/
def deletion (t : JobTable) (q : Nat) : JobAction := .deleted q .terminated (t.jobs q).paging

theorem SameJobs.deletion {t' : JobTable} (h : SameJobs t t') (q : Nat) :
    deletion t' q = TinyKernel.deletion t q := by
  rw [TinyKernel.deletion, h q]
  rfl

/-- `job_forward` when the next job is RUNNING. -/
theorem jobForward_of_running (n : Nat) (h : t.status (t.next t.currentJob) = .running) :
    jobForward (n + 1) t = .ok (t.setCurrent (t.next t.currentJob)) := by
  have hstatus : (t.setCurrent (t.next t.currentJob)).status
      (t.setCurrent (t.next t.currentJob)).currentJob = .running := h
  rw [jobForward, jobForwardLoop, hstatus]

namespace JobTable

/-- Any field of a job after a store. -/
theorem field_setJob {β : Type} (g : Job → β) (t : JobTable) (p q : Nat) (f : Job → Job) :
    g ((t.setJob p f).jobs q) = if q = p then g (f (t.jobs p)) else g (t.jobs q) := by
  unfold setJob
  by_cases h : q = p
  · rw [if_pos h, h]; simp
  · rw [if_neg h]; simp [Function.update_of_ne h]

theorem next_setJob (t : JobTable) (p q : Nat) (f : Job → Job) :
    (t.setJob p f).next q = if q = p then (f (t.jobs p)).next else t.next q :=
  field_setJob Job.next t p q f

theorem status_setJob (t : JobTable) (p q : Nat) (f : Job → Job) :
    (t.setJob p f).status q = if q = p then (f (t.jobs p)).status else t.status q :=
  field_setJob Job.status t p q f

end JobTable

/-- A store that keeps a field of the job it goes to keeps it in every job. -/
theorem field_setJob_of_eq {β : Type} {g : Job → β} {p q : Nat} {f : Job → Job}
    (h : g (f (t.jobs p)) = g (t.jobs p)) : g ((t.setJob p f).jobs q) = g (t.jobs q) := by
  rw [t.field_setJob g]
  split
  · rename_i hq
    rw [h, hq]
  · rfl

/-- A store to other fields keeps the links. -/
theorem next_setJob_of_next {p q : Nat} {f : Job → Job} (h : (f (t.jobs p)).next = t.next p) :
    (t.setJob p f).next q = t.next q :=
  field_setJob_of_eq h

/-- A store to other fields keeps the states. -/
theorem status_setJob_of_status {p q : Nat} {f : Job → Job}
    (h : (f (t.jobs p)).status = t.status p) : (t.setJob p f).status q = t.status q :=
  field_setJob_of_eq h

/-- Taking a job out of the ring changes one link. -/
theorem jobUnlink_next (job z restore : Nat) (mem : Mem) (q : Nat) :
    (jobUnlink t job z restore mem).next q = if q = z then t.next job else t.next q :=
  t.next_setJob z q fun j => { j with next := t.next job }

theorem jobUnlink_same (job z restore : Nat) (mem : Mem) :
    SameJobs t (jobUnlink t job z restore mem) := by
  intro q
  show Function.update t.jobs z _ q = { t.jobs q with
    next := (Function.update t.jobs z { t.jobs z with next := t.next job } q).next }
  by_cases hq : q = z
  · rw [hq, Function.update_self]
  · rw [Function.update_of_ne hq]

theorem jobUnlink_log {job : Nat} (hterm : t.status job = .terminated) (z restore : Nat) (mem : Mem) :
    (jobUnlink t job z restore mem).log = deletion t job :: t.log := by
  have hst : (t.setJob z fun j => { j with next := t.next job }).status job = .terminated := by
    rw [status_setJob_of_status rfl, hterm]
  have hpg : ((t.setJob z fun j => { j with next := t.next job }).jobs job).paging
      = (t.jobs job).paging := field_setJob_of_eq rfl
  show JobAction.deleted job _ _ :: t.log = _
  rw [hst, hpg]
  rfl

theorem jobLink_of_null (t : JobTable) (job : Nat) (h : t.currentJob = 0) :
    (jobLink t job).currentJob = job ∧
      ∀ q, (jobLink t job).next q = if q = job then job else t.next q := by
  rw [jobLink, if_pos h]
  exact ⟨rfl, fun q => JobTable.next_setJob _ _ _ _⟩

theorem jobLink_of_current (t : JobTable) (job : Nat) (h : t.currentJob ≠ 0) :
    (jobLink t job).currentJob = t.currentJob ∧
      ∀ q, (jobLink t job).next q = if q = job then t.next t.currentJob
        else if q = t.currentJob then job else t.next q := by
  rw [jobLink, if_neg h]
  refine ⟨rfl, fun q => ?_⟩
  simp only [JobTable.next_setJob]

/-- Linking a job in changes no field but `next`. -/
theorem jobLink_field {β : Type} {g : Job → β} (hg : ∀ j n, g { j with next := n } = g j)
    (job q : Nat) : g ((jobLink t job).jobs q) = g (t.jobs q) := by
  unfold jobLink
  split
  · exact field_setJob_of_eq (hg _ _)
  · exact (field_setJob_of_eq (hg _ _)).trans (field_setJob_of_eq (hg _ _))

theorem jobLink_rest (job : Nat) : (jobLink t job).jobSlab = t.jobSlab ∧
    (jobLink t job).mem = t.mem ∧ (jobLink t job).log = t.log := by
  unfold jobLink
  split <;> exact ⟨rfl, rfl, rfl⟩

section Fill

variable (job : Nat) (entry sp : Word) (name : Mem) (paging : Nat)

/-- `job_create` changes the links by `jobLink` alone. -/
theorem jobFill_next (q : Nat) : (jobFill t job entry sp name paging).next q
    = (jobLink (jobHead t job entry sp paging) job).next q := by
  show (jobTail (jobLink (jobHead t job entry sp paging) job) job name).next q = _
  exact next_setJob_of_next rfl

theorem jobHead_next (q : Nat) : (jobHead t job entry sp paging).next q = t.next q :=
  next_setJob_of_next rfl

theorem jobFill_status (q : Nat) : (jobFill t job entry sp name paging).status q
    = if q = job then .running else t.status q := by
  show (jobTail (jobLink (jobHead t job entry sp paging) job) job name).status q = _
  rw [jobTail, status_setJob_of_status rfl, JobTable.status,
    jobLink_field (g := Job.status) (fun _ _ => rfl)]
  exact JobTable.status_setJob ..

theorem jobFill_rest : (jobFill t job entry sp name paging).jobSlab = t.jobSlab ∧
    (jobFill t job entry sp name paging).mem = t.mem ∧
    (jobFill t job entry sp name paging).log = .created job :: t.log := by
  obtain ⟨h1, h2, h3⟩ := jobLink_rest (t := jobHead t job entry sp paging) job
  exact ⟨h1, h2, congrArg _ h3⟩

/-- The context of a job that was just created. -/
theorem jobFill_self : ((jobFill t job entry sp name paging).jobs job).x = (fun _ => 0) ∧
    ((jobFill t job entry sp name paging).jobs job).pc = entry ∧
    ((jobFill t job entry sp name paging).jobs job).sp = sp := by
  have htail : (jobFill t job entry sp name paging).jobs job = _ := Function.update_self ..
  have hhead : (jobHead t job entry sp paging).jobs job = _ := Function.update_self ..
  rw [htail]
  refine ⟨rfl, ?_, ?_⟩
  · show ((jobLink (jobHead t job entry sp paging) job).jobs job).pc = entry
    rw [jobLink_field (g := Job.pc) (fun _ _ => rfl), hhead]
  · show ((jobLink (jobHead t job entry sp paging) job).jobs job).sp = sp
    rw [jobLink_field (g := Job.sp) (fun _ _ => rfl), hhead]

theorem jobFill_paging (q : Nat) : ((jobFill t job entry sp name paging).jobs q).paging
    = if q = job then paging else (t.jobs q).paging := by
  show ((jobTail (jobLink (jobHead t job entry sp paging) job) job name).jobs q).paging = _
  rw [jobTail, field_setJob_of_eq (g := Job.paging) rfl,
    jobLink_field (g := Job.paging) (fun _ _ => rfl)]
  exact t.field_setJob Job.paging ..

/-- Creating a job changes no field of the others but `next`. -/
theorem jobFill_other {β : Type} {g : Job → β} (hg : ∀ j n, g { j with next := n } = g j)
    {q : Nat} (hq : q ≠ job) : g ((jobFill t job entry sp name paging).jobs q) = g (t.jobs q) := by
  have htail : (jobFill t job entry sp name paging).jobs q = _ := Function.update_of_ne hq _ _
  have hhead : (jobHead t job entry sp paging).jobs q = _ := Function.update_of_ne hq _ _
  rw [htail, jobLink_field hg, hhead]

end Fill

/-- What a call of `job_create` that returns has done. -/
theorem jobCreate_ok {t' : JobTable} {entry sp : Word} {name : Mem} {paging p : Nat}
    (h : jobCreate t entry sp name paging = .ok (p, t')) :
    ∃ mem, slabAllocate t.jobSlab t.mem = .ok (p, mem) ∧
      t' = jobFill { t with mem := mem } p entry sp name paging := by
  obtain ⟨⟨p', mem⟩, hslab, h⟩ := bind_eq_ok h
  obtain ⟨rfl, rfl⟩ := Prod.mk.inj (Except.ok.inj h)
  exact ⟨mem, hslab, rfl⟩

/-- `job_add_file` changes the list of open files and nothing else. -/
theorem jobAddFile_ok {rounds inode : Nat} {job job' : Job} {fd : Int}
    (h : jobAddFile rounds job inode = .ok (fd, job')) :
    ∃ files count, job' = { job with openFiles := files, openFilesCount := count } := by
  rw [jobAddFile] at h
  split at h
  · obtain ⟨-, rfl⟩ := Prod.mk.inj (Except.ok.inj h)
    exact ⟨_, _, rfl⟩
  · obtain ⟨i, -, h⟩ := bind_eq_ok h
    obtain ⟨-, rfl⟩ := Prod.mk.inj (Except.ok.inj h)
    exact ⟨_, _, rfl⟩

end TinyKernel
