/-
  What is left of programs that have ended.

  The kernel hands out five kinds of things: blocks of its heap, inodes, jobs, translation tables
  and frames.  `job_delete` gives two of them back, the job and the block with its paging manager.
  The buffer that `job_create_from_file` read the file into belongs to nobody from the moment the
  call returns, so that already ONE start leaves something behind: `leak_free_iff` says that a run
  has no leak exactly if no program was started in it.

  The invariant is that of `Unowned`: what belongs to nobody is never freed.

  What is handed out is one set, whoever hands it out (`Resource`), and so is what a job holds
  (`Holds`).  The two directions are not alike.  Without a start the ring stays empty, and
  nothing can happen that allocates (`idle_of_no_start`).  With a start the buffer of the file is a
  region that nobody holds; the induction over the rest of the run only has to know that such a
  region stays where it is (`RunInv.leaked`), whatever is given back around it.
-/
import TinyKernel.Mp.SpawnRoom

namespace TinyKernel

/-! ## Resources -/

/-- What the allocators hand out; slots are those of their slab. -/
inductive Resource
  | block (region : Nat × Nat)
  | inode (slot : Nat)
  | job (slot : Nat)
  | table (slot : Nat)
  | frame (slot : Nat)

/-- The tables of the tree at `l1`, with the number of levels under them. -/
inductive TableOf (m : Mem) (l1 : Nat) : Nat → Nat → Prop
  | root : TableOf m l1 2 l1
  | next {below t t' : Nat} {k : Fin 512} (h : TableOf m l1 (below + 1) t)
      (hk : armFormat.inner (tableView m t k) = .next t') : TableOf m l1 below t'

namespace SystemState

/-- It is handed out. -/
def Allocated (st : SystemState) : Resource → Prop
  | .block region => region ∈ st.heap.live
  | .inode slot => slot < fsInodeMax ∧ st.fs.inodeSlab.used st.fs.slabMem slot = true
  | .job slot => slot < st.table.jobSlab.maxStore ∧ st.table.jobSlab.used st.table.mem slot = true
  | .table slot => slot < st.tables.maxStore ∧ st.tables.used st.mem slot = true
  | .frame slot => slot < userSpace.maxStore ∧ userSpace.used st.mem slot = true

/-- The job at `q` has this inode among its open files. -/
def HasOpen (st : SystemState) (q inode : Nat) : Prop :=
  ∃ i, i < jobMaxFiles ∧ (st.table.jobs q).openFiles i = inode

/-- The job at `q` holds it: its slot, its paging manager, its open files with their data, the tables
    of its tree and the frames that are mapped there. -/
def Holds (st : SystemState) (q : Nat) : Resource → Prop
  | .block region => region = (st.managerOf q, sizeofPagingManager) ∨
      ∃ l ∈ st.fs.opened, st.HasOpen q l.inode ∧ region = (l.implInode, sizeofFatInode)
  | .inode slot => st.HasOpen q (st.fs.inodeSlab.slotAddr slot)
  | .job slot => q = st.table.jobSlab.slotAddr slot
  | .table slot => ∃ below,
      TableOf st.mem (st.managers (st.managerOf q)).l1 below (st.tables.slotAddr slot)
  | .frame slot => ∃ va tr, translate st.mem (st.managers (st.managerOf q)).l1 va = some tr ∧
      tr.ap1 = true ∧ userSpace.slotAddr slot ≤ tr.pa ∧ tr.pa < userSpace.slotAddr slot + 0x1000

/-- The job at `q` is in the ring. -/
def InRing (st : SystemState) (q : Nat) : Prop :=
  st.table.currentJob ≠ 0 ∧ ∃ i, q = st.table.next^[i] st.table.currentJob

/-- `job_forward` has deleted every TERMINATED job. -/
def AllDeleted (st : SystemState) : Prop := ∀ q, st.InRing q → st.table.status q ≠ .terminated

end SystemState

/-- What is handed out in the end is what was so at first, and what the jobs of the ring hold. -/
def NoLeak (st st' : SystemState) : Prop :=
  ∀ r, st'.Allocated r ↔ st.Allocated r ∨ ∃ q, st'.InRing q ∧ st'.Holds q r

/-! ## Runs -/

section Runs

variable {volume : Volume} {s : Slab} {st st₀ st' : SystemState} {order : List Nat}

/-- The jobs of the ring are those of the invariant. -/
theorem SystemInv.mem_of_inRing (h : SystemInv s st order) {q : Nat} (hq : st.InRing q) :
    q ∈ order := by
  obtain ⟨hcur, i, rfl⟩ := hq
  obtain ⟨a, l, rfl, hca⟩ := h.jobs.nonempty hcur
  rw [hca]
  exact h.jobs.linked.iterate_mem i

/-- A new region that belongs to nobody is a leak. -/
theorem SystemInv.leaks (h : SystemInv s st order) {r : Nat × Nat} (hr : Unowned st order r)
    (hnew : r ∉ st₀.heap.live) : ¬ NoLeak st₀ st := by
  intro hnone
  rcases (hnone (.block r)).mp hr.live with hold | ⟨q, hq, hheld⟩
  · exact hnew hold
  · rcases hheld with rfl | ⟨l, hl, -, rfl⟩
    · exact hr.manager q (h.mem_of_inRing hq) rfl
    · exact hr.data l hl rfl

/-- The run so far: everything that was there at first still is, and belongs to nobody. -/
structure RunInv (st₀ st : SystemState) (s : Slab) (order : List Nat) : Prop where
  inv : SystemInv s st order
  applied : ∀ a ∈ order.head?, st.Applied a
  kept : ∀ r ∈ st₀.heap.live, Unowned st order r

theorem RunInv.start (hboot : SystemBooted st) : ∃ s, RunInv st st s [] := by
  obtain ⟨s, hinv⟩ := hboot.inv
  have hopened : st.fs.opened = [] := hboot.fs.2.2.2
  refine ⟨s, hinv, nofun, fun r hr => ⟨hr, nofun, fun l hl => ?_⟩⟩
  rw [hopened] at hl
  exact absurd hl List.not_mem_nil

/-- What was left behind stays so. -/
theorem RunInv.leaked {tr : List (SystemState × SystemEvent × SystemState)} {r : Nat × Nat}
    (hr : (systemMachine volume).Run st tr st') : ∀ {order : List Nat}, RunInv st₀ st s order →
    r ∉ st₀.heap.live → Unowned st order r → ¬ NoLeak st₀ st' := by
  induction hr with
  | nil st => exact fun h hnew hun => h.inv.leaks hun hnew
  | cons hstep _ ih =>
    intro order h hnew hun
    obtain ⟨order', hinv', happ', hkeep, -⟩ := h.inv.step h.applied hstep
    exact ih ⟨hinv', happ', fun r hr => hkeep r (h.kept r hr)⟩ hnew (hkeep r hun)

/-- A run that starts a program leaves something behind. -/
theorem RunInv.leak_of_start {tr : List (SystemState × SystemEvent × SystemState)}
    (hr : (systemMachine volume).Run st tr st') : ∀ {order : List Nat}, RunInv st₀ st s order →
    (∃ a e b, (a, e, b) ∈ tr ∧ e.starts = true) → ¬ NoLeak st₀ st' := by
  induction hr with
  | nil st =>
    rintro _ - ⟨_, _, _, hm, -⟩
    exact absurd hm List.not_mem_nil
  | cons hstep hrest ih =>
    rintro order h ⟨a, e, b, hm, hstart⟩
    obtain ⟨order', hinv', happ', hkeep, hnew⟩ := h.inv.step h.applied hstep
    have h' : RunInv st₀ _ s order' := ⟨hinv', happ', fun r hr => hkeep r (h.kept r hr)⟩
    rcases List.mem_cons.mp hm with heq | hm
    · -- this event starts the program
      cases heq
      obtain ⟨r, hfresh, hun⟩ := hnew hstart
      refine RunInv.leaked hrest h' (fun hin => ?_) hun
      exact hfresh (h.kept r hin).live
    · exact ih h' ⟨a, e, b, hm, hstart⟩

/-- Nothing happened but stores to the user zone. -/
structure Idle (st st' : SystemState) : Prop where
  fs : st'.fs = st.fs
  table : st'.table = st.table
  tables : st'.tables = st.tables
  mem : ∀ x, x < 0x80000000 → st'.mem x = st.mem x

/-- Without a start there is no job, and nothing else can happen. -/
theorem idle_of_no_start {tr : List (SystemState × SystemEvent × SystemState)}
    (hr : (systemMachine volume).Run st tr st') (hcur : st.table.currentJob = 0)
    (hnone : ∀ a e b, (a, e, b) ∈ tr → e.starts = false) : Idle st st' := by
  have hkeep : ∀ a e b, a.table.currentJob = 0 ∧ Idle st a → SystemStep volume a e b →
      e.starts = false → b.table.currentJob = 0 ∧ Idle st b := by
    rintro a e b ⟨hzero, hidle⟩ hstep hstart
    cases e with
    | usermode garbage filename name => cases hstart
    | timer c => exact absurd hzero hstep.1.1
    | spawn garbage filename => cases hstart
    | «open» garbage filename => exact absurd hzero hstep.1
    | terminate => exact absurd hzero hstep.1
    | user mem =>
      obtain ⟨hmem, rfl⟩ := hstep
      refine ⟨hzero, hidle.fs, hidle.table, hidle.tables, fun x hx => ?_⟩
      exact (hmem x (Or.inl hx)).trans (hidle.mem x hx)
  exact (hr.invariant (I := fun a => a.table.currentJob = 0 ∧ Idle st a)
    (Q := fun _ e _ => e.starts = false) hkeep ⟨hcur, rfl, rfl, rfl, fun _ _ => rfl⟩ hnone).2

/-- Then everything is handed out as before. -/
theorem Idle.allocated_iff (h : Idle st st') (hinv : SystemInv s st order) (r : Resource) :
    st'.Allocated r ↔ st.Allocated r := by
  have hheap : st'.heap = st.heap := congrArg InodeState.heap h.fs
  cases r with
  | block region => rw [SystemState.Allocated, SystemState.Allocated, hheap]
  | inode slot => rw [SystemState.Allocated, SystemState.Allocated, h.fs]
  | job slot => rw [SystemState.Allocated, SystemState.Allocated, h.table]
  | table slot =>
    rw [SystemState.Allocated, SystemState.Allocated, h.tables]
    refine and_congr_right fun hslot => ?_
    obtain ⟨role, spaces, hspaces⟩ := hinv.spaces
    have hheader := hspaces.slab.toPlaced.header_byte_lt hslot
    have hbyte : st'.mem (st.tables.startingAddress + slot / 8)
        = st.mem (st.tables.startingAddress + slot / 8) := by
      refine h.mem _ (Nat.lt_trans (hspaces.inZone_lt hinv.fs.heap ⟨?_, ?_⟩) (by decide))
      · exact Nat.le_add_right _ _
      · omega
    exact Eq.congr_left (bitAt_congr hbyte)
  | frame slot =>
    rw [SystemState.Allocated, SystemState.Allocated]
    refine and_congr_right fun hslot => ?_
    exact Eq.congr_left (userSpace_used_congr hslot fun x _ hx => h.mem x hx)

end Runs

/-- **Leaks.**  In every run of spawns, opens, terminations and scheduler steps, whether or not the
    TERMINATED jobs have been deleted in the end: what is allocated is what was so before the run and
    what the jobs of the ring hold, if and only if no program was started. -/
theorem leak_free_iff {volume : Volume} {st st' : SystemState}
    {tr : List (SystemState × SystemEvent × SystemState)} (h0 : (systemMachine volume).start st)
    (hr : (systemMachine volume).Run st tr st') :
    NoLeak st st' ↔ ∀ a e b, (a, e, b) ∈ tr → e.starts = false := by
  obtain ⟨s, h⟩ := RunInv.start h0
  constructor
  · intro hnone a e b hm
    refine Bool.eq_false_iff.mpr fun hstart => ?_
    exact RunInv.leak_of_start hr h ⟨a, e, b, hm, hstart⟩ hnone
  · intro hnone r
    have hcur : st.table.currentJob = 0 := h.inv.jobs.ring
    have hidle := idle_of_no_start hr hcur hnone
    rw [hidle.allocated_iff h.inv]
    refine ⟨Or.inl, ?_⟩
    rintro (hold | ⟨q, ⟨hne, -⟩, -⟩)
    · exact hold
    · rw [hidle.table] at hne
      exact absurd hcur hne

/-- Nothing has happened yet. -/
theorem leak_free_iff_booted : ∃ st, SystemBooted st ∧ NoLeak st st := by
  obtain ⟨st, -, hboot, -⟩ := programVolume_starts
  refine ⟨st, hboot, (@leak_free_iff (programVolume 4) st st _ hboot (.nil st)).mpr ?_⟩
  exact fun _ _ _ hm => absurd hm List.not_mem_nil

/-- One program was started, and no job is TERMINATED. -/
theorem file_buffer_leaks : ∃ st st', SystemBooted st ∧
    (systemMachine (programVolume 4)).Run st
      [(st, .usermode noGarbage programName 0, st')] st' ∧ st'.AllDeleted ∧ ¬ NoLeak st st' := by
  obtain ⟨st, st', hboot, hstep⟩ := programVolume_starts
  have hrun : (systemMachine (programVolume 4)).Run st
      [(st, .usermode noGarbage programName 0, st')] st' := .cons hstep (.nil st')
  obtain ⟨s, h⟩ := RunInv.start hboot
  obtain ⟨job, hinv', -, hstatus, -⟩ := h.inv.usermode hstep
  refine ⟨st, st', hboot, hrun, fun q hq => ?_, RunInv.leak_of_start hrun h
    ⟨_, _, _, List.mem_cons_self, rfl⟩⟩
  obtain rfl := List.mem_singleton.mp (hinv'.mem_of_inRing hq)
  rw [hstatus]
  decide

end TinyKernel
