/-
  The system call `open`: file descriptors.

  `exceptions_internal_open` hands what the `open` of the main filesystem returns to `job_add_file`,
  also if that is `NULL`.  A `NULL` in the table is a free slot, but `open_files_count` counts it.

  `openMachine` is any sequence of such calls of one job, over any filesystem.  While no `NULL` is
  stored the descriptors are right (`FilesInv`): each stands for the inode it was returned for, and
  the count is the number of used slots.  `descriptors_iff` says that nothing else is needed.

  The loop of `job_add_file` looks for a `NULL` and not for the end of the table.  What keeps it inside
  is the test of the count before it: the count is never less than the number of slots
  that are used (`used_le_count`), with missing files or without, so as long as the test lets a call
  pass there is a `NULL` to be found (`jobAddFileSearch_returns`).  In the other direction the two
  drift apart with every missing file, and the table is said to be full while it has free slots.
-/
import TinyKernel.Lib.Machine
import TinyKernel.Mp.Job
import TinyKernel.Fs.RamDir

namespace TinyKernel

/-! ## The source -/

/-- `exceptions_internal_open` over a main filesystem with this `open`: the inode that it returned, 0
    for `NULL`, and the descriptor. -/
def openCall {σ : Type} (fsOpen : Nat → σ → List Byte → Except Fault (Nat × σ)) (rounds : Nat)
    (fs : σ) (job : Job) (filename : List Byte) : Except Fault (Nat × Int × σ × Job) := do
  let (inode, fs) ← fsOpen rounds fs filename
  let (fd, job) ← jobAddFile rounds job inode
  return (inode, fd, fs, job)

/-- The filesystem, the job, and the descriptors it was given, with their inodes. -/
structure OpenState (σ : Type) where
  fs : σ
  job : Job
  opened : List (Int × Nat)

/-- A call, with the inode that the filesystem returned and the descriptor. -/
structure OpenEvent where
  filename : List Byte
  inode : Nat
  fd : Int

variable {σ : Type} {fsOpen : Nat → σ → List Byte → Except Fault (Nat × σ)}

/-- One call. -/
def OpenStep (fsOpen : Nat → σ → List Byte → Except Fault (Nat × σ)) (st : OpenState σ)
    (e : OpenEvent) (st' : OpenState σ) : Prop :=
  Returns (fun rounds => openCall fsOpen rounds st.fs st.job e.filename)
    (e.inode, e.fd, st'.fs, st'.job) ∧
  st'.opened = if 0 ≤ e.fd then (e.fd, e.inode) :: st.opened else st.opened

/-- The `open` calls of a job, from its creation on. -/
def openMachine (fsOpen : Nat → σ → List Byte → Except Fault (Nat × σ)) :
    Machine (OpenState σ) OpenEvent where
  start st := (∀ i, i < jobMaxFiles → st.job.openFiles i = 0) ∧ st.job.openFilesCount = 0 ∧
    st.opened = []
  step := OpenStep fsOpen

/-! ## What descriptors are for -/

/-- The slots that are not `NULL`. -/
def usedSlots (job : Job) : Finset Nat :=
  (Finset.range jobMaxFiles).filter fun i => job.openFiles i ≠ 0

/-- The call has gone right. -/
structure OpenGoesRight (st : OpenState σ) (e : OpenEvent) (st' : OpenState σ) : Prop where
  /-- The descriptors are distinct. -/
  distinct : (st'.opened.map Prod.fst).Nodup
  /-- Each of them denotes the inode it was returned for, still. -/
  denotes : ∀ fd inode, (fd, inode) ∈ st'.opened → inode ≠ 0 ∧ jobGetFile st'.job fd = inode
  /-- A missing file or a full table is a failure, and changes nothing. -/
  failed : e.inode = 0 ∨ (jobMaxFiles : Int) ≤ st.job.openFilesCount →
    e.fd < 0 ∧ st'.job.openFiles = st.job.openFiles ∧
      st'.job.openFilesCount = st.job.openFilesCount
  counted : st'.job.openFilesCount = ((usedSlots st'.job).card : Int)

/-- The file exists, or the table is full. -/
def FoundOrFull (st : OpenState σ) (e : OpenEvent) (_ : OpenState σ) : Prop :=
  e.inode ≠ 0 ∨ (jobMaxFiles : Int) ≤ st.job.openFilesCount

/-! ## The search -/

/-- The search ends at the first free slot. -/
theorem jobAddFileSearch_ok {job : Job} {slot : Nat} : ∀ {rounds fd : Nat},
    jobAddFileSearch job rounds fd = .ok slot →
    job.openFiles slot = 0 ∧ ∀ i, fd ≤ i → i < slot → job.openFiles i ≠ 0 := by
  intro rounds
  induction rounds with
  | zero =>
    intro fd h
    cases h
  | succ rounds ih =>
    intro fd h
    rw [jobAddFileSearch] at h
    split at h
    · rename_i hfree
      obtain rfl := Except.ok.inj h
      exact ⟨hfree, fun i h1 h2 => absurd h2 (by omega)⟩
    · rename_i hused
      obtain ⟨hfree, hall⟩ := ih h
      refine ⟨hfree, fun i h1 h2 => ?_⟩
      rcases Nat.lt_or_eq_of_le h1 with hlt | rfl
      · exact hall i hlt h2
      · exact hused

/-- And it ends, if there is one. -/
theorem jobAddFileSearch_returns {job : Job} {free : Nat} (hfree : job.openFiles free = 0) :
    ∃ slot, Returns (fun rounds => jobAddFileSearch job rounds 0) slot := by
  have hwalk : ∀ k fd, fd + k = free →
      ∃ slot, ∀ rounds, k < rounds → jobAddFileSearch job rounds fd = .ok slot := by
    intro k
    induction k with
    | zero =>
      intro fd hfd
      refine ⟨fd, fun rounds hrounds => ?_⟩
      obtain ⟨n, rfl⟩ : ∃ n, rounds = n + 1 := ⟨rounds - 1, by omega⟩
      rw [jobAddFileSearch, if_pos (by rw [show fd = free by omega]; exact hfree)]
    | succ k ih =>
      intro fd hfd
      obtain ⟨slot, hslot⟩ := ih (fd + 1) (by omega)
      by_cases hzero : job.openFiles fd = 0
      · refine ⟨fd, fun rounds hrounds => ?_⟩
        obtain ⟨n, rfl⟩ : ∃ n, rounds = n + 1 := ⟨rounds - 1, by omega⟩
        rw [jobAddFileSearch, if_pos hzero]
      · refine ⟨slot, fun rounds hrounds => ?_⟩
        obtain ⟨n, rfl⟩ : ∃ n, rounds = n + 1 := ⟨rounds - 1, by omega⟩
        rw [jobAddFileSearch, if_neg hzero]
        exact hslot n (by omega)
  obtain ⟨slot, hslot⟩ := hwalk free 0 (Nat.zero_add _)
  exact ⟨slot, free + 1, fun rounds hrounds => hslot rounds (by omega)⟩

/-- There is a free slot as long as not all are used. -/
theorem exists_free {job : Job} (hless : (usedSlots job).card < jobMaxFiles) :
    ∃ i, i < jobMaxFiles ∧ job.openFiles i = 0 := by
  by_contra hnone
  have hall : usedSlots job = Finset.range jobMaxFiles := by
    apply Finset.filter_true_of_mem
    intro i hi hzero
    exact hnone ⟨i, Finset.mem_range.mp hi, hzero⟩
  rw [hall, Finset.card_range] at hless
  exact Nat.lt_irrefl _ hless

/-- A slot behind used ones. -/
theorem slot_le_used {job : Job} {slot : Nat} (hslot : slot ≤ jobMaxFiles)
    (hused : ∀ i, i < slot → job.openFiles i ≠ 0) : slot ≤ (usedSlots job).card := by
  have hsub : Finset.range slot ⊆ usedSlots job := by
    intro i hi
    rw [Finset.mem_range] at hi
    exact Finset.mem_filter.mpr ⟨Finset.mem_range.mpr (by omega), hused i hi⟩
  have hcard := Finset.card_le_card hsub
  rwa [Finset.card_range] at hcard

/-- Storing to a slot uses at most one more .. -/
theorem usedSlots_update_le {job job' : Job} {slot inode : Nat}
    (hstore : job'.openFiles = Function.update job.openFiles slot inode) :
    (usedSlots job').card ≤ (usedSlots job).card + 1 := by
  have hsub : usedSlots job' ⊆ insert slot (usedSlots job) := by
    intro i hi
    unfold usedSlots at hi ⊢
    rw [Finset.mem_filter, hstore] at hi
    rw [Finset.mem_insert, Finset.mem_filter]
    by_cases hslot : i = slot
    · exact Or.inl hslot
    · rw [Function.update_of_ne hslot] at hi
      exact Or.inr hi
  exact Nat.le_trans (Finset.card_le_card hsub) (Finset.card_insert_le _ _)

/-- .. and exactly one, if an inode is stored to a free slot. -/
theorem usedSlots_update {job job' : Job} {slot inode : Nat} (hslot : slot < jobMaxFiles)
    (hfree : job.openFiles slot = 0) (hinode : inode ≠ 0)
    (hstore : job'.openFiles = Function.update job.openFiles slot inode) :
    (usedSlots job').card = (usedSlots job).card + 1 := by
  have hnew : slot ∉ usedSlots job := fun h => (Finset.mem_filter.mp h).2 hfree
  have hsub : insert slot (usedSlots job) ⊆ usedSlots job' := by
    intro i hi
    unfold usedSlots at hi ⊢
    rw [Finset.mem_filter, hstore]
    rcases Finset.mem_insert.mp hi with rfl | hi
    · rw [Function.update_self]
      exact ⟨Finset.mem_range.mpr hslot, hinode⟩
    · have hused := Finset.mem_filter.mp hi
      have hne : i ≠ slot := by
        rintro rfl
        exact hused.2 hfree
      rw [Function.update_of_ne hne]
      exact hused
  have hcard := Finset.card_le_card hsub
  rw [Finset.card_insert_of_notMem hnew] at hcard
  exact Nat.le_antisymm (usedSlots_update_le hstore) hcard

/-! ## The invariant -/

/-- The table of a job to which no `NULL` was added. -/
structure FilesInv (st : OpenState σ) : Prop where
  counted : st.job.openFilesCount = ((usedSlots st.job).card : Int)
  distinct : (st.opened.map Prod.fst).Nodup
  denotes : ∀ fd inode, (fd, inode) ∈ st.opened → ∃ slot : Nat, fd = slot ∧
    (slot : Int) < st.job.openFilesCount ∧ st.job.openFiles slot = inode ∧ inode ≠ 0

/-- What a call that returned has done to the table. -/
theorem openStep_cases {st st' : OpenState σ} {e : OpenEvent} (hstep : OpenStep fsOpen st e st') :
    ((jobMaxFiles : Int) ≤ st.job.openFilesCount ∧ e.fd = -1 ∧ st'.job = st.job ∧
      st'.opened = st.opened) ∨
    ∃ slot : Nat, st.job.openFilesCount < (jobMaxFiles : Int) ∧ e.fd = slot ∧
      st.job.openFiles slot = 0 ∧ (∀ i, i < slot → st.job.openFiles i ≠ 0) ∧
      st'.job.openFiles = Function.update st.job.openFiles slot e.inode ∧
      st'.job.openFilesCount = st.job.openFilesCount + 1 ∧
      st'.opened = (e.fd, e.inode) :: st.opened := by
  obtain ⟨⟨enough, hreturns⟩, hopened⟩ := hstep
  have hcall := hreturns enough (Nat.le_refl _)
  obtain ⟨⟨inode, fs⟩, -, hcall⟩ := bind_eq_ok hcall
  obtain ⟨⟨fd, job⟩, hadd, hcall⟩ := bind_eq_ok hcall
  obtain ⟨hinode, hfd, -, hjob⟩ : inode = e.inode ∧ fd = e.fd ∧ fs = st'.fs ∧ job = st'.job := by
    simpa [pure, Except.pure] using hcall
  subst hinode hjob
  unfold jobAddFile at hadd
  split at hadd
  · rename_i hfull
    obtain ⟨hneg, hsame⟩ := Prod.mk.inj (Except.ok.inj hadd)
    rw [← hfd, ← hneg, if_neg (by decide)] at hopened
    exact Or.inl ⟨hfull, hfd.symm.trans hneg.symm, hsame.symm, hopened⟩
  · rename_i hroom
    obtain ⟨slot, hsearch, hadd⟩ := bind_eq_ok hadd
    obtain ⟨hslot, hstore⟩ := Prod.mk.inj (Except.ok.inj hadd)
    obtain ⟨hfree, hused⟩ := jobAddFileSearch_ok hsearch
    have hfdslot : e.fd = slot := hfd.symm.trans hslot.symm
    rw [if_pos (by omega)] at hopened
    refine Or.inr ⟨slot, Int.not_le.mp hroom, hfdslot, hfree, fun i hi => hused i (Nat.zero_le _) hi,
      ?_, ?_, hopened⟩
    · rw [← hstore]
    · rw [← hstore]

namespace FilesInv

variable {st st' : OpenState σ} {e : OpenEvent}

theorem start (h : (openMachine fsOpen).start st) : FilesInv st := by
  obtain ⟨hfree, hcount, hopened⟩ := h
  have hnone : usedSlots st.job = ∅ :=
    Finset.filter_false_of_mem fun i hi => not_not.mpr (hfree i (Finset.mem_range.mp hi))
  constructor
  · rw [hcount, hnone]
    rfl
  · rw [hopened]
    exact List.nodup_nil
  · intro fd inode hmem
    rw [hopened] at hmem
    exact absurd hmem List.not_mem_nil

/-- Each descriptor denotes its inode. -/
theorem getFile (h : FilesInv st) {fd : Int} {inode : Nat} (hmem : (fd, inode) ∈ st.opened) :
    inode ≠ 0 ∧ jobGetFile st.job fd = inode := by
  obtain ⟨slot, rfl, hslot, hinode, hne⟩ := h.denotes fd inode hmem
  refine ⟨hne, ?_⟩
  rw [jobGetFile, if_neg (by omega), Int.toNat_natCast, hinode]

/-- **A call with an inode, or with a full table**, keeps the invariant. -/
theorem step (h : FilesInv st) (hstep : OpenStep fsOpen st e st') (hcond : FoundOrFull st e st') :
    FilesInv st' := by
  rcases openStep_cases hstep with ⟨-, -, hjob, hopened⟩ | ⟨slot, hroom, hfd, hfree, hused, hfiles,
    hcount, hopened⟩
  · constructor
    · rw [hjob]
      exact h.counted
    · rw [hopened]
      exact h.distinct
    · rw [hopened, hjob]
      exact h.denotes
  · have hinode : e.inode ≠ 0 := hcond.resolve_right (Int.not_le.mpr hroom)
    have hcard := h.counted
    have hin : slot < jobMaxFiles := by
      by_contra hout
      have hall : jobMaxFiles ≤ (usedSlots st.job).card :=
        slot_le_used (Nat.le_refl jobMaxFiles) fun i hi => hused i (by omega)
      omega
    have hle := slot_le_used (Nat.le_of_lt hin) hused
    constructor
    · rw [hcount, usedSlots_update hin hfree hinode hfiles]
      push_cast
      omega
    · rw [hopened, List.map_cons, List.nodup_cons]
      refine ⟨fun hmem => ?_, h.distinct⟩
      -- the slot of an older descriptor is not free
      obtain ⟨⟨fd, inode⟩, hmem, hsame⟩ := List.mem_map.mp hmem
      obtain ⟨slot', hslot', -, hfile, hne⟩ := h.denotes fd inode hmem
      have heq : slot' = slot := by
        have : fd = e.fd := hsame
        omega
      rw [heq, hfree] at hfile
      exact hne hfile.symm
    · intro fd inode hmem
      rw [hopened] at hmem
      rcases List.mem_cons.mp hmem with hnew | hold
      · obtain ⟨rfl, rfl⟩ := Prod.mk.inj hnew
        refine ⟨slot, hfd, by omega, ?_, hinode⟩
        rw [hfiles, Function.update_self]
      · obtain ⟨slot', hslot', hlt, hfile, hne⟩ := h.denotes fd inode hold
        refine ⟨slot', hslot', by omega, ?_, hne⟩
        rw [hfiles, Function.update_of_ne fun heq => ?_, hfile]
        rw [heq, hfree] at hfile
        exact hne hfile.symm

/-- **One call** goes right exactly if the file exists or the table is full. -/
theorem right_iff (h : FilesInv st) (hstep : OpenStep fsOpen st e st') :
    OpenGoesRight st e st' ↔ FoundOrFull st e st' := by
  constructor
  · intro hright
    rcases openStep_cases hstep with ⟨hfull, -⟩ | ⟨slot, -, hfd, -⟩
    · exact Or.inr hfull
    · refine Or.inl fun hmissing => ?_
      have hneg := (hright.failed (Or.inl hmissing)).1
      omega
  · intro hcond
    have hnext := h.step hstep hcond
    constructor
    · exact hnext.distinct
    · exact fun fd inode hmem => hnext.getFile hmem
    · intro hfail
      rcases openStep_cases hstep with ⟨-, hfd, hjob, -⟩ | ⟨slot, hroom, -⟩
      · rw [hfd, hjob]
        exact ⟨by decide, rfl, rfl⟩
      · rcases hfail with hmissing | hfull
        · exact absurd (hcond.resolve_right (Int.not_le.mpr hroom)) (not_not.mpr hmissing)
        · omega
    · exact hnext.counted

end FilesInv

/-- Whatever was added, the count is no less than the number of used slots. -/
theorem used_le_count {s u : OpenState σ} {tr : List (OpenState σ × OpenEvent × OpenState σ)}
    (hs : (openMachine fsOpen).start s) (hr : (openMachine fsOpen).Run s tr u) :
    ((usedSlots u.job).card : Int) ≤ u.job.openFilesCount := by
  apply hr.invariant (I := fun st => ((usedSlots st.job).card : Int) ≤ st.job.openFilesCount)
    (Q := fun _ _ _ => True)
  · intro a e b ha hstep _
    rcases openStep_cases hstep with ⟨-, -, hjob, -⟩ | ⟨slot, -, -, -, -, hfiles, hcount, -⟩
    · rw [hjob]
      exact ha
    · have hle := usedSlots_update_le hfiles
      rw [hcount]
      omega
  · exact Int.le_of_eq (FilesInv.start hs).counted.symm
  · exact fun _ _ _ _ => trivial

/-- **File descriptors.**  In every run of `open` calls of a job, over any filesystem,
    `job_add_file` returns in the state that is reached, and the descriptors are right after every
    call if and only if every call that found room in the table found its file too.  A file that is
    missing is stored as `NULL`, which is how a free slot looks, and counts as an open file. -/
theorem descriptors_iff {s u : OpenState σ} {tr : List (OpenState σ × OpenEvent × OpenState σ)}
    (hs : (openMachine fsOpen).start s) (hr : (openMachine fsOpen).Run s tr u) :
    (∀ inode, ∃ res, Returns (fun rounds => jobAddFile rounds u.job inode) res) ∧
    ((∀ a e b, (a, e, b) ∈ tr → OpenGoesRight a e b) ↔
      ∀ a e b, (a, e, b) ∈ tr → FoundOrFull a e b) := by
  constructor
  · intro inode
    unfold jobAddFile
    by_cases hfull : (jobMaxFiles : Int) ≤ u.job.openFilesCount
    · exact ⟨(-1, u.job), 0, fun rounds _ => if_pos hfull⟩
    · have hused := used_le_count hs hr
      obtain ⟨free, -, hfree⟩ := exists_free
        (show (usedSlots u.job).card < jobMaxFiles by omega)
      obtain ⟨slot, enough, hsearch⟩ := jobAddFileSearch_returns hfree
      refine ⟨(slot, { u.job with openFiles := Function.update u.job.openFiles slot inode
                                  openFilesCount := u.job.openFilesCount + 1 }), enough,
        fun rounds hrounds => ?_⟩
      have hslot := hsearch rounds hrounds
      beta_reduce at hslot ⊢
      rw [if_neg hfull, hslot]
      rfl
  · exact hr.forall_iff_of_invariant (fun _ _ _ ha hstep => ha.right_iff hstep)
      (fun _ _ _ ha hstep hq => ha.step hstep hq) (FilesInv.start hs)

/-- A ram filesystem without files. -/
def emptyDir : RamDir := { twoFiles with mem := fun _ => 0 }

/-- A job as `job_create` leaves it, with the given table of files. -/
def jobWithFiles (openFiles : Nat → Nat) (count : Int) : Job :=
  ⟨fun _ => 0, .running, fun _ => 0, 0, 0, 0, openFiles, count, 0⟩

/-- The states before and after the job opens "a", which does not exist: it gets descriptor 0. -/
def beforeMissing : OpenState RamDir := ⟨emptyDir, jobWithFiles (fun _ => 0) 0, []⟩
def afterMissing : OpenState RamDir :=
  ⟨emptyDir, jobWithFiles (Function.update (fun _ => 0) 0 0) 1, [(0, 0)]⟩

/-- The call. -/
def openMissing : OpenEvent := ⟨[0x61], 0, 0⟩

theorem openMissing_run : (openMachine fun n st => st.ramfsOpenInternal n).start beforeMissing ∧
    (openMachine fun n st => st.ramfsOpenInternal n).Run beforeMissing
      [(beforeMissing, openMissing, afterMissing)] afterMissing := by
  refine ⟨⟨fun _ _ => rfl, rfl, rfl⟩, .cons ⟨⟨1, fun rounds hrounds => ?_⟩, rfl⟩ (.nil _)⟩
  obtain ⟨n, rfl⟩ : ∃ n, rounds = n + 1 := ⟨rounds - 1, by omega⟩
  rfl

/-- A ram filesystem with the two files "a" and "b", and room for inodes. -/
def foundDir : RamDir := { twoFiles with fs := inodesAtBoot }

def foundStart : OpenState RamDir := ⟨foundDir, jobWithFiles (fun _ => 0) 0, []⟩

/-- The job opens "a" there. -/
theorem openFound_run : ∃ inode fd st', inode ≠ 0 ∧
    OpenStep (fun n st => st.ramfsOpenInternal n) foundStart ⟨[0x61], inode, fd⟩ st' := by
  have hholds : HoldsFiles foundDir [(16, [0x61]), (80, [0x62])] :=
    ⟨twoFiles_holds.arguments, twoFiles_holds.list, twoFiles_holds.names⟩
  have hslot : foundDir.fs.HasSlot := (InodeInv.start inodesAtBoot_start).hasSlot (by decide)
  obtain ⟨inode, fs, ⟨enough, hopen⟩, hinode, -⟩ :=
    hholds.open_head (by decide) hslot (by decide +kernel)
  have hstart : (openMachine fun n st => RamDir.ramfsOpenInternal st n).start foundStart :=
    ⟨fun _ _ => rfl, rfl, rfl⟩
  obtain ⟨⟨fd, job⟩, more, hadd⟩ := (descriptors_iff hstart (.nil _)).1 inode
  refine ⟨inode, fd, ⟨fs, job, _⟩, hinode, ⟨enough + more, fun rounds hrounds => ?_⟩, rfl⟩
  have h1 := hopen rounds (by omega)
  have h2 := hadd rounds (by omega)
  beta_reduce at h1 h2
  show openCall _ rounds foundDir _ [0x61] = _
  rw [openCall, h1, ok_bind]
  dsimp only
  rw [h2]
  rfl

/-- A job that opens "a" where it is the first file has its calls go right.  Where there is no file,
    both sides of the equivalence fail. -/
theorem descriptors_iff_runs :
    (∃ inode fd st', inode ≠ 0 ∧
      (openMachine fun n st => st.ramfsOpenInternal n).Run foundStart
        [(foundStart, ⟨[0x61], inode, fd⟩, st')] st' ∧
      OpenGoesRight foundStart ⟨[0x61], inode, fd⟩ st') ∧
    ((∀ a e b, (a, e, b) ∈ [(beforeMissing, openMissing, afterMissing)] → OpenGoesRight a e b) ↔
      ∀ a e b, (a, e, b) ∈ [(beforeMissing, openMissing, afterMissing)] → FoundOrFull a e b) := by
  refine ⟨?_, (descriptors_iff openMissing_run.1 openMissing_run.2).2⟩
  obtain ⟨inode, fd, st', hinode, hstep⟩ := openFound_run
  have hstart : (openMachine fun n st => RamDir.ramfsOpenInternal st n).start foundStart :=
    ⟨fun _ _ => rfl, rfl, rfl⟩
  have hrun : (openMachine fun n st => st.ramfsOpenInternal n).Run foundStart
      [(foundStart, ⟨[0x61], inode, fd⟩, st')] st' := .cons hstep (.nil _)
  refine ⟨inode, fd, st', hinode, hrun, ?_⟩
  refine (descriptors_iff hstart hrun).2.mpr ?_ _ _ _ List.mem_cons_self
  intro a e b hm
  obtain ⟨-, hrest⟩ := Prod.mk.inj (List.mem_singleton.mp hm)
  obtain ⟨rfl, -⟩ := Prod.mk.inj hrest
  exact Or.inl hinode

/-- **The missing file gets a descriptor**, and the count says that a slot is used. -/
theorem missing_file_opened : (openMachine fun n st => st.ramfsOpenInternal n).start beforeMissing ∧
    (openMachine fun n st => st.ramfsOpenInternal n).Run beforeMissing
      [(beforeMissing, openMissing, afterMissing)] afterMissing ∧
    ¬ OpenGoesRight beforeMissing openMissing afterMissing := by
  refine ⟨openMissing_run.1, openMissing_run.2, fun h => ?_⟩
  have hneg := (h.failed (Or.inl rfl)).1
  exact absurd hneg (by decide)

end TinyKernel
