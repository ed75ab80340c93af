/-
  The name of a job.

  `job_create` copies the name with `strncpy(job->name, name, MAX_NAME_CHAR)`.  This `strncpy` writes
  the terminator behind the characters it copied, however many they are, so it fills
  `MAX_NAME_CHAR` + 1 bytes for a name of that length.  `strncpyLogged` is `strncpy` with the list
  of the bytes it writes; they are one more than the characters that are copied
  (`strncpyLogged_eq`), and the field has room for them exactly if the name is shorter than
  `MAX_NAME_CHAR` (`job_name_stays_iff`).
-/
import TinyKernel.Mp.Job
import TinyKernel.StrArray

namespace TinyKernel

/-- `strncpy(dest, src, n)` from position `i` on, and the positions that are written. -/
def strncpyLogged (src : Mem) : Nat → Nat → Mem → Mem × List Nat
  | i, 0, dest => (Function.update dest i 0, [i])
  | i, n + 1, dest =>
    if src i = 0 then (Function.update dest i 0, [i])
    else
      let (dest, written) := strncpyLogged src (i + 1) n (Function.update dest i (src i))
      (dest, i :: written)

/-- The list of writes does not disturb the copy. -/
theorem strncpyLogged_fst (src : Mem) : ∀ (n i : Nat) (dest : Mem),
    (strncpyLogged src i n dest).1 = strncpy src i n dest := by
  intro n
  induction n with
  | zero =>
    intro i dest
    rfl
  | succ n ih =>
    intro i dest
    rw [strncpyLogged, strncpy]
    by_cases hend : src i = 0
    · rw [if_pos hend, if_pos hend]
    · rw [if_neg hend, if_neg hend]
      exact ih (i + 1) _

/-- **`strncpy`** copies the first `n` characters and writes a terminator behind them. -/
theorem strncpyLogged_eq {src : Mem} : ∀ {n i : Nat} {s : List Byte} (dest : Mem),
    CStringAt src i s → strncpyLogged src i n dest
      = (strcpy (s.take n) dest i, List.range' i ((s.take n).length + 1)) := by
  intro n
  induction n with
  | zero =>
    intro i s dest _
    rfl
  | succ n ih =>
    intro i s dest hs
    cases s with
    | nil =>
      rw [strncpyLogged, if_pos (CStringAt.nil_iff.mp hs)]
      rfl
    | cons c s =>
      obtain ⟨hc, hfirst, hrest⟩ := CStringAt.cons_iff.mp hs
      rw [strncpyLogged, if_neg (by rw [hfirst]; exact hc), ih _ hrest, hfirst, List.take_succ_cons,
        strcpy, List.length_cons]
      rfl

/-- The copy of the name `s` stays in the field of the job `after`, and leaves a string there. -/
structure NameStays (name : Mem) (s : List Byte) (before after : Job) : Prop where
  /-- The name is what the copy left, and only bytes of the field were written. -/
  inside : ∃ written, strncpyLogged name 0 maxNameChar before.name = (after.name, written) ∧
    ∀ i ∈ written, i < maxNameChar
  /-- The field holds a terminated string: a prefix of the name, the whole of it if there is room. -/
  text : ∃ u, CStringAt after.name 0 u ∧ u.length < maxNameChar ∧ u <+: s ∧
    (s.length < maxNameChar → u = s)

/-- The name of a job that was just created. -/
theorem jobFill_name (t : JobTable) (job : Nat) (entry sp : Word) (name : Mem) (paging : Nat) :
    ((jobFill t job entry sp name paging).jobs job).name
      = strncpy name 0 maxNameChar (t.jobs job).name := by
  have htail : (jobFill t job entry sp name paging).jobs job = _ := Function.update_self ..
  have hhead : (jobHead t job entry sp paging).jobs job = _ := Function.update_self ..
  rw [htail]
  show strncpy name 0 maxNameChar
    ((jobLink (jobHead t job entry sp paging) job).jobs job).name = _
  rw [jobLink_field (g := Job.name) (fun _ _ => rfl), hhead]

/-- **Job names stay in their field** exactly if they are shorter than `MAX_NAME_CHAR`.  This
    `strncpy` copies up to `n` characters and then stores a terminator, so a name of `MAX_NAME_CHAR`
    characters needs one byte more than the field has. -/
theorem job_name_stays_iff {t t' : JobTable} {entry sp : Word} {name : Mem} {paging job : Nat}
    {s : List Byte} (hname : CStringAt name 0 s)
    (hcreate : jobCreate t entry sp name paging = .ok (job, t')) :
    NameStays name s (t.jobs job) (t'.jobs job) ↔ s.length < maxNameChar := by
  obtain ⟨mem, -, rfl⟩ := jobCreate_ok hcreate
  have hcopy := strncpyLogged_eq (n := maxNameChar) (t.jobs job).name hname
  have hafter := jobFill_name { t with mem := mem } job entry sp name paging
  rw [← strncpyLogged_fst, hcopy] at hafter
  constructor
  · rintro ⟨⟨written, heq, hinside⟩, -⟩
    rw [hcopy] at heq
    obtain rfl := (Prod.mk.inj heq).2
    -- the terminator
    have hlast := hinside (s.take maxNameChar).length (List.mem_range'_1.mpr (by omega))
    rw [List.length_take] at hlast
    omega
  · intro hshort
    rw [List.take_of_length_le (Nat.le_of_lt hshort)] at hcopy hafter
    constructor
    · refine ⟨_, hcopy.trans (congrArg (·, _) hafter.symm), fun i hi => ?_⟩
      rw [List.mem_range'_1] at hi
      omega
    · exact ⟨s, hafter ▸ cStringAt_strcpy hname.nonzero _ 0, hshort, List.prefix_refl s,
        fun _ => rfl⟩

/-- A table for four jobs, without a job yet. -/
def fourJobs : JobTable :=
  let (slab, mem) := jobInitSlab 4 0x41000000 fun _ => 0
  ⟨slab, mem, fun _ => ⟨fun _ => 0, .running, fun _ => 0, 0, 0, 0, fun _ => 0, 0, 0⟩, 0, []⟩

/-- Its slab has a free slot. -/
theorem fourJobs_create (name : Mem) :
    ∃ job t', jobCreate fourJobs 0 0 name 0 = .ok (job, t') := by
  have hslab : (slabAllocate fourJobs.jobSlab fourJobs.mem).toBool = true := by decide +kernel
  unfold jobCreate
  generalize slabAllocate fourJobs.jobSlab fourJobs.mem = slot at hslab
  cases slot with
  | ok slot => exact ⟨_, _, rfl⟩
  | error fault => exact absurd hslab Bool.false_ne_true

/-- The name of `n` times 'a'. -/
def manyA (n : Nat) : Mem := fun x => if x < n then 97 else 0

theorem manyA_string (n : Nat) : CStringAt (manyA n) 0 (List.replicate n 97) := by
  constructor
  · intro hzero
    exact absurd (List.eq_of_mem_replicate hzero) (by decide)
  · intro i hi
    rw [List.length_replicate] at hi
    rw [manyA, Nat.zero_add]
    rcases Nat.lt_or_eq_of_le hi with hlt | rfl
    · rw [if_pos hlt, List.getD_replicate _ hlt]
    · rw [if_neg (Nat.lt_irrefl _), List.getD_eq_default _ _ (by rw [List.length_replicate])]

/-- A name of 29 characters stays. -/
theorem job_name_stays_29 : ∃ job t', jobCreate fourJobs 0 0 (manyA 29) 0 = .ok (job, t') ∧
    NameStays (manyA 29) (List.replicate 29 97) (fourJobs.jobs job) (t'.jobs job) := by
  obtain ⟨job, t', hcreate⟩ := fourJobs_create (manyA 29)
  exact ⟨job, t', hcreate, (job_name_stays_iff (manyA_string 29) hcreate).mpr (by decide)⟩

/-- The terminator of a name of 30 characters is written behind the field. -/
theorem job_name_leaves_field : ∃ job t', jobCreate fourJobs 0 0 (manyA 30) 0 = .ok (job, t') ∧
    30 ∈ (strncpyLogged (manyA 30) 0 maxNameChar (fourJobs.jobs job).name).2 ∧
    ¬ NameStays (manyA 30) (List.replicate 30 97) (fourJobs.jobs job) (t'.jobs job) := by
  obtain ⟨job, t', hcreate⟩ := fourJobs_create (manyA 30)
  have hwritten : 30 ∈ (strncpyLogged (manyA 30) 0 maxNameChar (fourJobs.jobs job).name).2 := by
    rw [strncpyLogged_eq _ (manyA_string 30)]
    exact List.mem_range'_1.mpr (by decide)
  refine ⟨job, t', hcreate, hwritten, ?_⟩
  rintro ⟨⟨written, heq, hinside⟩, -⟩
  rw [heq] at hwritten
  exact absurd (hinside 30 hwritten) (by decide)

end TinyKernel
