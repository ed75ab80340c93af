/-
  Memory of jobs: every job has one of its own.

  The kernel as a whole is run with programs that store bytes: `userMachine` has the events of
  `systemMachine`, and in place of arbitrary writes to the user zone the stores of the current job,
  each through the address space that TTBR0 points to.  `SystemState.memories` is what the jobs of
  the ring see of memory.

  The invariant (`PrivateInv`) says which address space belongs to which job.  `spaces` are all that
  were ever made: those of deleted jobs stay, their frames are never handed out again.  So

  * a store of one job changes no byte of another, and a spawn, an exit or a scheduler step changes
    no byte of any job that is there before and after it (`jobs_have_private_memory`);
  * what a new job finds beyond the bytes of its program file was there at boot
    (`new_job_finds_boot_memory`).

  The proof goes by what each event does to translations and to frames.  A store goes to a frame of
  the current job, and no frame belongs to two jobs (`PrivateInv.frame_unique`), so it is a store to
  one byte of one memory.  A timer interrupt changes TTBR0, the saved contexts, the ring and the heap,
  and none of these is in a frame or a table (`internalHandler_frame`).  A spawn stores to memory that
  the heap has just given out, to free tables, and to the frames of the new job: those of the others
  are untouched, so their bytes are (`PrivateInv.keeps`).  For the new job the frames come from
  `user_space`, and no frame that was ever handed out comes again, because `job_delete` frees the
  manager but neither tables nor frames.  This is a leak (`Mp.Leak`), and here it is what keeps the
  data of a deleted job from the next one.

  `memoriesMachine` of `Lib.Memories` is the specification: parties with memories of their own, which
  start, store and stop.  It knows nothing of pages.
-/
import TinyKernel.Lib.Memories
import TinyKernel.Mp.Leak
import TinyKernel.Mp.SpawnSpace

namespace TinyKernel

/-! ## What a job sees -/

namespace SystemState

/-- The root of the translation tree of the job at `q`. -/
def rootOf (st : SystemState) (q : Nat) : Nat := (st.managers (st.managerOf q)).l1

/-- What the job at `q` reads at `va`, if it may. -/
def userLoad (st : SystemState) (q va : Nat) : Option Byte := userByte st.mem (st.rootOf q) va

/-- The memories of the jobs of the ring. -/
def memories (st : SystemState) : Memories Nat Nat Byte where
  live := st.InRing
  memory := st.userLoad

end SystemState

/-- What happens: the kernel's events, and stores of the program that runs. -/
inductive UserEvent
  /-- Whatever the kernel does by itself or for a job. -/
  | kernel (e : SystemEvent)
  /-- The current job stores a byte. -/
  | store (va : Nat) (c : Byte)

/-- One event.  A store needs a translation that EL0 may use and that is not read-only. -/
def UserStep (volume : Volume) (st : SystemState) : UserEvent → SystemState → Prop
  | .kernel e, st' => (∀ mem, e ≠ .user mem) ∧ SystemStep volume st e st'
  | .store va c, st' => st.table.currentJob ≠ 0 ∧
      ∃ tr, translate st.mem st.ttbr0 va = some tr ∧ tr.ap1 = true ∧ tr.ap2 = false ∧
        st' = { st with mem := Function.update st.mem tr.pa c }

/-- Runs of the kernel with its programs, from the end of the boot on. -/
def userMachine (volume : Volume) : Machine SystemState UserEvent where
  start := SystemBooted
  step := UserStep volume

/-- What an event is to the jobs. -/
def userEvent (st : SystemState) : UserEvent → SystemState → MemoriesEvent Nat Nat Byte
  | .store va c, _ => .store st.table.currentJob va c
  | .kernel (.usermode ..), _ | .kernel (.spawn ..), _ => .start
  | .kernel (.timer _), _ => .stop
  | .kernel _, _ => .idle

/-! ## The invariant -/

/-- Every job of the ring has one of `spaces` for its own.  The frames that are in none of them hold
    what they held at boot. -/
structure PrivateInv (boot : Mem) (s : Slab) (st : SystemState) (order : List Nat)
    (spaces : List (PagingManager × List Nat)) : Prop where
  inv : SystemInv s st order
  applied : ∀ a ∈ order.head?, st.Applied a
  made : ∃ role, SpacesInv st role spaces
  owns : ∀ q ∈ order, ∃ j ∈ spaces, j.1 = st.managers (st.managerOf q)
  roots : (order.map st.rootOf).Nodup
  fresh : ∀ k, k < 0x1000 → k ∉ spaces.flatMap (·.2) →
    ∀ x, x / 0x1000 = 0x80000 + k → st.mem x = boot x

/-- A job of the ring, with its address space. -/
structure OwnSpace (st : SystemState) (spaces : List (PagingManager × List Nat)) (q : Nat)
    (j : PagingManager × List Nat) : Prop where
  mem : j ∈ spaces
  root : j.1.l1 = st.rootOf q
  space : JobSpace st.mem j.1 j.2
  frame_lt : ∀ k ∈ j.2, k < 0x1000
  length_le : j.2.length ≤ 0x1000
  nodup : j.2.Nodup

section Invariant

variable {volume : Volume} {boot : Mem} {s : Slab} {st st' : SystemState} {order order' : List Nat}
  {spaces : List (PagingManager × List Nat)}

/-- The links lead from the current job to every job of the ring. -/
theorem JobInv.reaches {t : JobTable} (hp : s.Placed) (h : JobInv s t order) {q : Nat}
    (hq : q ∈ order) : t.currentJob ≠ 0 ∧ ∃ i, q = t.next^[i] t.currentJob := by
  cases order with
  | nil => exact absurd hq List.not_mem_nil
  | cons a l =>
    obtain ⟨k, -, hk⟩ := h.slots.slots a List.mem_cons_self
    have hpos := hp.slotAddr_pos k
    rw [h.current_eq]
    refine ⟨by omega, ?_⟩
    rcases List.mem_cons.mp hq with rfl | hq
    · exact ⟨0, rfl⟩
    · obtain ⟨i, hi, hget⟩ := List.getElem_of_mem (List.mem_append_left [a] hq)
      refine ⟨i + 1, ?_⟩
      have hiter := h.linked.getElem?_iterate i hi
      rw [List.getElem?_eq_getElem hi, hget] at hiter
      exact Option.some.inj hiter

/-- The jobs of the ring are those of the invariant. -/
theorem SystemInv.inRing_iff (h : SystemInv s st order) (q : Nat) : st.InRing q ↔ q ∈ order :=
  ⟨h.mem_of_inRing, h.jobs.reaches h.placed⟩

namespace PrivateInv

/-- At first there is no job, and no space. -/
theorem start (h : SystemBooted st) : ∃ s, PrivateInv st.mem s st [] [] := by
  obtain ⟨s, hinv⟩ := h.inv
  obtain ⟨role, spaces, hspaces⟩ := hinv.spaces
  refine ⟨s, hinv, nofun, ⟨fun _ => none, hspaces.slab, hspaces.zone, JobsInv.empty _ _⟩, ?_,
    List.nodup_nil, fun _ _ _ _ _ => rfl⟩
  exact fun _ hq => absurd hq List.not_mem_nil

/-- A job of the ring has its space. -/
theorem own (h : PrivateInv boot s st order spaces) {q : Nat} (hq : q ∈ order) :
    ∃ j, OwnSpace st spaces q j := by
  obtain ⟨role, hspaces⟩ := h.made
  obtain ⟨j, hj, hm⟩ := h.owns q hq
  have hjobs := hspaces.spaces
  exact ⟨j, hj, congrArg PagingManager.l1 hm, hjobs.spaces j hj, hjobs.frame_lt hj,
    hjobs.length_le hj, (List.nodup_flatMap.mp hjobs.frames).1 j hj⟩

/-- Two jobs have no frame in common. -/
theorem frame_unique (h : PrivateInv boot s st order spaces) {q q' : Nat} (hq : q ∈ order)
    (hq' : q' ∈ order) {j j' : PagingManager × List Nat} (hj : OwnSpace st spaces q j)
    (hj' : OwnSpace st spaces q' j') {k : Nat} (hk : k ∈ j.2) (hk' : k ∈ j'.2) : q = q' ∧ j = j' := by
  obtain ⟨role, hspaces⟩ := h.made
  obtain ⟨x, hx⟩ := List.mem_iff_getElem?.mp hj.mem
  obtain ⟨y, hy⟩ := List.mem_iff_getElem?.mp hj'.mem
  obtain rfl := index_eq_of_mem_flatMap hspaces.spaces.frames hx hy hk hk'
  obtain rfl : j = j' := Option.some.inj (hx.symm.trans hy)
  exact ⟨List.inj_on_of_nodup_map h.roots hq hq' (hj.root.symm.trans hj'.root), rfl⟩

/-- A change of the kernel's own state that keeps the address spaces and memory. -/
theorem keeps (h : PrivateInv boot s st order spaces) (hinv : SystemInv s st' order')
    (happ : ∀ a ∈ order'.head?, st'.Applied a) (hmem : st'.mem = st.mem)
    (hmanagers : st'.managers = st.managers) (htables : st'.tables = st.tables)
    (hmanager : ∀ q, st'.managerOf q = st.managerOf q)
    (hperm : ∃ gone, order.Perm (gone ++ order')) :
    PrivateInv boot s st' order' spaces ∧ st'.userLoad = st.userLoad := by
  obtain ⟨gone, hperm⟩ := hperm
  obtain ⟨role, hspaces⟩ := h.made
  obtain ⟨_, _, hafter⟩ := hinv.spaces
  have hroot : st'.rootOf = st.rootOf := by
    funext q
    rw [SystemState.rootOf, SystemState.rootOf, hmanagers, hmanager]
  refine ⟨⟨hinv, happ, ⟨role, hafter.slab, hafter.zone, ?_⟩, fun q hq => ?_, ?_, ?_⟩, ?_⟩
  · rw [htables, hmem]
    exact hspaces.spaces
  · rw [hmanagers, hmanager]
    exact h.owns q (hperm.mem_iff.mpr (List.mem_append_right _ hq))
  · have hnodup := (hperm.map st.rootOf).nodup_iff.mp h.roots
    rw [List.map_append, List.nodup_append] at hnodup
    rw [hroot]
    exact hnodup.2.1
  · rw [hmem]
    exact h.fresh
  · funext q va
    rw [SystemState.userLoad, SystemState.userLoad, hmem, hroot]

/-- A job that keeps its root and the bytes of its frames sees what it saw. -/
theorem load_congr {q : Nat} {j : PagingManager × List Nat} (hj : OwnSpace st spaces q j)
    (hspace : JobSpace st'.mem j.1 j.2) (hroot : st'.rootOf q = st.rootOf q)
    (hsame : ∀ k ∈ j.2, ∀ x, x / 0x1000 = 0x80000 + k → st'.mem x = st.mem x) :
    st'.userLoad q = st.userLoad q := by
  funext va
  rw [SystemState.userLoad, SystemState.userLoad, hroot, ← hj.root]
  exact hj.space.load_congr hspace hj.frame_lt hj.length_le hsame va

/-- A program was started. -/
theorem started (h : PrivateInv boot s st order spaces) {job pm : Nat}
    (hinv : SystemInv s st' (insertSecond job order)) (hnew : job ∉ order)
    (happ : ∀ a ∈ (insertSecond job order).head?, st'.Applied a)
    (hself : st'.managerOf job = pm) (hother : ∀ q ∈ order, st'.managerOf q = st.managerOf q)
    {space : PagingManager × List Nat} {read : FileRead}
    (hmanagers : st'.managers = Function.update st.managers pm space.1)
    (hadd : SpaceAdded st st' spaces space read) :
    PrivateInv boot s st' (insertSecond job order) (space :: spaces) ∧
      ∀ q ∈ order, st'.userLoad q = st.userLoad q := by
  obtain ⟨role, hspaces⟩ := hadd.spaces
  obtain ⟨_, _, hafter⟩ := hinv.spaces
  have hperm := insertSecond_perm job order
  -- the managers of the others are not the new one
  have hkept : ∀ q ∈ order, st'.managers (st'.managerOf q) = st.managers (st.managerOf q) := by
    intro q hq
    have hdistinct := (hperm.map st'.managerOf).nodup_iff.mp hinv.distinct
    have hne : st'.managerOf q ≠ pm := by
      rw [← hself]
      intro heq
      exact (List.nodup_cons.mp hdistinct).1 (List.mem_map.mpr ⟨q, hq, heq⟩)
    rw [hmanagers, Function.update_of_ne hne, hother q hq]
  have hroot : ∀ q ∈ order, st'.rootOf q = st.rootOf q := fun q hq =>
    congrArg PagingManager.l1 (hkept q hq)
  have hmine : st'.managers (st'.managerOf job) = space.1 := by
    rw [hself, hmanagers, Function.update_self]
  -- in the user zone only new frames were written
  have hzone : ∀ k, k < 0x1000 → k ∉ space.2 → ∀ x, x / 0x1000 = 0x80000 + k →
      st'.mem x = st.mem x := by
    intro k hk hno x hx
    refine hadd.image x (by omega) fun i k' _ hget heq => hno ?_
    obtain rfl : k = k' := by omega
    exact List.mem_of_getElem? hget
  refine ⟨⟨hinv, happ, ⟨role, hafter.slab, hafter.zone, hspaces⟩, fun q hq => ?_, ?_, ?_⟩, ?_⟩
  · rcases mem_insertSecond.mp hq with rfl | hq
    · exact ⟨space, List.mem_cons_self, hmine.symm⟩
    · obtain ⟨j, hj, hm⟩ := h.owns q hq
      exact ⟨j, List.mem_cons_of_mem _ hj, hm.trans (hkept q hq).symm⟩
  · rw [(hperm.map st'.rootOf).nodup_iff, List.map_cons, List.map_congr_left hroot,
      List.nodup_cons]
    refine ⟨fun hm => ?_, h.roots⟩
    obtain ⟨q, hq, heq⟩ := List.mem_map.mp hm
    obtain ⟨j, hj⟩ := h.own hq
    refine (List.nodup_cons.mp hspaces.roots).1 (List.mem_map.mpr ⟨j, hj.mem, ?_⟩)
    exact (hj.root.trans heq).trans (congrArg PagingManager.l1 hmine)
  · intro k hk hno x hx
    rw [List.flatMap_cons, List.mem_append, not_or] at hno
    exact (hzone k hk hno.1 x hx).trans (h.fresh k hk hno.2 x hx)
  · intro q hq
    obtain ⟨j, hj⟩ := h.own hq
    refine load_congr hj (hspaces.spaces j (List.mem_cons_of_mem _ hj.mem)) (hroot q hq) ?_
    intro k hk
    refine hzone k (hj.frame_lt k hk) fun hin => ?_
    have hnodup := hspaces.frames
    rw [List.flatMap_cons, List.nodup_append] at hnodup
    exact hnodup.2.2 k hin k (List.mem_flatMap.mpr ⟨j, hj.mem, hk⟩) rfl

/-- **A store** changes one byte of the current job, and nothing for the others. -/
theorem store {a : Nat} {l : List Nat} (h : PrivateInv boot s st (a :: l) spaces) {va : Nat}
    {tr : Translation} (htr : translate st.mem st.ttbr0 va = some tr) (hap : tr.ap1 = true)
    (c : Byte) (hst : st' = { st with mem := Function.update st.mem tr.pa c }) :
    PrivateInv boot s st' (a :: l) spaces ∧ (st.userLoad a va).isSome ∧
      ∀ q ∈ a :: l, st'.userLoad q
        = if q = a then Function.update (st.userLoad a) va (some c) else st.userLoad q := by
  obtain ⟨role, hspaces⟩ := h.made
  obtain ⟨j, hj⟩ := h.own List.mem_cons_self
  have httbr : st.ttbr0 = st.rootOf a := (h.applied a rfl).2
  rw [httbr, ← hj.root] at htr
  obtain ⟨i, k, hi, hpage, rfl⟩ :=
    (hj.space.user_iff hj.frame_lt hj.length_le va tr).mp ⟨htr, hap⟩
  have hk := hj.frame_lt k (List.mem_of_getElem? hi)
  subst hst
  simp only
  have hmem : ∀ x, x ≠ 0x80000000 + 0x1000 * k + va % 0x1000 →
      Function.update st.mem (0x80000000 + 0x1000 * k + va % 0x1000) c x = st.mem x :=
    fun x hx => Function.update_of_ne hx _ _
  have hafter := hspaces.userZone h.inv.fs.heap hspaces.spaces fun x hx => hmem x (by omega)
  refine ⟨⟨h.inv.user fun x hx => hmem x (by omega), ?_, ⟨role, hspaces.slab, hspaces.zone, hafter⟩,
    h.owns, h.roots, fun k' hk' hno x hx => ?_⟩, ?_, fun q hq => ?_⟩
  · rintro _ ⟨⟩
    exact h.applied a rfl
  · refine (hmem x fun heq => hno ?_).trans (h.fresh k' hk' hno x hx)
    obtain rfl : k = k' := by omega
    exact List.mem_flatMap.mpr ⟨j, hj.mem, List.mem_of_getElem? hi⟩
  · rw [SystemState.userLoad, userByte, ← hj.root, htr]
    rfl
  · split
    · rename_i hqa
      subst hqa
      have hload := hj.space.load_store hj.frame_lt hj.length_le hj.nodup hi hpage
        (hafter.spaces j hj.mem)
      rw [hj.root] at hload
      exact hload
    · rename_i hqa
      obtain ⟨j', hj'⟩ := h.own hq
      refine load_congr hj' (hafter.spaces j' hj'.mem) rfl fun k' hk' x hx => ?_
      refine hmem x fun heq => hqa ?_
      obtain rfl : k = k' := by
        have := hj'.frame_lt k' hk'
        omega
      exact (h.frame_unique hq List.mem_cons_self hj' hj hk' (List.mem_of_getElem? hi)).1

/-- What a program reads it can overwrite, and the kernel finds it at the same address. -/
theorem access (h : PrivateInv boot s st order spaces)
    (hcur : st.table.currentJob ≠ 0) {va : Nat} {b : Byte}
    (hload : st.userLoad st.table.currentJob va = some b) :
    ∃ tr, translate st.mem st.ttbr0 va = some tr ∧ tr.ap1 = true ∧ tr.ap2 = false ∧
      st.mem tr.pa = b := by
  obtain ⟨a, l, rfl, ha⟩ := h.inv.jobs.nonempty hcur
  obtain ⟨j, hj⟩ := h.own List.mem_cons_self
  have hroot : st.ttbr0 = j.1.l1 := (h.applied a rfl).2.trans hj.root.symm
  rw [SystemState.userLoad, ha, ← hj.root] at hload
  obtain ⟨i, k, hi, hpage, hbyte⟩ := (hj.space.load_iff hj.frame_lt hj.length_le).mp hload
  obtain ⟨htr, hap⟩ := (hj.space.user_iff hj.frame_lt hj.length_le va _).mpr ⟨i, k, hi, hpage, rfl⟩
  exact ⟨_, hroot ▸ htr, rfl, rfl, hbyte⟩

/-- A page is accessible as a whole. -/
theorem page (h : PrivateInv boot s st order spaces) {q : Nat} (hq : q ∈ order)
    {va va' : Nat} (hpage : va' / 0x1000 = va / 0x1000) (hload : (st.userLoad q va).isSome) :
    (st.userLoad q va').isSome := by
  obtain ⟨j, hj⟩ := h.own hq
  obtain ⟨b, hload⟩ := Option.isSome_iff_exists.mp hload
  rw [SystemState.userLoad, ← hj.root] at hload ⊢
  obtain ⟨i, k, hi, hindex, -⟩ := (hj.space.load_iff hj.frame_lt hj.length_le).mp hload
  exact Option.isSome_iff_exists.mpr ⟨_, (hj.space.load_iff hj.frame_lt hj.length_le).mpr
    ⟨i, k, hi, hpage.trans hindex, rfl⟩⟩

end PrivateInv

/-! ## Each event keeps it -/

/-- `job_forward` changes no field of a job but `next`. -/
theorem jobForwardLoop_same {rounds : Nat} {t' : JobTable} : ∀ (n : Nat) (t : JobTable),
    jobForwardLoop rounds n t = .ok t' → SameJobs t t' := by
  intro n
  induction n with
  | zero =>
    intro t h
    cases h
  | succ n ih =>
    intro t h
    rw [jobForwardLoop] at h
    cases hst : t.status t.currentJob with
    | running =>
      rw [hst] at h
      obtain rfl := Except.ok.inj h
      exact .refl t
    | sleeping =>
      rw [hst] at h
      exact ih (t.setCurrent (t.next t.currentJob)) h
    | terminated =>
      rw [hst] at h
      obtain ⟨t₁, hdelete, h⟩ := bind_eq_ok h
      obtain ⟨-, hdelete⟩ := guard_eq_ok hdelete
      obtain ⟨last, -, hdelete⟩ := bind_eq_ok hdelete
      obtain ⟨⟨r, mem⟩, -, hdelete⟩ := bind_eq_ok hdelete
      obtain rfl := Except.ok.inj hdelete
      exact SameJobs.trans (jobUnlink_same _ _ _ _) (ih _ h)

/-- A timer interrupt touches no address space, and gives no job another one. -/
theorem internalHandler_frame {rounds : Nat} {c : Cpu} (h : st.internalHandler rounds c = .ok st') :
    st'.mem = st.mem ∧ st'.managers = st.managers ∧ st'.tables = st.tables ∧
      ∀ q, st'.managerOf q = st.managerOf q := by
  obtain ⟨st₁, hforward, h⟩ := bind_eq_ok h
  obtain ⟨t, ht, hforward⟩ := bind_eq_ok hforward
  obtain rfl := Except.ok.inj hforward
  obtain rfl := Except.ok.inj h
  refine ⟨rfl, rfl, rfl, fun q => ?_⟩
  have hsaved : ((savedTable st.table c).jobs q).paging = st.managerOf q := field_setJob_of_eq rfl
  show (t.jobs q).paging = st.managerOf q
  rw [jobForwardLoop_same _ _ ht q]
  exact hsaved

namespace PrivateInv

/-- What a start has done to the jobs' memory. -/
structure Started (boot : Mem) (s : Slab) (st st' : SystemState) (order : List Nat)
    (spaces : List (PagingManager × List Nat)) (job : Nat) (space : PagingManager × List Nat)
    (read : FileRead) : Prop where
  added : SpaceAdded st st' spaces space read
  inv : PrivateInv boot s st' (insertSecond job order) (space :: spaces)
  new : job ∉ order
  root : st'.rootOf job = space.1.l1
  loads : ∀ q ∈ order, st'.userLoad q = st.userLoad q

/-- A spawn or the first program: the manager made for the new job is its own. -/
theorem added (h : PrivateInv boot s st order spaces) {job : Nat}
    (hslab : ∃ mem, slabAllocate st.table.jobSlab st.table.mem = .ok (job, mem))
    (hinv : SystemInv s st' (insertSecond job order))
    (happ : ∀ a ∈ (insertSecond job order).head?, st'.Applied a)
    {space : PagingManager × List Nat} {read : FileRead} (hadd : SpaceAdded st st' spaces space read) :
    Started boot s st st' order spaces job space read := by
  obtain ⟨mem, hslab⟩ := hslab
  obtain ⟨job', mem', entry, sp, name, pm, hslab', htable, hmanagers⟩ := hadd.manager
  -- both are about the same call of `slab_allocate`
  obtain ⟨rfl, rfl⟩ := Prod.mk.inj (Except.ok.inj (hslab'.symm.trans hslab))
  have hmanager : ∀ q, st'.managerOf q = if q = job' then pm else st.managerOf q := by
    intro q
    rw [SystemState.managerOf, htable]
    exact jobFill_paging ..
  have hself : st'.managerOf job' = pm := (hmanager job').trans (if_pos rfl)
  have hnew : job' ∉ order := by
    have hnodup := (insertSecond_perm job' order).nodup_iff.mp hinv.jobs.slots.nodup
    exact (List.nodup_cons.mp hnodup).1
  have hother : ∀ q ∈ order, st'.managerOf q = st.managerOf q := by
    intro q hq
    refine (hmanager q).trans (if_neg ?_)
    rintro rfl
    exact hnew hq
  obtain ⟨hinv', hsame⟩ := h.started hinv hnew happ hself hother hmanagers hadd
  refine ⟨hadd, hinv', hnew, ?_, hsame⟩
  rw [SystemState.rootOf, hself, hmanagers, Function.update_self]

/-- The first program gets a space of its own. -/
theorem usermode (h : PrivateInv boot s st [] spaces) {garbage : Garbage} {filename : Mem}
    {name : Nat} (hstep : SystemStep volume st (.usermode garbage filename name) st') :
    ∃ job space read, Started boot s st st' [] spaces job space read := by
  obtain ⟨-, ⟨enough, hret⟩, hall⟩ := hstep
  obtain ⟨⟨inode, fatInode, st₁⟩, hopen, hres⟩ := bind_eq_ok (hret enough (Nat.le_refl _))
  obtain ⟨⟨job, st₂⟩, hcreate, hres⟩ := bind_eq_ok hres
  obtain rfl := Except.ok.inj hres
  obtain ⟨pm, initMem, size, hst⟩ := fileStarted h.inv.fs hopen hcreate hall
  obtain ⟨role, hspaces⟩ := h.made
  obtain ⟨space, read, hadd⟩ := fileAdded h.inv.fs hspaces hopen hcreate
  obtain ⟨mem, -, -, -, hslab, -⟩ := hst.table
  obtain ⟨role', hspaces'⟩ := hadd.spaces
  obtain ⟨hinv, -⟩ := h.inv.started hst ⟨hadd.tables, role', space, spaces, hspaces'⟩
  have hcur : st₂.table.currentJob = job := hinv.jobs.current_eq
  refine ⟨job, space, read, h.added ⟨mem, hslab⟩ (hinv.apply _) ?_
    ⟨hadd.tables, hadd.spaces, hadd.manager, hadd.reads, hadd.room, hadd.image⟩⟩
  rintro _ ⟨⟩
  rw [hcur]
  exact ⟨rfl, rfl⟩

/-- So does a program that is spawned, and the jobs of the ring read what they read before. -/
theorem spawn {a : Nat} {l : List Nat} (h : PrivateInv boot s st (a :: l) spaces)
    {garbage : Garbage} {filename : List Byte}
    (hstep : SystemStep volume st (.spawn garbage filename) st') :
    ∃ job space read, Started boot s st st' (a :: l) spaces job space read := by
  obtain ⟨-, ⟨enough, hret⟩, hall⟩ := hstep
  have hres := hret enough (Nat.le_refl _)
  obtain ⟨job, pm, initMem, size, hst⟩ := spawn_started h.inv.fs hres hall
  obtain ⟨role, hspaces⟩ := h.made
  obtain ⟨space, read, hadd⟩ := spawn_added h.inv.fs hspaces hres
  obtain ⟨mem, -, -, -, hslab, -⟩ := hst.table
  obtain ⟨role', hspaces'⟩ := hadd.spaces
  obtain ⟨hinv, -, -, hother⟩ := h.inv.started hst ⟨hadd.tables, role', space, spaces, hspaces'⟩
  refine ⟨job, space, read, h.added ⟨mem, hslab⟩ hinv ?_ hadd⟩
  rintro _ ⟨⟩
  have happ := h.applied a rfl
  exact ⟨by rw [hst.current, hother a List.mem_cons_self]; exact happ.1,
    by rw [hst.ttbr0, hother a List.mem_cons_self, happ.1]⟩

/-- A start, as the jobs see it. -/
theorem Started.step {job : Nat} {space : PagingManager × List Nat} {read : FileRead}
    (h : Started boot s st st' order spaces job space read) (hinv : SystemInv s st order) :
    MemoriesStep st.memories .start st'.memories := by
  have hlive : ∀ q, st'.InRing q ↔ q = job ∨ st.InRing q := by
    intro q
    rw [h.inv.inv.inRing_iff, mem_insertSecond, hinv.inRing_iff]
  refine ⟨⟨job, fun hin => h.new ((hinv.inRing_iff job).mp hin), hlive⟩, fun q hq => ?_⟩
  exact h.loads q ((hinv.inRing_iff q).mp hq)

/-- **One event**, as the jobs see it. -/
theorem step (h : PrivateInv boot s st order spaces) {e : UserEvent}
    (hstep : UserStep volume st e st') :
    ∃ order' spaces', PrivateInv boot s st' order' spaces' ∧
      MemoriesStep st.memories (userEvent st e st') st'.memories := by
  have hidle : PrivateInv boot s st' order spaces ∧ st'.userLoad = st.userLoad →
      ∃ order' spaces', PrivateInv boot s st' order' spaces' ∧
        MemoriesStep st.memories .idle st'.memories := by
    rintro ⟨hinv', hload⟩
    refine ⟨order, spaces, hinv', fun q => ⟨?_, fun _ => congrFun hload q⟩⟩
    exact (hinv'.inv.inRing_iff q).trans (h.inv.inRing_iff q).symm
  cases e with
  | store va c =>
    obtain ⟨hcur, tr, htr, hap, -, hst⟩ := hstep
    obtain ⟨a, l, rfl, ha⟩ := h.inv.jobs.nonempty hcur
    obtain ⟨hinv', hsome, hload⟩ := h.store htr hap c hst
    refine ⟨a :: l, spaces, hinv', ?_, ha ▸ hsome, fun q => ⟨?_, fun hq => ?_⟩⟩
    · exact (h.inv.inRing_iff _).mpr (ha ▸ List.mem_cons_self)
    · exact (hinv'.inv.inRing_iff q).trans (h.inv.inRing_iff q).symm
    · rw [ha]
      exact hload q ((h.inv.inRing_iff q).mp hq)
  | kernel e =>
    obtain ⟨hkernel, hstep⟩ := hstep
    cases e with
    | usermode garbage filename name =>
      obtain rfl := h.inv.jobs.order_nil h.inv.placed hstep.1
      obtain ⟨job, space, read, hstarted⟩ := h.usermode hstep
      exact ⟨_, _, hstarted.inv, hstarted.step h.inv⟩
    | spawn garbage filename =>
      obtain ⟨a, l, rfl, -⟩ := h.inv.jobs.nonempty hstep.1
      obtain ⟨job, space, read, hstarted⟩ := h.spawn hstep
      exact ⟨_, _, hstarted.inv, hstarted.step h.inv⟩
    | timer c =>
      obtain ⟨a, l, rfl, -⟩ := h.inv.jobs.nonempty hstep.1.1
      obtain ⟨r, rest, gone, hinv', happ', hperm, -⟩ := h.inv.timer hstep
      obtain ⟨-, ⟨enough, hret⟩⟩ := hstep
      obtain ⟨hmem, hmanagers, htables, hmanager⟩ :=
        internalHandler_frame (hret enough (Nat.le_refl _))
      obtain ⟨hafter, hload⟩ := h.keeps hinv' (by rintro _ ⟨⟩; exact happ') hmem hmanagers htables
        hmanager ⟨gone, hperm⟩
      refine ⟨r :: rest, spaces, hafter, fun q hq => ⟨?_, congrFun hload q⟩⟩
      refine (h.inv.inRing_iff q).mpr (hperm.mem_iff.mpr (List.mem_append_right _ ?_))
      exact (hinv'.inRing_iff q).mp hq
    | «open» garbage filename =>
      obtain ⟨-, ⟨enough, hret⟩⟩ := hstep
      have hres := hret enough (Nat.le_refl _)
      obtain ⟨hinv', hmanager, -⟩ := h.inv.openFile hres
      obtain ⟨fs, files, count, -, rfl⟩ := exceptionsInternalOpen_ok hres
      refine hidle (h.keeps hinv' (fun a ha => ?_) rfl rfl rfl hmanager ⟨[], List.Perm.refl _⟩)
      rw [SystemState.Applied, hmanager]
      exact h.applied a ha
    | terminate =>
      obtain ⟨-, rfl⟩ := hstep
      have hmanager : ∀ q, ((jobTerminate st.table).jobs q).paging = st.managerOf q :=
        fun _ => field_setJob_of_eq rfl
      refine hidle (h.keeps h.inv.terminate (fun a ha => ?_) rfl rfl rfl hmanager
        ⟨[], List.Perm.refl _⟩)
      rw [SystemState.Applied, SystemState.managerOf, hmanager]
      exact h.applied a ha
    | user mem => exact absurd rfl (hkernel mem)

end PrivateInv

/-- The invariant of a run. -/
def PrivateGood (st : SystemState) : Prop :=
  ∃ boot s order spaces, PrivateInv boot s st order spaces

/-- One event, and what it is to the memories. -/
theorem PrivateGood.step (h : PrivateGood st) {e : UserEvent} (hstep : UserStep volume st e st') :
    PrivateGood st' ∧ MemoriesStep st.memories (userEvent st e st') st'.memories := by
  obtain ⟨boot, s, order, spaces, hinv⟩ := h
  obtain ⟨order', spaces', hinv', hmemories⟩ := hinv.step hstep
  exact ⟨⟨boot, s, order', spaces', hinv'⟩, hmemories⟩

/-- The invariant holds in every reachable state. -/
theorem PrivateGood.reach (hr : (userMachine volume).Reach st) : PrivateGood st := by
  refine hr.invariant (I := PrivateGood) (fun st h0 => ?_) fun _ _ _ h hstep => (h.step hstep).1
  obtain ⟨s, hinv⟩ := PrivateInv.start h0
  exact ⟨st.mem, s, [], [], hinv⟩

/-- A run of the kernel and its programs is a run of jobs with memories of their own. -/
theorem PrivateGood.run {tr : List (SystemState × UserEvent × SystemState)} (h : PrivateGood st)
    (hr : (userMachine volume).Run st tr st') :
    (memoriesMachine Nat Nat Byte).Run st.memories
      (tr.map fun (a, e, b) => (a.memories, userEvent a e b, b.memories)) st'.memories :=
  hr.simulate (I := PrivateGood) SystemState.memories userEvent
    (fun _ _ _ h hstep => (h.step hstep).1) (fun _ _ _ h hstep => (h.step hstep).2) h

/-! ## What holds in every state and over every run -/

/-- What the address spaces of the ring look like from EL0. -/
structure RingIsolation (st : SystemState) : Prop where
  /-- A program runs in its own address space. -/
  current : st.table.currentJob ≠ 0 → st.ttbr0 = st.rootOf st.table.currentJob
  /-- The kernel is mapped one to one, out of reach of EL0. -/
  kernel : ∀ q, st.InRing q → ∀ va, va < 0x80000000 →
    translate st.mem (st.rootOf q) va = some ⟨va, false, false⟩
  /-- EL0 reaches whole pages from `JOB_BASE_USER` on, without a gap. -/
  pages : ∀ q, st.InRing q → ∃ n, n ≤ 0x1000 ∧
    ∀ va, (st.userLoad q va).isSome ↔ jobBaseUser ≤ va ∧ va < jobBaseUser + 0x1000 * n
  /-- They are in the user zone. -/
  inside : ∀ q, st.InRing q → ∀ va tr, translate st.mem (st.rootOf q) va = some tr →
    tr.ap1 = true → 0x80000000 ≤ tr.pa ∧ tr.pa < 0x81000000
  /-- Two pages on one frame are the same page of the same job. -/
  distinct : ∀ q q', st.InRing q → st.InRing q' → ∀ va va' tr tr',
    translate st.mem (st.rootOf q) va = some tr → tr.ap1 = true →
    translate st.mem (st.rootOf q') va' = some tr' → tr'.ap1 = true →
    tr.pa / 0x1000 = tr'.pa / 0x1000 → q = q' ∧ va / 0x1000 = va' / 0x1000

/-- The invariant says that the jobs of the ring are isolated. -/
theorem PrivateInv.isolation (h : PrivateInv boot s st order spaces) : RingIsolation st := by
  have huser : ∀ {q j}, OwnSpace st spaces q j → ∀ va tr,
      translate st.mem (st.rootOf q) va = some tr ∧ tr.ap1 = true ↔
        ∃ i k, j.2[i]? = some k ∧ va / 0x1000 = 0x80000 + i ∧
          tr = ⟨0x80000000 + 0x1000 * k + va % 0x1000, true, false⟩ := fun {q j} hj va tr =>
    hj.root ▸ hj.space.user_iff hj.frame_lt hj.length_le va tr
  refine ⟨fun hcur => ?_, fun q hq va hva => ?_, fun q hq => ?_, fun q hq va tr htr hap => ?_, ?_⟩
  · obtain ⟨a, l, rfl, ha⟩ := h.inv.jobs.nonempty hcur
    rw [ha]
    exact (h.applied a rfl).2
  · obtain ⟨j, hj⟩ := h.own ((h.inv.inRing_iff q).mp hq)
    rw [← hj.root]
    exact hj.space.translate_kernel hva
  · obtain ⟨j, hj⟩ := h.own ((h.inv.inRing_iff q).mp hq)
    refine ⟨j.2.length, hj.length_le, fun va => ?_⟩
    rw [Option.isSome_iff_exists, jobBaseUser]
    simp only [SystemState.userLoad, ← hj.root, hj.space.load_iff hj.frame_lt hj.length_le]
    constructor
    · rintro ⟨c, i, k, hi, hpage, -⟩
      have hlt := (List.getElem?_eq_some_iff.mp hi).1
      omega
    · rintro ⟨hlow, hhigh⟩
      have hlt : va / 0x1000 - 0x80000 < j.2.length := by omega
      exact ⟨_, _, _, List.getElem?_eq_getElem hlt, by omega, rfl⟩
  · obtain ⟨j, hj⟩ := h.own ((h.inv.inRing_iff q).mp hq)
    obtain ⟨i, k, hi, -, rfl⟩ := (huser hj va tr).mp ⟨htr, hap⟩
    have hk := hj.frame_lt k (List.mem_of_getElem? hi)
    simp only
    omega
  · intro q q' hq hq' va va' tr tr' htr hap htr' hap' hframe
    have hqm := (h.inv.inRing_iff q).mp hq
    have hqm' := (h.inv.inRing_iff q').mp hq'
    obtain ⟨j, hj⟩ := h.own hqm
    obtain ⟨j', hj'⟩ := h.own hqm'
    obtain ⟨i, k, hi, hpage, rfl⟩ := (huser hj va tr).mp ⟨htr, hap⟩
    obtain ⟨i', k', hi', hpage', rfl⟩ := (huser hj' va' tr').mp ⟨htr', hap'⟩
    simp only at hframe
    obtain rfl : k = k' := by omega
    obtain ⟨rfl, rfl⟩ := h.frame_unique hqm hqm' hj hj' (List.mem_of_getElem? hi)
      (List.mem_of_getElem? hi')
    obtain rfl : i = i' := (List.getElem?_inj (List.getElem?_eq_some_iff.mp hi).1
      hj.nodup).mp (hi.trans hi'.symm)
    exact ⟨rfl, by omega⟩

/-- What a new job finds beyond the bytes of its program. -/
theorem PrivateInv.Started.rest {job : Nat} {space : PagingManager × List Nat} {read : FileRead}
    (hinv : PrivateInv boot s st order spaces)
    (h : Started boot s st st' order spaces job space read) {va : Nat} {tr : Translation}
    (htr : translate st'.mem (st'.rootOf job) va = some tr) (hap : tr.ap1 = true)
    (hva : jobBaseUser + read.bytes ≤ va) : st'.mem tr.pa = boot tr.pa := by
  obtain ⟨role, hspaces⟩ := h.added.spaces
  have hmem : space ∈ space :: spaces := List.mem_cons_self
  have hframes := hspaces.frame_lt hmem
  have hnodup := hspaces.frames
  rw [List.flatMap_cons, List.nodup_append] at hnodup
  rw [h.root] at htr
  obtain ⟨i, k, hi, hpage, rfl⟩ := ((hspaces.spaces space hmem).user_iff hframes
    (hspaces.length_le hmem) va tr).mp ⟨htr, hap⟩
  have hk := List.mem_of_getElem? hi
  rw [jobBaseUser] at hva
  simp only
  have hfresh : st.mem (0x80000000 + 0x1000 * k + va % 0x1000)
      = boot (0x80000000 + 0x1000 * k + va % 0x1000) :=
    hinv.fresh k (hframes k hk) (fun hin => hnodup.2.2 k hk k hin rfl) _ (by omega)
  refine (h.added.image _ (by omega) fun i' k' hlt hget heq => ?_).trans hfresh
  -- it would be byte `i'` of the program
  obtain rfl : k = k' := by omega
  obtain rfl : i = i' / 0x1000 := (List.getElem?_inj (List.getElem?_eq_some_iff.mp hi).1
    hnodup.1).mp (hi.trans hget.symm)
  omega

/-- The invariant at the end of a run, with the same memory at boot. -/
theorem PrivateInv.run {tr : List (SystemState × UserEvent × SystemState)}
    (hr : (userMachine volume).Run st tr st') : ∀ {order spaces},
    PrivateInv boot s st order spaces → ∃ order' spaces', PrivateInv boot s st' order' spaces' := by
  induction hr with
  | nil st => exact fun h => ⟨_, _, h⟩
  | cons hstep _ ih =>
    intro order spaces h
    obtain ⟨order', spaces', h', -⟩ := h.step hstep
    exact ih h'

end Invariant

/-- The kernel starts a program, which can use its first page. -/
theorem programVolume_page : ∃ st₀ st, SystemBooted st₀ ∧
    SystemStep (programVolume 4) st₀ (.usermode noGarbage programName 0) st ∧
    st.table.currentJob ≠ 0 ∧ (st.userLoad st.table.currentJob jobBaseUser).isSome ∧
    ProgramRoom st := by
  have hm : (4 : Byte) ∈ programSizes := by decide
  obtain ⟨heap, inodes, jobs, tables, hboot⟩ := bootHeap_exists
  obtain ⟨inode, st₁, hopen, hfree, hmem, htables, htable, hrefuse⟩ := hboot.opened 4 hm
  have hcall : JobCreateCall (programVolume 4) noGarbage st₁ inode _ 0 :=
    .usermode (.start hboot.booted) hopen
  have hfit := hboot.fits hm hcall.ready hfree hmem htables htable
  obtain ⟨job, st₂, reads, hret, -, -, himage⟩ := jobCreateFromFile_image
    (programVolume_loaded 4 hm) hcall.ready rfl (programVolume_chain 4 hm) (programFile_elf64 4 hm)
    (programFile_segment 4 hm) hfit 0
  have hnone : st₂.refusals = st₁.refusals := jobCreateFromFile_refusals (programVolume_loaded 4 hm)
    hcall.ready rfl (programVolume_chain 4 hm) (programFile_elf64 4 hm) (programFile_names 4 hm)
    hfree (programFile_fits 4 hm) (hret 189 (Nat.le_refl _))
  have hstep : SystemStep (programVolume 4) (bootedSystem heap inodes jobs tables)
      (.usermode noGarbage programName 0)
      (st₂.pagingManagerApply (st₂.table.jobs st₂.table.currentJob).paging).2 := by
    refine ⟨rfl, ⟨189, fun rounds hrounds => ?_⟩, hnone.trans hrefuse⟩
    show usermode _ _ _ _ _ _ = _
    unfold usermode
    rw [hopen, ok_bind]
    simp only [hret rounds hrounds, ok_bind]
    rfl
  obtain ⟨hframes, hleft⟩ := jobCreateFromFile_slots (programVolume_loaded 4 hm) hcall.ready rfl
    (programVolume_chain 4 hm) (programFile_elf64 4 hm) (programFile_segment 4 hm) hfit
    (Nat.le_refl 189) (hret 189 (Nat.le_refl _))
  have hbits : ∀ t : Slab, t.freeSlots st₁.mem = t.maxStore := fun t =>
    t.freeSlots_of_clear fun k _ => by rw [hmem]; simp [Slab.used, bitAt]
  have hpages : jobPages (pMemsz ((programVolume 4).file [2]) (ePhoff ((programVolume 4).file [2])))
      = 2 := (programFile_room 4 hm).2
  have htwo : userSpace.maxStore = 4096 ∧ jobTables 2 = 3 := by decide
  have hmax : (bootedSystem heap inodes jobs tables).tables.maxStore = 4096 := rfl
  rw [hbits, hpages, htwo.1] at hframes
  rw [hbits, hpages, htwo.2, htables, hmax] at hleft
  -- its first byte is mapped
  obtain ⟨s, hstart⟩ := PrivateInv.start hboot.booted
  obtain ⟨q, space, read, hst⟩ := hstart.usermode hstep
  have hcur : st₂.table.currentJob = q := hst.inv.inv.jobs.current_eq
  obtain ⟨role, hspaces⟩ := hst.added.spaces
  obtain ⟨pm, initMem, size, hjob⟩ := fileStarted hstart.inv.fs hopen (hret 189 (Nat.le_refl _))
    (hnone.trans hrefuse)
  obtain ⟨hinv, -⟩ := hstart.inv.started hjob ⟨hst.added.tables, role, space, [], hspaces⟩
  obtain rfl : job = q := hinv.jobs.current_eq.symm.trans hcur
  obtain ⟨j, hj⟩ := hst.inv.own (q := job) List.mem_cons_self
  have hsizes : 0 < pMemsz (programBytes 4) (ePhoff (programBytes 4)) ∧
      pOffset (programBytes 4) (ePhoff (programBytes 4)) < 188 := by
    decide +kernel
  rw [← programFile_eq 4 hm] at hsizes
  obtain ⟨tr, htr, -⟩ := Option.map_eq_some_iff.mp (himage 0 hsizes.1 hsizes.2)
  have hroot : (st₂.managers (st₂.managerOf job)).l1 = j.1.l1 := hj.root.symm
  rw [hroot] at htr
  obtain ⟨i, k, hi, hpage, -⟩ :=
    hj.space.translate_above hj.frame_lt hj.length_le (Nat.le_add_right _ _) htr
  have hload := (hj.space.load_iff hj.frame_lt hj.length_le).mpr ⟨i, k, hi, hpage, rfl⟩
  rw [hj.root, ← hcur] at hload
  refine ⟨_, _, hboot.booted, hstep, ?_, Option.isSome_iff_exists.mpr ⟨_, hload⟩, hjob.opened, ?_,
    ?_, ?_, ?_⟩
  · obtain ⟨k, -, hk⟩ := hinv.jobs.slots.slots job List.mem_cons_self
    have hpos := hinv.placed.slotAddr_pos k
    show st₂.table.currentJob ≠ 0
    omega
  · have hblocks : 4112 + allocBlocks 188 + parserBlocks (programFile 4)
        + allocBlocks sizeofPagingManager ≤ 0x8000 := by
      have hfew := (programFile_room 4 hm).1
      omega
    have hroom := jobCreateFromFile_room (programVolume_loaded 4 hm) hcall.ready rfl
      (programVolume_chain 4 hm) (programFile_elf64 4 hm) (programFile_names 4 hm) hfree
      (programFile_fits 4 hm) (hret 189 (Nat.le_refl _))
    exact fun n hn hn' => hroom n (Nat.le_trans hblocks hn) hn'
  · show 2 ≤ userSpace.freeSlots st₂.mem
    omega
  · show 3 ≤ st₂.tables.freeSlots st₂.mem
    omega
  · have hmaxJobs : (bootedSystem heap inodes jobs tables).table.jobSlab.maxStore = 128 := rfl
    rw [hstart.inv.jobs.slab] at hmaxJobs
    obtain ⟨k, hk, hused⟩ := hinv.jobs.slots.exists_free hinv.placed
      (show 1 < s.maxStore by omega)
    exact ⟨k, hinv.jobs.slab ▸ hk, hinv.jobs.slab ▸ hused⟩

/-- The program spawns its own file: the first job `a` stays current and keeps its memory, the new
    one `b` is second. -/
theorem programVolume_two : ∃ st₀ st st' a b, SystemBooted st₀ ∧
    SystemStep (programVolume 4) st₀ (.usermode noGarbage programName 0) st ∧
    SystemStep (programVolume 4) st (.spawn noGarbage [0x61, 0x2e, 0x62]) st' ∧
    (∃ boot s spaces, PrivateInv boot s st' [a, b] spaces) ∧
    (st'.userLoad a jobBaseUser).isSome := by
  obtain ⟨st₀, st, hboot, hstep, hcur, hload, hroom⟩ := programVolume_page
  obtain ⟨st', hspawn⟩ :=
    hroom.spawn (.step (e := .usermode noGarbage programName 0) (.start hboot) hstep) hcur
  obtain ⟨s, hstart⟩ := PrivateInv.start hboot
  obtain ⟨a, space, read, hst⟩ := hstart.usermode hstep
  obtain ⟨b, space', read', hst'⟩ := hst.inv.spawn hspawn
  refine ⟨st₀, st, st', a, b, hboot, hstep, hspawn, ⟨_, s, _, hst'.inv⟩, ?_⟩
  rw [hst'.loads a List.mem_cons_self, ← hst.inv.inv.jobs.current_eq]
  exact hload

/-- It stores a byte there. -/
theorem programVolume_stores (c : Byte) : ∃ st₀ st st', SystemBooted st₀ ∧
    SystemStep (programVolume 4) st₀ (.usermode noGarbage programName 0) st ∧
    st.table.currentJob ≠ 0 ∧ UserStep (programVolume 4) st (.store jobBaseUser c) st' := by
  obtain ⟨st₀, st, hboot, hstep, hcur, hload, -⟩ := programVolume_page
  obtain ⟨s, hstart⟩ := PrivateInv.start hboot
  obtain ⟨q, space, read, hst⟩ := hstart.usermode hstep
  obtain ⟨b, hload⟩ := Option.isSome_iff_exists.mp hload
  obtain ⟨tr, htr, hap1, hap2, -⟩ := hst.inv.access hcur hload
  exact ⟨_, _, _, hboot, hstep, hcur, hcur, tr, htr, hap1, hap2, rfl⟩

/-- **Every job has a memory of its own.**  Every run of the kernel with its programs, from any
    reachable state, is a run of the machine in which a store changes one byte of the party that
    stores and nothing of the others, and in which starts, exits and scheduling change no byte of
    any party that is there before and after. -/
theorem jobs_have_private_memory {volume : Volume} {st st' : SystemState}
    {tr : List (SystemState × UserEvent × SystemState)} (hreach : (userMachine volume).Reach st)
    (hr : (userMachine volume).Run st tr st') :
    (memoriesMachine Nat Nat Byte).Run st.memories
      (tr.map fun (a, e, b) => (a.memories, userEvent a e b, b.memories)) st'.memories :=
  (PrivateGood.reach hreach).run hr

/-- The first of two jobs stores a byte. -/
theorem jobs_have_private_memory_two : ∃ (st₀ st₁ st₂ st₃ : SystemState) (a b : Nat), a ≠ b ∧
    st₂.InRing a ∧ st₂.InRing b ∧
    (memoriesMachine Nat Nat Byte).Run st₀.memories
      [(st₀.memories, .start, st₁.memories), (st₁.memories, .start, st₂.memories),
        (st₂.memories, .store a jobBaseUser 0x2a, st₃.memories)] st₃.memories := by
  obtain ⟨st₀, st₁, st₂, a, b, hboot, hstart, hspawn, ⟨boot, s, spaces, h⟩, hload⟩ :=
    programVolume_two
  have hin : ∀ q, st₂.InRing q ↔ q ∈ [a, b] := h.inv.inRing_iff
  have hne : a ≠ b := fun heq =>
    (List.nodup_cons.mp h.inv.jobs.slots.nodup).1 (heq ▸ List.mem_cons_self)
  have hcur : st₂.table.currentJob = a := h.inv.jobs.current_eq
  have hcur0 : st₂.table.currentJob ≠ 0 := ((hin a).mpr List.mem_cons_self).1
  obtain ⟨c, hload⟩ := Option.isSome_iff_exists.mp hload
  obtain ⟨tr, htr, hap1, hap2, -⟩ := h.access hcur0 (hcur ▸ hload)
  have hrun : (userMachine (programVolume 4)).Run st₀
      [(st₀, .kernel (.usermode noGarbage programName 0), st₁),
        (st₁, .kernel (.spawn noGarbage [0x61, 0x2e, 0x62]), st₂),
        (st₂, .store jobBaseUser 0x2a, { st₂ with mem := Function.update st₂.mem tr.pa 0x2a })] _ :=
    .cons ⟨nofun, hstart⟩ (.cons ⟨nofun, hspawn⟩
      (.cons ⟨hcur0, tr, htr, hap1, hap2, rfl⟩ (.nil _)))
  have hmemories := jobs_have_private_memory (.start hboot) hrun
  refine ⟨st₀, st₁, st₂, { st₂ with mem := Function.update st₂.mem tr.pa 0x2a }, a, b, hne,
    (hin a).mpr (by simp), (hin b).mpr (by simp), ?_⟩
  rw [← hcur]
  exact hmemories

/-- **A job reads its own stores.**  As long as a job is in the ring, each address of it holds what
    the job stored there last, or what was there at first; no other job and no event of the kernel
    has a part in it. -/
theorem job_reads_own_stores {volume : Volume} {st st' : SystemState}
    {tr : List (SystemState × UserEvent × SystemState)} (hreach : (userMachine volume).Reach st)
    (hr : (userMachine volume).Run st tr st') {q : Nat}
    (hq : ∀ a e b, (a, e, b) ∈ tr → a.InRing q ∧ b.InRing q) (va : Nat) :
    st'.userLoad q va
      = (lastStore q va (tr.map fun (a, e, b) => userEvent a e b)).or (st.userLoad q va) := by
  have hload := Memories.run_load ((PrivateGood.reach hreach).run hr) (q := q) ?_ va
  · rw [List.map_map] at hload
    exact hload
  · intro m e m' hm
    obtain ⟨⟨a, e', b⟩, hin, heq⟩ := List.mem_map.mp hm
    cases heq
    exact hq a e' b hin

/-- The program reads the byte that it stored. -/
theorem job_reads_own_stores_first : ∃ st st', (userMachine (programVolume 4)).Reach st ∧
    UserStep (programVolume 4) st (.store jobBaseUser 0x2a) st' ∧
    st'.userLoad st.table.currentJob jobBaseUser = some 0x2a := by
  obtain ⟨st₀, st, st', hboot, hstart, hcur, hstore⟩ := programVolume_stores 0x2a
  have hreach : (userMachine (programVolume 4)).Reach st :=
    .step (e := .kernel (.usermode noGarbage programName 0)) (.start hboot) ⟨nofun, hstart⟩
  have hrun : (userMachine (programVolume 4)).Run st [(st, .store jobBaseUser 0x2a, st')] st' :=
    .cons hstore (.nil st')
  have hcur' : st'.InRing st.table.currentJob := by
    obtain ⟨-, tr, -, -, -, rfl⟩ := hstore
    exact ⟨hcur, 0, rfl⟩
  refine ⟨st, st', hreach, hstore, (job_reads_own_stores hreach hrun ?_ jobBaseUser).trans ?_⟩
  · intro a e b hm
    cases List.mem_singleton.mp hm
    exact ⟨⟨hcur, 0, rfl⟩, hcur'⟩
  · simp [userEvent, lastStore]

/-- **Isolation of the ring.**  In every reachable state the current program runs in its own address
    space, and each job of the ring reaches its own frames and nothing else. -/
theorem ring_jobs_isolated {volume : Volume} {st : SystemState}
    (hr : (userMachine volume).Reach st) : RingIsolation st := by
  obtain ⟨boot, s, order, spaces, h⟩ := PrivateGood.reach hr
  exact h.isolation

/-- The program and a second one, which it spawned, are isolated. -/
theorem ring_jobs_isolated_two : ∃ (st : SystemState) (a b : Nat),
    (userMachine (programVolume 4)).Reach st ∧ a ≠ b ∧ st.InRing a ∧ st.InRing b ∧
    (st.userLoad a jobBaseUser).isSome ∧ RingIsolation st := by
  obtain ⟨st₀, st₁, st₂, a, b, hboot, hstart, hspawn, ⟨boot, s, spaces, h⟩, hload⟩ :=
    programVolume_two
  have hreach₁ : (userMachine (programVolume 4)).Reach st₁ :=
    .step (e := .kernel (.usermode noGarbage programName 0)) (.start hboot) ⟨nofun, hstart⟩
  have hreach₂ : (userMachine (programVolume 4)).Reach st₂ :=
    hreach₁.step (e := .kernel (.spawn noGarbage [0x61, 0x2e, 0x62])) ⟨nofun, hspawn⟩
  have hne : a ≠ b := fun heq =>
    (List.nodup_cons.mp h.inv.jobs.slots.nodup).1 (heq ▸ List.mem_cons_self)
  exact ⟨st₂, a, b, hreach₂, hne, (h.inv.inRing_iff a).mpr (by simp),
    (h.inv.inRing_iff b).mpr (by simp), hload, ring_jobs_isolated hreach₂⟩

/-- **A new job finds no data of another.**  Whatever programs stored before, a new job finds behind
    the `p_memsz` bytes that were copied from its file, in its stack too, what the memory held at
    boot.  A frame is given out once and never comes back, so the frames of a new job were nobody's
    before; the bytes that were copied are another matter, since the copy may go on behind the end
    of the file (`loads_image_iff`). -/
theorem new_job_finds_boot_memory {volume : Volume} {st₀ st st' : SystemState} {e : SystemEvent}
    {tr : List (SystemState × UserEvent × SystemState)} (h0 : SystemBooted st₀)
    (hr : (userMachine volume).Run st₀ tr st) (hstarts : e.starts = true)
    (hstep : SystemStep volume st e st') :
    ∃ job read, ¬ st.InRing job ∧ st'.InRing job ∧ st'.fileReads.head? = some read ∧
      ∀ va tr, translate st'.mem (st'.rootOf job) va = some tr → tr.ap1 = true →
        jobBaseUser + read.bytes ≤ va → st'.mem tr.pa = st₀.mem tr.pa := by
  obtain ⟨s, hstart⟩ := PrivateInv.start h0
  obtain ⟨order, spaces, h⟩ := hstart.run hr
  have hstarted : ∃ job space read,
      PrivateInv.Started st₀.mem s st st' order spaces job space read := by
    cases e with
    | usermode garbage filename name =>
      obtain rfl := h.inv.jobs.order_nil h.inv.placed hstep.1
      exact h.usermode hstep
    | spawn garbage filename =>
      obtain ⟨a, l, rfl, -⟩ := h.inv.jobs.nonempty hstep.1
      exact h.spawn hstep
    | timer | «open» | terminate | user => cases hstarts
  obtain ⟨job, space, read, hst⟩ := hstarted
  refine ⟨job, read, fun hin => hst.new ((h.inv.inRing_iff job).mp hin), ?_, hst.added.reads,
    fun va tr htr hap hva => hst.rest h htr hap hva⟩
  exact (hst.inv.inv.inRing_iff job).mpr (mem_insertSecond.mpr (Or.inl rfl))

/-- The first program finds zeros in its stack. -/
theorem new_job_finds_boot_memory_first : ∃ (st₀ st : SystemState) (job : Nat) (read : FileRead),
    SystemBooted st₀ ∧ st.InRing job ∧ st.fileReads.head? = some read ∧
    ∀ va tr, translate st.mem (st.rootOf job) va = some tr → tr.ap1 = true →
      jobBaseUser + read.bytes ≤ va → st.mem tr.pa = st₀.mem tr.pa := by
  obtain ⟨st₀, st, -, hboot, hstart, -, -⟩ := programVolume_stores 0
  obtain ⟨job, read, -, hin, hread, hrest⟩ :=
    @new_job_finds_boot_memory (programVolume 4) st₀ st₀ st _ [] hboot (.nil st₀) rfl hstart
  exact ⟨st₀, st, job, read, hboot, hin, hread, hrest⟩

end TinyKernel
