/-
  Address spaces of jobs: `job_init_user_space` and `job_create_paging` of `kernel/mp/job.c`.

  Every job gets its own translation tree: the kernel's two 1 GiB blocks, and its user pages from
  `JOB_BASE_USER` up, each backed by a frame of the `user_space` slab.  The header of that slab
  lies in the page just below the frames, that is in the last page of the kernel's mapping.

  `jobPagingMachine` runs any sequence of `job_create_paging` calls whose frames and tables fit,
  with arbitrary other writes in between (to the frames by the jobs, to kernel data by the
  kernel).  Isolation rests on three facts proved elsewhere and combined here:

  * `slab_allocate` never returns a frame in use (`Slab.Placed.allocate_cases`);
  * mapping a page changes no other leaf of any tree (`Radix.Effect`);
  * a call needs at most `jobTables` tables, because pages are mapped in order and neighbours
    share their upper tables (`pageTables_spec`).

  The invariant (`JobsInv`) is about all address spaces at once: the tables of all jobs are one forest
  of `Lib.Radix`, the frames of all jobs are one list without duplicates, and each frame of the list
  is marked used.  A call adds one job at the head of the list.  Its loop is followed page by page:
  a frame that was not used before (`JobsInv.allocFrame`), then a leaf for it at the next address
  (`JobsInv.mapFrame`).

  Whether a call fits is a condition on two counts, the frames and the tables that are left
  (`JobFits`), and it is exact in one direction: with enough of both, the call returns, and afterwards
  there are as many less as it took (`jobCreatePaging_spec`).  With too few of either, the search in
  `slab_allocate` goes on to bit -1 of the header, a negative shift; `job_create_paging` does not look
  at what it is given.
-/
import Mathlib.Data.List.Flatten
import Mathlib.Data.List.Nodup
import Mathlib.Data.List.Perm.Subperm
import TinyKernel.Mm.PagingRun

namespace TinyKernel

/-! ## The source -/

/-- `JOB_BASE_USER`. -/
def jobBaseUser : Nat := 0x80000000

/-- `job_init_user_space`: the slab header is placed just below `0x80000000`. -/
def jobInitUserSpace (blocks : Nat) (m : Mem) : Slab × Mem :=
  let slabZone := toSize ((0x80000000 : Int) - slabGetHeaderSize 0x1000 blocks)
  slabCreate 0x1000 blocks slabZone m

/-- The loop of `job_create_paging`, with `n` rounds to go. -/
def jobPagingLoop (userSpace : Slab) (pm : PagingManager) : Nat → Nat → Mem → Except Fault Mem
  | 0, _, m => .ok m
  | n + 1, virtualBaseAddress, m => do
    let (slotPhi, m) ← slabAllocate userSpace m
    let (_, m) ← pagingManagerMapPage pm virtualBaseAddress (BitVec.ofNat 64 slotPhi) true false m
    jobPagingLoop userSpace pm n (virtualBaseAddress + 0x1000) m

/-- The pages `job_create_paging` needs for `size` bytes (the stack included). -/
def jobNeedSlots (size : Int) : Int :=
  size.tdiv 0x1000 + (if size.tmod 0x1000 = 0 then 0 else 1)

/-- `job_create_paging`: the manager, `*allocated_size` and the memory.  The `kalloc` of the
    structure is taken to succeed; its address plays no role.  `int` overflow is a fault. -/
def jobCreatePaging (userSpace tables : Slab) (size : Int) (m : Mem) :
    Except Fault (PagingManager × Int × Mem) := do
  let (pm, m) ← pagingManagerInit tables m
  let m := pagingManagerMapKernel pm m
  let size := size + 4096
  if 2147483647 < size then throw .signedOverflow
  let needSlots := jobNeedSlots size
  let allocatedSize := 0x1000 * needSlots
  if 2147483647 < allocatedSize then throw .signedOverflow
  let m ← jobPagingLoop userSpace pm needSlots.toNat jobBaseUser m
  return (pm, allocatedSize, m)

/-! ## The user zone -/

/-- The `user_space` slab of `job_init_user_space(0x1000)`. -/
def userSpace : Slab := ⟨0x7ffff000, 0x1000, 0x1000, 0x1000⟩

/-- `job_init_user_space(0x1000)`: 4096 frames from 0x80000000 up, their header in the page below. -/
theorem jobInitUserSpace_fst (m : Mem) : (jobInitUserSpace 0x1000 m).1 = userSpace := by
  have hheader : slabGetHeaderSize 0x1000 0x1000 = 0x1000 := by
    rw [slabGetHeaderSize_eq (by decide) (by decide) (by decide)]
    rfl
  have hzone : toSize ((0x80000000 : Int) - (0x1000 : Nat)) = 0x7ffff000 := by
    unfold toSize; rfl
  rw [jobInitUserSpace, hheader, hzone, slabCreate_fst, hheader]
  rfl

/-- The slab lies in memory without wrapping around. -/
theorem userSpace_placed : userSpace.Placed :=
  ⟨by decide, by decide, by decide, by decide, by decide⟩

/-- Frame `k`. -/
theorem userSpace_slotAddr (k : Nat) : userSpace.slotAddr k = 0x80000000 + 0x1000 * k := rfl

/-- A memory update outside the header keeps the frame bits. -/
theorem userSpace_used_congr {m m' : Mem} {k : Nat} (hk : k < 0x1000)
    (h : ∀ x, 0x7ffff000 ≤ x → x < 0x80000000 → m' x = m x) :
    userSpace.used m' k = userSpace.used m k :=
  bitAt_congr (h _ (Nat.le_add_right _ _) (by show 0x7ffff000 + k / 8 < _; omega))

/-! ## The invariant -/

/-- The leaf of a user page backed by frame `k`. -/
def userPageEntry (k : Nat) : Word :=
  pagingL3CreateEntryBlock (BitVec.ofNat 64 (userSpace.slotAddr k)) true false

/-- The leaf of the kernel addresses around `va`. -/
def kernelBlockEntry (va : Nat) : Word :=
  pagingL012CreateEntryBlock (BitVec.ofNat 64 (va / 0x40000000 * 0x40000000)) 1 false false

/-- The tree of `pm` maps the kernel, and `frames` in order from `JOB_BASE_USER`, and nothing
    else. -/
structure JobSpace (m : Mem) (pm : PagingManager) (frames : List Nat) : Prop where
  kernel : ∀ va, va < 0x80000000 → leaf m pm.l1 va = some (2, kernelBlockEntry va)
  pages : ∀ i k, frames[i]? = some k →
    leaf m pm.l1 (jobBaseUser + 0x1000 * i) = some (0, userPageEntry k)
  rest : ∀ va, jobBaseUser + 0x1000 * frames.length ≤ va → va < 2 ^ 39 → leaf m pm.l1 va = none

/-- The space of a job depends on the leaves of its tree only. -/
theorem JobSpace.congr {m m' : Mem} {pm : PagingManager} {frames : List Nat}
    (h : JobSpace m pm frames) (hl : ∀ va, leaf m' pm.l1 va = leaf m pm.l1 va) :
    JobSpace m' pm frames where
  kernel := fun va hva => by rw [hl, h.kernel va hva]
  pages := fun i k hk => by rw [hl, h.pages i k hk]
  rest := fun va h1 h2 => by rw [hl, h.rest va h1 h2]

/-- One more page: nothing else has changed in the tree. -/
theorem JobSpace.snoc {m m' : Mem} {pm : PagingManager} {frames : List Nat} {k va : Nat}
    (h : JobSpace m pm frames) (hlen : frames.length < 0x1000)
    (hva : 0x80000000 + 0x1000 * frames.length = va)
    (hhit : leaf m' pm.l1 va = some (0, userPageEntry k))
    (hkeep : ∀ va', va' < 2 ^ 39 → va' / 4096 ≠ va / 4096 → leaf m' pm.l1 va' = leaf m pm.l1 va') :
    JobSpace m' pm (frames ++ [k]) where
  kernel := fun va' hva' => by rw [hkeep va' (by omega) (by omega), h.kernel va' hva']
  pages := fun i k' hi => by
    rcases Nat.lt_trichotomy i frames.length with hlt | heq | hgt
    · rw [List.getElem?_append_left hlt] at hi
      rw [hkeep _ (by rw [jobBaseUser]; omega) (by rw [jobBaseUser]; omega), h.pages i k' hi]
    · rw [heq, List.getElem?_append_right (Nat.le_refl _), Nat.sub_self] at hi
      obtain rfl : k = k' := Option.some.inj hi
      rw [heq, jobBaseUser, hva]
      exact hhit
    · rw [List.getElem?_eq_none (by rw [List.length_append, List.length_singleton]; omega)] at hi
      exact absurd hi (by simp)
  rest := fun va' h1 h2 => by
    simp only [List.length_append, List.length_singleton, jobBaseUser] at h1
    rw [hkeep va' h2 (by omega)]
    exact h.rest va' (by rw [jobBaseUser]; omega) h2

/-- The jobs' managers and frames: every tree is a `JobSpace`, no frame is used twice, and every
    frame that is mapped is marked used. -/
structure JobsInv (tables : Slab) (m : Mem) (role : Radix.Role Nat (Fin 512))
    (jobs : List (PagingManager × List Nat)) : Prop where
  tree : PagingInv tables m role
  owned : ∀ j ∈ jobs, j.1.pagesAllocator = tables ∧ role j.1.l1 = some (j.1.l1, [])
  roots : (jobs.map (·.1.l1)).Nodup
  spaces : ∀ j ∈ jobs, JobSpace m j.1 j.2
  frames : (jobs.flatMap (·.2)).Nodup
  used : ∀ k ∈ jobs.flatMap (·.2), k < 0x1000 ∧ userSpace.used m k = true

/-- From `m` to `m'` nothing changed but translation tables, and which frames are in use. -/
def OnlyPaging (tables : Slab) (m m' : Mem) : Prop :=
  ∀ x, ¬ tables.InZone x → x < 0x7ffff000 ∨ 0x80000000 ≤ x → m' x = m x

/-- Calls one after the other. -/
theorem OnlyPaging.trans {tables : Slab} {m m₁ m₂ : Mem} (h : OnlyPaging tables m m₁)
    (h' : OnlyPaging tables m₁ m₂) : OnlyPaging tables m m₂ :=
  fun x hx hz => (h' x hx hz).trans (h x hx hz)

/-- The table slab lies outside the user zone and its header. -/
def OutsideUserZone (tables : Slab) : Prop :=
  ∀ x, tables.InZone x → x < 0x7ffff000 ∨ 0x81000000 ≤ x

variable {tables : Slab} {m m' : Mem} {role : Radix.Role Nat (Fin 512)}
  {jobs : List (PagingManager × List Nat)} {pm : PagingManager} {fs : List Nat}

/-- So stores to the tables change no frame bit. -/
theorem OutsideUserZone.used (hout : OutsideUserZone tables)
    (hsame : ∀ x, ¬ tables.InZone x → m' x = m x) {k : Nat} (hk : k < 0x1000) :
    userSpace.used m' k = userSpace.used m k := by
  apply userSpace_used_congr hk
  intro x h1 h2
  refine hsame x (fun hx => ?_)
  have := hout x hx
  omega

namespace JobsInv

/-- No job, no tables. -/
theorem empty (tables : Slab) (m : Mem) : JobsInv tables m (fun _ => none) [] := by
  refine ⟨⟨?_, ?_, ?_⟩, ?_, List.nodup_nil, ?_, List.nodup_nil, ?_⟩
  · exact fun _ _ h => absurd h (by simp)
  · exact fun _ _ _ _ _ h => absurd h (by simp)
  · exact fun _ _ _ _ h => absurd h (by simp)
  · exact fun _ h => absurd h List.not_mem_nil
  · exact fun _ h => absurd h List.not_mem_nil
  · exact fun _ h => absurd h List.not_mem_nil

/-- The invariant survives any change that keeps the tables and the bits of the mapped frames. -/
theorem memory (ht : TableSlab tables) (h : JobsInv tables m role jobs)
    (hzone : ∀ x, tables.InZone x → m' x = m x)
    (hbits : ∀ k, k < 0x1000 → userSpace.used m k = true → userSpace.used m' k = true) :
    JobsInv tables m' role jobs where
  tree := h.tree.other ht hzone
  owned := h.owned
  roots := h.roots
  spaces := fun j hj => (h.spaces j hj).congr
    (h.tree.leaf_congr (h.owned j hj).2 fun _ hs k => h.tree.view_other ht hzone hs k)
  frames := h.frames
  used := fun k hk => ⟨(h.used k hk).1, hbits k (h.used k hk).1 (h.used k hk).2⟩

/-- Taking a frame from the slab, unless it is empty: the frame is mapped nowhere. -/
theorem allocFrame (ht : TableSlab tables) (hout : OutsideUserZone tables)
    (h : JobsInv tables m role jobs) :
    (userSpace.freeSlots m = 0 ∧ slabAllocate userSpace m = .error .negativeShift) ∨
    ∃ k m', slabAllocate userSpace m = .ok (userSpace.slotAddr k, m') ∧ k < 0x1000 ∧
      k ∉ jobs.flatMap (·.2) ∧ userSpace.used m' k = true ∧ JobsInv tables m' role jobs ∧
      userSpace.freeSlots m = userSpace.freeSlots m' + 1 ∧
      tables.freeSlots m' = tables.freeSlots m ∧ OnlyPaging tables m m' ∧
      ∀ x, tables.InZone x → m' x = m x := by
  rcases userSpace_placed.allocate_cases m with hempty | ⟨k, hk, hbit, hres, hcount⟩
  · exact Or.inl hempty
  right
  have hbyte : userSpace.startingAddress + k / 8 < 0x80000000 := by
    have hk' : k < 0x1000 := hk
    show 0x7ffff000 + k / 8 < _
    omega
  have hzone : ∀ x, tables.InZone x →
      setBit m userSpace.startingAddress k true x = m x := by
    intro x hx
    have := hout x hx
    refine setBit_of_ne ?_
    show x ≠ 0x7ffff000 + k / 8
    have hb : 0x7ffff000 + k / 8 < 0x80000000 := hbyte
    omega
  refine ⟨k, _, hres, hk, ?_, bitAt_setBit_same .., h.memory ht hzone ?_, hcount, ?_, ?_, hzone⟩
  · intro hm
    rw [(h.used k hm).2] at hbit
    exact absurd hbit (by decide)
  · intro j _ hj
    by_cases hjk : j = k
    · rw [hjk]; exact bitAt_setBit_same ..
    · rw [← hj]; exact bitAt_setBit_ne hjk
  · refine tables.freeSlots_congr fun j hj => bitAt_congr (hzone _ ?_)
    have := ht.header_byte_lt hj
    unfold Slab.InZone
    omega
  · intro x _ hx
    refine setBit_of_ne ?_
    show x ≠ 0x7ffff000 + k / 8
    have hb : 0x7ffff000 + k / 8 < 0x80000000 := hbyte
    omega

end JobsInv

/-! ## The tables a job needs -/

/-- A bound on the tables that mapping user page `i` creates, when the pages before it are
    mapped: the first page needs both upper tables, every 512th a new one. -/
def pageTables (i : Nat) : Nat := if i = 0 then 2 else if i % 512 = 0 then 1 else 0

/-- The bound for `n` pages from page `i` on. -/
def pageTablesFrom : Nat → Nat → Nat
  | _, 0 => 0
  | i, n + 1 => pageTables i + pageTablesFrom (i + 1) n

/-- The tables `job_create_paging` needs for `n` pages: one of level 1, one of level 2, and one
    of level 3 for every 512 pages. -/
def jobTables (n : Nat) : Nat := 2 + (n + 511) / 512

/-- The tables for pages from the second on: one for each 512 pages that begin a new one. -/
theorem pageTablesFrom_add : ∀ (n i : Nat), 1 ≤ i →
    pageTablesFrom i n + (i + 511) / 512 = (i + n + 511) / 512 := by
  intro n
  induction n with
  | zero =>
    intro i _
    rw [pageTablesFrom, Nat.add_zero, Nat.zero_add]
  | succ n ih =>
    intro i hi
    have hrest := ih (i + 1) (by omega)
    rw [pageTablesFrom, pageTables, if_neg (by omega)]
    split <;> omega

/-- Together with the root, these are the tables that a job of at least one page needs. -/
theorem pageTablesFrom_zero {n : Nat} (hn : 0 < n) : 1 + pageTablesFrom 0 n = jobTables n := by
  obtain ⟨n, rfl⟩ := Nat.exists_eq_add_of_le' hn
  have h := pageTablesFrom_add n 1 (Nat.le_refl 1)
  show 1 + (2 + pageTablesFrom 1 n) = 2 + (n + 1 + 511) / 512
  omega

/-- `jobTables` is enough: the root, the tables of the first page, and those of the others. -/
theorem pageTablesFrom_zero_le (n : Nat) : 1 + pageTablesFrom 0 n ≤ jobTables n := by
  rcases Nat.eq_zero_or_pos n with rfl | hn
  · decide
  · exact Nat.le_of_eq (pageTablesFrom_zero hn)

/-- The bound is right: a page next to a mapped one shares its upper tables. -/
theorem pageTables_spec (h : JobSpace m pm fs) (hlen : fs.length < 0x1000) :
    Radix.missing armFormat (tableView m) pm.l1 (vaPath (jobBaseUser + 0x1000 * fs.length) 2)
      ≤ pageTables fs.length := by
  rw [pageTables]
  by_cases h0 : fs.length = 0
  · rw [if_pos h0]
    exact Radix.missing_le _ _ _
  rw [if_neg h0]
  have hlt : fs.length - 1 < fs.length := by omega
  have hprev := h.pages (fs.length - 1) _ (List.getElem?_eq_getElem hlt)
  generalize hva : jobBaseUser + 0x1000 * fs.length = va
  generalize hva' : jobBaseUser + 0x1000 * (fs.length - 1) = va' at hprev
  rw [jobBaseUser] at hva hva'
  have hl1 : vaIndex va' 2 = vaIndex va 2 := by
    apply Fin.ext
    show va' / 2 ^ 30 % 512 = va / 2 ^ 30 % 512
    omega
  rw [leaf, show vaPath va' 2 = [vaIndex va' 2, vaIndex va' 1, vaIndex va' 0] from rfl, hl1] at hprev
  rw [show vaPath va 2 = [vaIndex va 2, vaIndex va 1, vaIndex va 0] from rfl]
  by_cases h512 : fs.length % 512 = 0
  · rw [if_pos h512]
    exact Radix.missing_sibling [vaIndex va 2] pm.l1 _ _ [vaIndex va' 0] [vaIndex va 0] rfl hprev
  · have hl2 : vaIndex va' 1 = vaIndex va 1 := by
      apply Fin.ext
      show va' / 2 ^ 21 % 512 = va / 2 ^ 21 % 512
      omega
    rw [if_neg h512]
    rw [hl2] at hprev
    exact Radix.missing_sibling [vaIndex va 2, vaIndex va 1] pm.l1 _ _ [] [] rfl hprev

/-- What page `i` lacks when the `n` pages before it are mapped, in a tree without spare tables. -/
def lackingTables (n i : Nat) : Nat :=
  if n = 0 then 2 else if i / 512 ≤ (n - 1) / 512 then 0 else 1

/-- With `n` user pages mapped, the tree has no tables but those that these need. -/
def ExactTables (m : Mem) (pm : PagingManager) (n : Nat) : Prop :=
  ∀ i, n ≤ i → i < 0x1000 → Radix.missing armFormat (tableView m) pm.l1
    (vaPath (jobBaseUser + 0x1000 * i) 2) = lackingTables n i

/-- The path to page `i` leaves the one to page `n` at the last table, or one before. -/
theorem belowFork_page {n i : Nat} (hn : n < 0x1000) (hi : i < 0x1000) :
    Radix.belowFork (vaPath (jobBaseUser + 0x1000 * n) 2) (vaPath (jobBaseUser + 0x1000 * i) 2)
      = if i / 512 = n / 512 then 0 else 1 := by
  generalize hva : jobBaseUser + 0x1000 * n = va
  generalize hva' : jobBaseUser + 0x1000 * i = va'
  rw [jobBaseUser] at hva hva'
  have hl1 : vaIndex va' 2 = vaIndex va 2 := by
    apply Fin.ext
    show va' / 2 ^ 30 % 512 = va / 2 ^ 30 % 512
    omega
  have hl2 : vaIndex va' 1 = vaIndex va 1 ↔ i / 512 = n / 512 := by
    rw [Fin.ext_iff]
    show va' / 2 ^ 21 % 512 = va / 2 ^ 21 % 512 ↔ _
    omega
  rw [show vaPath va 2 = [vaIndex va 2, vaIndex va 1, vaIndex va 0] from rfl,
    show vaPath va' 2 = [vaIndex va' 2, vaIndex va' 1, vaIndex va' 0] from rfl, Radix.belowFork,
    if_pos hl1, Radix.belowFork]
  by_cases hsame : i / 512 = n / 512
  · rw [if_pos (hl2.mpr hsame), if_pos hsame, Radix.belowFork]
    split <;> rfl
  · rw [if_neg (mt hl2.mp hsame), if_neg hsame]
    rfl

namespace ExactTables

variable {n : Nat}

/-- The next page lacks what `pageTables` says. -/
theorem next (h : ExactTables m pm n) (hn : n < 0x1000) :
    Radix.missing armFormat (tableView m) pm.l1 (vaPath (jobBaseUser + 0x1000 * n) 2)
      = pageTables n := by
  rw [h n (Nat.le_refl n) hn, lackingTables, pageTables]
  by_cases h0 : n = 0
  · rw [if_pos h0, if_pos h0]
  · rw [if_neg h0, if_neg h0]
    split <;> split <;> omega

/-- Changes outside the tables. -/
theorem other (ht : TableSlab tables) (h : ExactTables m pm n) (hi : PagingInv tables m role)
    (hroot : role pm.l1 = some (pm.l1, [])) (hzone : ∀ x, tables.InZone x → m' x = m x) :
    ExactTables m' pm n := by
  intro i h1 h2
  rw [← h i h1 h2]
  refine Radix.missing_congr hi.owned _ _ _ hroot rfl fun u q hu _ j => ?_
  exact hi.view_other ht hzone (by rw [hu]; rfl) j

/-- The next page is mapped. -/
theorem snoc {role' : Radix.Role Nat (Fin 512)} {e : Word} (h : ExactTables m pm n)
    (he : armFormat.last e = true)
    (hins : Radix.Insert armFormat e pm.l1 role (tableView m) pm.l1 []
      (vaPath (jobBaseUser + 0x1000 * n) 2) true role' (tableView m'))
    (ho : Radix.Owned armFormat 3 (tableView m) role) (hroot : role pm.l1 = some (pm.l1, []))
    (hn : n < 0x1000) : ExactTables m' pm (n + 1) := by
  intro i h1 h2
  rw [hins.missing_eq he ho hroot rfl rfl (vaPath (jobBaseUser + 0x1000 * i) 2) rfl,
    h i (by omega) h2, belowFork_page hn h2,
    lackingTables, lackingTables, if_neg (Nat.succ_ne_zero n), Nat.add_sub_cancel]
  by_cases h0 : n = 0
  · subst h0
    rw [if_pos rfl]
    split <;> split <;> omega
  · rw [if_neg h0]
    split <;> split <;> split <;> omega

end ExactTables

/-! ## Building a job's tree -/

/-- The address of a kernel block, for each of the two blocks. -/
theorem kernelBlockEntry_of_index {va base : Nat} (hva : va < 2 ^ 39)
    (hbase : base / 0x40000000 * 0x40000000 = base) (h : vaIndex va 2 = vaIndex base 2)
    (hb39 : base < 2 ^ 39) :
    pagingL012CreateEntryBlock (BitVec.ofNat 64 base) 1 false false = kernelBlockEntry va := by
  have hidx : va / 2 ^ 30 % 512 = base / 2 ^ 30 % 512 := congrArg Fin.val h
  have hva30 : va / 0x40000000 = base / 0x40000000 := by omega
  rw [kernelBlockEntry, hva30, hbase]

/-- What `paging_manager_map_kernel` adds to a tree: the two blocks of the kernel. -/
theorem leaf_mapKernel (ht : TableSlab tables) (hi : PagingInv tables m role)
    (hroot : role pm.l1 = some (pm.l1, [])) {va : Nat} (hva : va < 2 ^ 39) :
    leaf (pagingManagerMapKernel pm m) pm.l1 va
      = if va < 0x80000000 then some (2, kernelBlockEntry va) else leaf m pm.l1 va := by
  have hi₁ := hi.map1gb ht hroot (v := 0x0) (by decide) 0x0 false false
  simp only [pagingManagerMapKernel]
  rw [hi₁.leaf_map1gb ht hroot (by decide), hi.leaf_map1gb ht hroot (by decide)]
  by_cases h1 : vaIndex va 2 = vaIndex 0x40000000 2
  · have hidx : va / 2 ^ 30 % 512 = 1 := congrArg Fin.val h1
    rw [if_pos h1, if_pos (by omega)]
    exact congrArg (fun e => some (2, e))
      (kernelBlockEntry_of_index hva (by decide) h1 (by decide))
  rw [if_neg h1]
  have h1' : va / 2 ^ 30 % 512 ≠ 1 := fun h => h1 (Fin.ext h)
  by_cases h0 : vaIndex va 2 = vaIndex 0x0 2
  · have hidx : va / 2 ^ 30 % 512 = 0 := congrArg Fin.val h0
    rw [if_pos h0, if_pos (by omega)]
    exact congrArg (fun e => some (2, e))
      (kernelBlockEntry_of_index hva (by decide) h0 (by decide))
  · have h0' : va / 2 ^ 30 % 512 ≠ 0 := fun h => h0 (Fin.ext h)
    rw [if_neg h0, if_neg (by omega)]

namespace JobsInv


/-- The frames of a job are frames of the user zone. -/
theorem frame_lt (h : JobsInv tables m role jobs) {j : PagingManager × List Nat} (hj : j ∈ jobs) :
    ∀ k ∈ j.2, k < 0x1000 :=
  fun k hk => (h.used k (List.mem_flatMap.mpr ⟨j, hj, hk⟩)).1

/-- A job has no more pages than there are frames. -/
theorem length_le (h : JobsInv tables m role jobs) {j : PagingManager × List Nat} (hj : j ∈ jobs) :
    j.2.length ≤ 0x1000 := by
  have hsub : j.2 ⊆ List.range 0x1000 := fun k hk => List.mem_range.mpr (h.frame_lt hj k hk)
  have hnd : j.2.Nodup := (List.nodup_flatMap.mp h.frames).1 j hj
  have := (List.subperm_of_subset hnd hsub).length_le
  rwa [List.length_range] at this

/-- With a frame that is not in use there are fewer. -/
theorem length_lt (h : JobsInv tables m role ((pm, fs) :: jobs)) {k : Nat} (hk : k < 0x1000)
    (hnew : k ∉ ((pm, fs) :: jobs).flatMap (·.2)) : fs.length < 0x1000 := by
  have hsub : k :: fs ⊆ List.range 0x1000 := by
    refine List.cons_subset.mpr ⟨List.mem_range.mpr hk, fun i hi => ?_⟩
    exact List.mem_range.mpr (h.used i (List.mem_append_left _ hi)).1
  have hnd : (k :: fs).Nodup := List.nodup_cons.mpr
    ⟨fun hm => hnew (List.mem_append_left _ hm),
      (List.nodup_flatMap.mp h.frames).1 _ List.mem_cons_self⟩
  have := (List.subperm_of_subset hnd hsub).length_le
  rwa [List.length_range] at this

/-- One more frame of the first job. -/
theorem flatMap_snoc_perm (k : Nat) : (((pm, fs ++ [k]) :: jobs).flatMap (·.2)).Perm
    (k :: ((pm, fs) :: jobs).flatMap (·.2)) := by
  simp only [List.flatMap_cons, List.append_assoc, List.singleton_append]
  exact List.perm_middle

/-- Mapping the next user page of the job at the head of the list is an insertion that succeeds,
    unless there are not enough tables. -/
theorem mapFrame_inserted (ht : TableSlab tables) (h : JobsInv tables m role ((pm, fs) :: jobs))
    (hlen : fs.length < 0x1000) (k : Nat) :
    (∃ m' role', pagingManagerMapPage pm (jobBaseUser + 0x1000 * fs.length)
        (BitVec.ofNat 64 (userSpace.slotAddr k)) true false m = .ok (0, m') ∧
      Inserted tables (userPageEntry k) pm.l1 m role pm.l1 []
        (vaPath (jobBaseUser + 0x1000 * fs.length) 2) 0 m' role') ∨
    (pagingManagerMapPage pm (jobBaseUser + 0x1000 * fs.length)
        (BitVec.ofNat 64 (userSpace.slotAddr k)) true false m = .error .negativeShift ∧
      tables.freeSlots m < Radix.missing armFormat (tableView m) pm.l1
        (vaPath (jobBaseUser + 0x1000 * fs.length) 2)) := by
  obtain ⟨hpm, hroot⟩ := h.owned _ List.mem_cons_self
  have hspace := h.spaces _ List.mem_cons_self
  simp only at hpm hroot hspace
  have hva39 : jobBaseUser + 0x1000 * fs.length < 2 ^ 39 := by
    rw [jobBaseUser]
    omega
  rw [pagingManagerMapPage_eq]
  rcases insertBelow_spec ht hpm hva39 (BitVec.ofNat 64 (userSpace.slotAddr k)) true false 2 pm.l1
    [] m role h.tree hroot rfl with ⟨res, m', role', hrun, hins⟩ | herr
  · -- the page was not mapped, so the call succeeds
    obtain ⟨heff, -⟩ := h.tree.mapPage hroot hins
    have hnone : leaf m pm.l1 (jobBaseUser + 0x1000 * fs.length) = none :=
      hspace.rest _ (Nat.le_refl _) hva39
    obtain rfl : res = 0 := of_decide_eq_true (heff.ok_iff.mpr (Or.inl hnone))
    exact Or.inl ⟨m', role', hrun, hins⟩
  · exact Or.inr herr

/-- A fresh frame that was mapped is the next page of the job at the head of the list. -/
theorem inserted (hout : OutsideUserZone tables) (h : JobsInv tables m role ((pm, fs) :: jobs))
    {k : Nat} (hk : k < 0x1000) (hused : userSpace.used m k = true)
    (hnew : k ∉ ((pm, fs) :: jobs).flatMap (·.2)) {role' : Radix.Role Nat (Fin 512)}
    (hins : Inserted tables (userPageEntry k) pm.l1 m role pm.l1 []
      (vaPath (jobBaseUser + 0x1000 * fs.length) 2) 0 m' role') :
    JobsInv tables m' role' ((pm, fs ++ [k]) :: jobs) := by
  have hlen := h.length_lt hk hnew
  obtain ⟨hpm, hroot⟩ := h.owned _ List.mem_cons_self
  have hspace := h.spaces _ List.mem_cons_self
  simp only at hpm hroot hspace
  obtain ⟨heff, htree⟩ := h.tree.mapPage hroot hins
  generalize hva : jobBaseUser + 0x1000 * fs.length = va at *
  rw [jobBaseUser] at hva
  have hva39 : va < 2 ^ 39 := by omega
  have hhit : leaf m' pm.l1 va = some (0, userPageEntry k) := heff.hit rfl
  have hkeep : ∀ va', va' < 2 ^ 39 → va' / 4096 ≠ va / 4096 →
      leaf m' pm.l1 va' = leaf m pm.l1 va' := by
    intro va' hva' hne
    exact heff.miss (vaPath va' 2) rfl (fun heq => hne ((vaPath_eq_iff hva39 hva').mp heq))
  refine ⟨htree, ?_, h.roots, ?_, ?_, ?_⟩
  · refine List.forall_mem_cons.mpr ⟨⟨hpm, heff.keeps _ _ hroot⟩, fun j hj => ?_⟩
    obtain ⟨hj1, hj2⟩ := h.owned j (List.mem_cons_of_mem _ hj)
    exact ⟨hj1, heff.keeps _ _ hj2⟩
  · refine List.forall_mem_cons.mpr ⟨hspace.snoc hlen hva hhit hkeep, fun j hj => ?_⟩
    obtain ⟨-, hjroot⟩ := h.owned j (List.mem_cons_of_mem _ hj)
    have hne : j.1.l1 ≠ pm.l1 := by
      intro heq
      refine (List.nodup_cons.mp h.roots).1 ?_
      exact List.mem_map.mpr ⟨j, hj, heq⟩
    exact (h.spaces j (List.mem_cons_of_mem _ hj)).congr
      (fun va' => heff.other_root h.tree.owned hne hjroot (vaPath_length va' 2))
  · exact (flatMap_snoc_perm k).nodup_iff.mpr (List.nodup_cons.mpr ⟨hnew, h.frames⟩)
  · intro j hj
    rcases List.mem_cons.mp ((flatMap_snoc_perm k).mem_iff.mp hj) with rfl | hj'
    · exact ⟨hk, by rw [hout.used hins.outside hk, hused]⟩
    · obtain ⟨h1, h2⟩ := h.used j hj'
      exact ⟨h1, by rw [hout.used hins.outside h1, h2]⟩

/-- Mapping a fresh frame as the next user page of the job at the head of the list, unless there
    are not enough tables. -/
theorem mapFrame (ht : TableSlab tables) (hout : OutsideUserZone tables)
    (h : JobsInv tables m role ((pm, fs) :: jobs)) {k : Nat} (hk : k < 0x1000)
    (hused : userSpace.used m k = true) (hnew : k ∉ ((pm, fs) :: jobs).flatMap (·.2)) :
    (∃ res m' role', pagingManagerMapPage pm (jobBaseUser + 0x1000 * fs.length)
        (BitVec.ofNat 64 (userSpace.slotAddr k)) true false m = .ok (res, m') ∧
      JobsInv tables m' role' ((pm, fs ++ [k]) :: jobs) ∧
      tables.freeSlots m ≤ tables.freeSlots m' + pageTables fs.length ∧
      userSpace.freeSlots m' = userSpace.freeSlots m ∧ OnlyPaging tables m m' ∧
      (ExactTables m pm fs.length → tables.freeSlots m = tables.freeSlots m' + pageTables fs.length ∧
        ExactTables m' pm (fs ++ [k]).length)) ∨
    (pagingManagerMapPage pm (jobBaseUser + 0x1000 * fs.length)
        (BitVec.ofNat 64 (userSpace.slotAddr k)) true false m = .error .negativeShift ∧
      tables.freeSlots m < pageTables fs.length) := by
  have hlen := h.length_lt hk hnew
  have hroot : role pm.l1 = some (pm.l1, []) := (h.owned _ List.mem_cons_self).2
  have hmiss := pageTables_spec (h.spaces _ List.mem_cons_self) hlen
  simp only at hmiss
  rcases h.mapFrame_inserted ht hlen k with ⟨m', role', hrun, hins⟩ | ⟨herr, hfew⟩
  · left
    refine ⟨0, m', role', hrun, h.inserted hout hk hused hnew hins, ?_, ?_,
      fun x hx _ => hins.outside x hx, fun hex => ?_⟩
    · have := hins.count
      omega
    · exact userSpace.freeSlots_congr fun j hj => hout.used hins.outside hj
    · rw [hins.count, hex.next hlen, List.length_append, List.length_singleton]
      exact ⟨rfl, hex.snoc (armFormat_last_pageEntry _ _ _) hins.insert h.tree.owned hroot hlen⟩
  · exact Or.inr ⟨herr, by omega⟩

/-- **The loop of `job_create_paging`** maps a fresh frame for every page, if frames and tables
    suffice, and takes no others. -/
theorem loop (ht : TableSlab tables) (hout : OutsideUserZone tables) :
    ∀ (n : Nat) (m : Mem) (role : Radix.Role Nat (Fin 512)) (fs : List Nat),
    JobsInv tables m role ((pm, fs) :: jobs) → n ≤ userSpace.freeSlots m →
    pageTablesFrom fs.length n ≤ tables.freeSlots m →
    ∃ m' role' fs', jobPagingLoop userSpace pm n (jobBaseUser + 0x1000 * fs.length) m = .ok m' ∧
      fs'.length = fs.length + n ∧ JobsInv tables m' role' ((pm, fs') :: jobs) ∧
      OnlyPaging tables m m' ∧ userSpace.freeSlots m = userSpace.freeSlots m' + n ∧
      tables.freeSlots m ≤ tables.freeSlots m' + pageTablesFrom fs.length n := by
  intro n
  induction n with
  | zero =>
    intro m role fs h _ _
    exact ⟨m, role, fs, rfl, rfl, h, fun _ _ _ => rfl, (Nat.add_zero _).symm, Nat.le_add_right _ _⟩
  | succ n ih =>
    intro m role fs h hframes htables
    rw [pageTablesFrom] at htables
    obtain ⟨k, m₁, hslab, hk, hnew, hused, h₁, hc₁, hc₂, ho₁, -⟩ :=
      (h.allocFrame ht hout).resolve_left fun hempty => by omega
    obtain ⟨res, m₂, role₂, hmap, h₂, hc₃, hc₄, ho₂, -⟩ :=
      (h₁.mapFrame ht hout hk hused hnew).resolve_right fun herr => by omega
    have hlen₂ : (fs ++ [k]).length = fs.length + 1 := by simp
    obtain ⟨m', role', fs', hloop, hfs', h', ho', hc₅, hc₆⟩ :=
      ih m₂ role₂ (fs ++ [k]) h₂ (by omega) (by rw [hlen₂]; omega)
    rw [hlen₂] at hc₆
    have hnext : jobBaseUser + 0x1000 * fs.length + 0x1000
        = jobBaseUser + 0x1000 * (fs ++ [k]).length := by
      rw [hlen₂]; omega
    refine ⟨m', role', fs', ?_, by omega, h', (ho₁.trans ho₂).trans ho', by omega, ?_⟩
    rotate_left
    · rw [pageTablesFrom]
      omega
    rw [jobPagingLoop, hslab, ok_bind]
    simp only
    rw [hmap, ok_bind]
    simp only
    rw [hnext]
    exact hloop

/-- The same for a call that returned, whether or not it had to: there were enough frames, and
    enough tables. -/
theorem loop_ok (ht : TableSlab tables) (hout : OutsideUserZone tables) {m' : Mem} :
    ∀ (n : Nat) (m : Mem) (role : Radix.Role Nat (Fin 512)) (fs : List Nat),
    JobsInv tables m role ((pm, fs) :: jobs) → ExactTables m pm fs.length →
    jobPagingLoop userSpace pm n (jobBaseUser + 0x1000 * fs.length) m = .ok m' →
    n ≤ userSpace.freeSlots m ∧ pageTablesFrom fs.length n ≤ tables.freeSlots m ∧
      ∃ role' fs', fs'.length = fs.length + n ∧ JobsInv tables m' role' ((pm, fs') :: jobs) ∧
        OnlyPaging tables m m' := by
  intro n
  induction n with
  | zero =>
    intro m role fs h _ hres
    obtain rfl := Except.ok.inj hres
    exact ⟨Nat.zero_le _, Nat.zero_le _, role, fs, rfl, h, fun _ _ _ => rfl⟩
  | succ n ih =>
    intro m role fs h hexact hres
    obtain ⟨⟨slot, m₀⟩, hslot, hres⟩ := bind_eq_ok hres
    obtain ⟨⟨res₀, m₀'⟩, hpage, hres⟩ := bind_eq_ok hres
    rcases h.allocFrame ht hout with
      ⟨-, herr⟩ | ⟨k, m₁, hslab, hk, hnew, hused, h₁, hc₁, hc₂, ho₁, hzone⟩
    · cases herr.symm.trans hslot
    obtain ⟨rfl, rfl⟩ := Prod.mk.inj (Except.ok.inj (hslab.symm.trans hslot))
    have hexact₁ := hexact.other ht h.tree (h.owned _ List.mem_cons_self).2 hzone
    rcases h₁.mapFrame ht hout hk hused hnew with
      ⟨res, m₂, role₂, hmap, h₂, -, hc₃, ho₂, hcount⟩ | ⟨herr, -⟩
    · obtain ⟨-, rfl⟩ := Prod.mk.inj (Except.ok.inj (hmap.symm.trans hpage))
      obtain ⟨hc₄, hexact₂⟩ := hcount hexact₁
      have hlen₂ : (fs ++ [k]).length = fs.length + 1 := by
        rw [List.length_append, List.length_singleton]
      have hnext : jobBaseUser + 0x1000 * fs.length + 0x1000
          = jobBaseUser + 0x1000 * (fs ++ [k]).length := by
        rw [hlen₂]
        omega
      obtain ⟨hn, htables, role', fs', hfs', h', ho'⟩ :=
        ih m₂ role₂ (fs ++ [k]) h₂ hexact₂ (hnext ▸ hres)
      rw [hlen₂] at htables hfs'
      rw [pageTablesFrom]
      exact ⟨by omega, by omega, role', fs', by omega, h', (ho₁.trans ho₂).trans ho'⟩
    · cases herr.symm.trans hpage

/-- Creating a manager and mapping the kernel gives a tree without user pages. -/
theorem create (ht : TableSlab tables) (hout : OutsideUserZone tables)
    (h : JobsInv tables m role jobs) {k : Nat} {m₁ m₂ : Mem} (ha : TableAllocated tables m k m₁)
    (hpm : pm = ⟨tables.slotAddr k, tables⟩) (hm₂ : m₂ = pagingManagerMapKernel pm m₁) :
    ∃ role', JobsInv tables m₂ role' ((pm, []) :: jobs) ∧
      tables.freeSlots m = tables.freeSlots m₂ + 1 ∧
      userSpace.freeSlots m₂ = userSpace.freeSlots m ∧ OnlyPaging tables m m₂ := by
  have hl1 : pm.l1 = tables.slotAddr k := by rw [hpm]
  have hfresh := ha.fresh ht h.tree.used
  have hi₁ := h.tree.init ht ha
  have hroot := Radix.assign_same role (tables.slotAddr k) (tables.slotAddr k) []
  rw [← hl1] at hroot hi₁ hfresh
  have hi₂ := hi₁.map1gb ht hroot (v := 0x0) (by decide) 0x0 false false
  have hi₃ := hi₂.map1gb ht hroot (v := 0x40000000) (by decide) 0x40000000 false false
  have hold : ∀ r x, role r = some x → Radix.assign role pm.l1 pm.l1 [] r = some x :=
    fun _ _ hr => Radix.assign_of_some hfresh hr
  have hzone : ∀ x, ¬ tables.InZone x → m₂ x = m x := by
    intro x hx
    rw [hm₂, pagingManagerMapKernel, hi₂.map1gb_outside ht hroot (by decide) _ _ _ hx,
      hi₁.map1gb_outside ht hroot (by decide) _ _ _ hx, ha.outside x hx]
  refine ⟨Radix.assign role pm.l1 pm.l1 [], ⟨hm₂ ▸ hi₃, ?_, ?_, ?_, h.frames, ?_⟩, ?_, ?_,
    fun x hx _ => hzone x hx⟩
  · refine List.forall_mem_cons.mpr ⟨⟨by rw [hpm], hroot⟩, fun j hj => ?_⟩
    exact ⟨(h.owned j hj).1, hold _ _ (h.owned j hj).2⟩
  · refine List.nodup_cons.mpr ⟨fun hm => ?_, h.roots⟩
    obtain ⟨j, hj, heq⟩ := List.mem_map.mp hm
    have hjroot := (h.owned j hj).2
    rw [heq, hfresh] at hjroot
    exact absurd hjroot (by simp)
  · have hnew : ∀ va, leaf m₁ pm.l1 va = none := fun va => by rw [hl1]; exact ha.leaf_new va
    refine List.forall_mem_cons.mpr ⟨⟨?_, ?_, ?_⟩, fun j hj => ?_⟩
    · intro va hva
      rw [hm₂, leaf_mapKernel ht hi₁ hroot (by omega), if_pos hva]
    · exact fun i k hi => absurd hi (by simp)
    · intro va h1 h2
      simp only [List.length_nil, jobBaseUser] at h1
      rw [hm₂, leaf_mapKernel ht hi₁ hroot h2, if_neg (by omega), hnew va]
    · obtain ⟨-, hjroot⟩ := h.owned j hj
      have hne : j.1.l1 ≠ pm.l1 := by
        intro heq
        rw [heq, hfresh] at hjroot
        exact absurd hjroot (by simp)
      refine (h.spaces j hj).congr fun va => ?_
      rw [hm₂, pagingManagerMapKernel,
        hi₂.leaf_map1gb_other ht hroot (by decide) _ _ _ (hold _ _ hjroot) hne,
        hi₁.leaf_map1gb_other ht hroot (by decide) _ _ _ (hold _ _ hjroot) hne]
      exact h.tree.leaf_congr hjroot (fun _ hs i => ha.view ht h.tree.used hs i) va
  · intro j hj
    obtain ⟨h1, h2⟩ := h.used j hj
    exact ⟨h1, by rw [hout.used hzone h1, h2]⟩
  · rw [ha.count]
    congr 1
    refine (tables.freeSlots_congr fun j hj => ?_).symm
    rw [hm₂, pagingManagerMapKernel, hi₂.map1gb_used ht hroot (by decide) _ _ _ hj,
      hi₁.map1gb_used ht hroot (by decide) _ _ _ hj]
  · exact userSpace.freeSlots_congr fun i hi => hout.used hzone hi

/-- The kernel's blocks need no table: below `JOB_BASE_USER` there is nothing but the root. -/
theorem create_exact (ht : TableSlab tables) (h : JobsInv tables m role jobs) {k : Nat} {m₁ : Mem}
    (ha : TableAllocated tables m k m₁) (hpm : pm = ⟨tables.slotAddr k, tables⟩) :
    ExactTables (pagingManagerMapKernel pm m₁) pm 0 := by
  have hl1 : pm.l1 = tables.slotAddr k := by rw [hpm]
  have hi₁ := h.tree.init ht ha
  have hroot := Radix.assign_same role (tables.slotAddr k) (tables.slotAddr k) []
  rw [← hl1] at hroot hi₁
  have hi₂ := hi₁.map1gb ht hroot (v := 0x0) (by decide) 0x0 false false
  have hkeep : ∀ j, j ≠ vaIndex 0x0 2 → j ≠ vaIndex 0x40000000 2 →
      tableView (pagingManagerMapKernel pm m₁) pm.l1 j = tableView m₁ pm.l1 j := by
    intro j h0 h1
    rw [pagingManagerMapKernel,
      (hi₂.view_map1gb ht hroot (by decide) _ _ _).2 pm.l1 (by rw [hroot]; rfl) j fun _ => h1,
      (hi₁.view_map1gb ht hroot (by decide) _ _ _).2 pm.l1 (by rw [hroot]; rfl) j fun _ => h0]
  intro i _ hi
  have hidx : vaIndex (jobBaseUser + 0x1000 * i) 2 = 2 := by
    apply Fin.ext
    show (0x80000000 + 0x1000 * i) / 2 ^ 30 % 512 = 2
    omega
  have hblank : armFormat.inner (tableView m₁ pm.l1 2) = .invalid := by
    rw [hl1]
    exact (ha.blank 2).1
  rw [lackingTables, if_pos rfl, vaPath, vaPath, Radix.missing, hidx, hkeep 2 (by decide) (by decide),
    hblank]
  rfl

end JobsInv

/-! ## `job_create_paging` over whole runs -/

/-- The memory, and the managers that `job_create_paging` returned with their `allocated_size`. -/
structure JobPagingState where
  mem : Mem
  jobs : List (PagingManager × Int)

/-- What happens in a run. -/
inductive JobPagingEvent
  /-- `job_create_paging(size, ..)`. -/
  | create (size : Int)
  /-- Any other change of memory: programs write to their frames, the kernel to its data. -/
  | other

/-- The pages a call of `job_create_paging` needs, the stack included. -/
def jobPages (size : Int) : Nat := (jobNeedSlots (size + 4096)).toNat

/-- The frames and the tables that a call needs are there. -/
def JobFits (tables : Slab) (size : Int) (m : Mem) : Prop :=
  0 ≤ size ∧ jobPages size ≤ userSpace.freeSlots m ∧ jobTables (jobPages size) ≤ tables.freeSlots m

/-- One call whose frames and tables fit, or a write to anything but the translation tables and
    the header of the frames. -/
def JobPagingStep (tables : Slab) (st : JobPagingState) : JobPagingEvent → JobPagingState → Prop
  | .create size, st' => JobFits tables size st.mem ∧
      ∃ pm allocatedSize, jobCreatePaging userSpace tables size st.mem
        = .ok (pm, allocatedSize, st'.mem) ∧ st'.jobs = (pm, allocatedSize) :: st.jobs
  | .other, st' => (∀ x, tables.InZone x ∨ (0x7ffff000 ≤ x ∧ x < 0x80000000) →
      st'.mem x = st.mem x) ∧ st'.jobs = st.jobs

/-- Runs from `job_init_user_space(0x1000)` on. -/
def jobPagingMachine (tables : Slab) : Machine JobPagingState JobPagingEvent where
  start st := st.jobs = [] ∧ ∃ m, st.mem = (jobInitUserSpace 0x1000 m).2
  step := JobPagingStep tables

/-- The pages of a call, without the conversions. -/
theorem jobNeedSlots_eq {size : Int} (h : 0 ≤ size) :
    jobNeedSlots (size + 4096) = ((jobPages size : Nat) : Int) ∧
      ((jobPages size : Nat) : Int) = (size + 4095) / 4096 + 1 := by
  obtain ⟨n, rfl⟩ := Int.eq_ofNat_of_zero_le h
  have htdiv : ((n : Int) + 4096).tdiv 0x1000 = (((n + 4096) / 0x1000 : Nat) : Int) := rfl
  have htmod : ((n : Int) + 4096).tmod 0x1000 = (((n + 4096) % 0x1000 : Nat) : Int) := rfl
  have hneed : jobNeedSlots ((n : Int) + 4096)
      = ((n + 4096) / 0x1000 : Nat) + (if (((n + 4096) % 0x1000 : Nat) : Int) = 0 then 0 else 1) := by
    rw [jobNeedSlots, htdiv, htmod]
  rw [jobPages, hneed]
  split <;> omega

/-- **`job_create_paging`** on a request that fits returns, with the size rounded up to whole
    pages and one page of stack.  It has taken a frame for each, and the tables they need at most. -/
theorem jobCreatePaging_spec (ht : TableSlab tables) (hout : OutsideUserZone tables)
    (h : JobsInv tables m role jobs) {size : Int} (hfit : JobFits tables size m) :
    ∃ pm m' role' fs, jobCreatePaging userSpace tables size m
        = .ok (pm, 0x1000 * (fs.length : Int), m') ∧ fs.length = jobPages size ∧
      JobsInv tables m' role' ((pm, fs) :: jobs) ∧ OnlyPaging tables m m' ∧
      userSpace.freeSlots m = userSpace.freeSlots m' + jobPages size ∧
      tables.freeSlots m ≤ tables.freeSlots m' + jobTables (jobPages size) := by
  obtain ⟨hpos, hframes, htables⟩ := hfit
  have hmax : userSpace.freeSlots m ≤ 0x1000 :=
    (Finset.card_filter_le _ _).trans (by rw [Finset.card_range]; decide)
  obtain ⟨hneed, hval⟩ := jobNeedSlots_eq hpos
  have hbound := pageTablesFrom_zero_le (jobPages size)
  rcases pagingManagerInit_cases ht m with ⟨hzero, -⟩ | ⟨k, m₁, hinit, ha⟩
  · rw [jobTables] at htables
    omega
  obtain ⟨role₂, h₂, hc₁, hc₂, ho₂⟩ := h.create ht hout ha rfl rfl
  obtain ⟨m', role', fs, hloop, hlen, h', ho', hc₃, hc₄⟩ :=
    h₂.loop ht hout (jobPages size) _ role₂ [] (by omega) (by rw [List.length_nil]; omega)
  rw [List.length_nil] at hc₄
  rw [List.length_nil, Nat.zero_add] at hlen
  refine ⟨_, m', role', fs, ?_, hlen, h', ho₂.trans ho', by omega, by omega⟩
  simp only [List.length_nil, Nat.mul_zero, Nat.add_zero] at hloop
  rw [jobCreatePaging, hinit, ok_bind]
  simp only [hneed, Int.toNat_natCast]
  rw [if_neg (by omega), if_neg (by omega), hloop, ok_bind, hlen]
  rfl

/-- The invariant after a call that returned, whether or not it had to: there were enough frames,
    and enough tables. -/
theorem jobCreatePaging_inv (ht : TableSlab tables) (hout : OutsideUserZone tables)
    (h : JobsInv tables m role jobs) {size allocated : Int}
    (hres : jobCreatePaging userSpace tables size m = .ok (pm, allocated, m')) :
    allocated = 0x1000 * jobNeedSlots (size + 4096) ∧ jobPages size ≤ userSpace.freeSlots m ∧
      1 + pageTablesFrom 0 (jobPages size) ≤ tables.freeSlots m ∧ ∃ role' fs,
        fs.length = jobPages size ∧ JobsInv tables m' role' ((pm, fs) :: jobs) ∧
        OnlyPaging tables m m' := by
  obtain ⟨⟨pm₀, m₀⟩, hinit₀, hres⟩ := bind_eq_ok hres
  rcases pagingManagerInit_cases ht m with ⟨-, herr⟩ | ⟨k, m₁, hinit, ha⟩
  · cases herr.symm.trans hinit₀
  obtain ⟨rfl, rfl⟩ := Prod.mk.inj (Except.ok.inj (hinit.symm.trans hinit₀))
  obtain ⟨role₂, h₂, hc₁, hc₂, ho₂⟩ := h.create ht hout ha rfl rfl
  have hexact := h.create_exact ht ha rfl
  obtain ⟨-, hres⟩ := guard_eq_ok hres
  obtain ⟨-, hres⟩ := guard_eq_ok hres
  obtain ⟨m₃, hloop, hres⟩ := bind_eq_ok hres
  simp only [pure, Except.pure, Except.ok.injEq, Prod.mk.injEq] at hres
  obtain ⟨rfl, rfl, rfl⟩ := hres
  obtain ⟨hn, htables, role', fs, hlen, h', ho'⟩ :=
    h₂.loop_ok ht hout _ _ role₂ [] hexact hloop
  rw [hc₂] at hn
  rw [List.length_nil] at htables hlen
  rw [Nat.zero_add] at hlen
  exact ⟨rfl, hn, by rw [jobPages]; omega, role', fs, hlen, h', ho₂.trans ho'⟩

/-- What an address space looks like from outside, for a job with the given `allocated_size`. -/
structure JobIsolation (m : Mem) (jobs : List (PagingManager × Int)) : Prop where
  /-- EL0 reaches exactly the job's own pages. -/
  accessible : ∀ j ∈ jobs, ∀ va : Nat, (∃ tr, translate m j.1.l1 va = some tr ∧ tr.ap1 = true) ↔
    jobBaseUser ≤ va ∧ (va : Int) < jobBaseUser + j.2
  /-- The kernel is mapped one to one, out of reach of EL0. -/
  kernel : ∀ j ∈ jobs, ∀ va, va < 0x80000000 → translate m j.1.l1 va = some ⟨va, false, false⟩
  /-- User pages are backed by the user zone. -/
  inside : ∀ j ∈ jobs, ∀ va tr, translate m j.1.l1 va = some tr → tr.ap1 = true →
    0x80000000 ≤ tr.pa ∧ tr.pa < 0x81000000
  /-- Two user pages on one frame are the same page of the same job. -/
  distinct : ∀ (a b : Nat) i j, jobs[a]? = some i → jobs[b]? = some j → ∀ va va' tr tr',
    translate m i.1.l1 va = some tr → tr.ap1 = true →
    translate m j.1.l1 va' = some tr' → tr'.ap1 = true →
    tr.pa / 0x1000 = tr'.pa / 0x1000 → a = b ∧ va / 0x1000 = va' / 0x1000

/-- Kernel addresses translate to themselves. -/
theorem JobSpace.translate_kernel (h : JobSpace m pm fs) {va : Nat} (hva : va < 0x80000000) :
    translate m pm.l1 va = some ⟨va, false, false⟩ := by
  rw [translate, if_pos (by omega), h.kernel va hva, Option.map_some, kernelBlockEntry,
    leafTranslation_blockEntry, BitVec.toNat_ofNat]
  congr 2
  omega

/-- The pages of a job, one by one. -/
theorem JobSpace.translate_page (h : JobSpace m pm fs) (hfs : ∀ k ∈ fs, k < 0x1000)
    (hlen : fs.length ≤ 0x1000) {va i k : Nat} (hi : fs[i]? = some k)
    (hpage : va / 0x1000 = 0x80000 + i) :
    translate m pm.l1 va = some ⟨0x80000000 + 0x1000 * k + va % 0x1000, true, false⟩ := by
  have hil : i < fs.length := (List.getElem?_eq_some_iff.mp hi).1
  have hk := hfs k (List.mem_of_getElem? hi)
  have hva : va < 2 ^ 39 := by omega
  have hleaf : leaf m pm.l1 va = some (0, userPageEntry k) := by
    rw [← h.pages i k hi, leaf, leaf, (vaPath_eq_iff (v := jobBaseUser + 0x1000 * i)
      (by rw [jobBaseUser]; omega) hva).mpr (by rw [jobBaseUser]; omega)]
  rw [translate, if_pos hva, hleaf, Option.map_some, userPageEntry, leafTranslation_pageEntry,
    userSpace_slotAddr, BitVec.toNat_ofNat]
  congr 2
  omega

/-- Above the last page nothing is mapped. -/
theorem JobSpace.translate_rest (h : JobSpace m pm fs) {va : Nat}
    (hva : jobBaseUser + 0x1000 * fs.length ≤ va) : translate m pm.l1 va = none := by
  rw [translate]
  split
  · rename_i h39
    rw [h.rest va hva h39]
    rfl
  · rfl

/-- From `JOB_BASE_USER` on there are the job's own pages only. -/
theorem JobSpace.translate_above (h : JobSpace m pm fs) (hfs : ∀ k ∈ fs, k < 0x1000)
    (hlen : fs.length ≤ 0x1000) {va : Nat} {tr : Translation} (hva : jobBaseUser ≤ va)
    (htr : translate m pm.l1 va = some tr) :
    ∃ i k, fs[i]? = some k ∧ va / 0x1000 = 0x80000 + i ∧
      tr = ⟨0x80000000 + 0x1000 * k + va % 0x1000, true, false⟩ := by
  by_cases hin : va < jobBaseUser + 0x1000 * fs.length
  · rw [jobBaseUser] at hin hva
    have hil : va / 0x1000 - 0x80000 < fs.length := by omega
    have hget := List.getElem?_eq_getElem hil
    have hpage : va / 0x1000 = 0x80000 + (va / 0x1000 - 0x80000) := by omega
    rw [h.translate_page hfs hlen hget hpage] at htr
    exact ⟨_, _, hget, hpage, (Option.some.inj htr).symm⟩
  · rw [h.translate_rest (by omega)] at htr
    cases htr

/-- The translations that EL0 may use are those of the job's own pages. -/
theorem JobSpace.user_iff (h : JobSpace m pm fs) (hfs : ∀ k ∈ fs, k < 0x1000)
    (hlen : fs.length ≤ 0x1000) (va : Nat) (tr : Translation) :
    (translate m pm.l1 va = some tr ∧ tr.ap1 = true) ↔
      ∃ i k, fs[i]? = some k ∧ va / 0x1000 = 0x80000 + i ∧
        tr = ⟨0x80000000 + 0x1000 * k + va % 0x1000, true, false⟩ := by
  constructor
  · rintro ⟨htr, hap⟩
    by_cases hlow : va < 0x80000000
    · rw [h.translate_kernel hlow] at htr
      rw [← Option.some.inj htr] at hap
      exact absurd hap Bool.false_ne_true
    · exact h.translate_above hfs hlen (Nat.le_of_not_lt hlow) htr
  · rintro ⟨i, k, hi, hpage, rfl⟩
    exact ⟨h.translate_page hfs hlen hi hpage, rfl⟩

/-- A value that occurs in the lists of two positions of a duplicate-free concatenation occurs in
    one position only. -/
theorem index_eq_of_mem_flatMap {α β : Type} {l : List α} {f : α → List β}
    (h : (l.flatMap f).Nodup) {a b : Nat} {x y : α} {v : β} (ha : l[a]? = some x)
    (hb : l[b]? = some y) (hx : v ∈ f x) (hy : v ∈ f y) : a = b := by
  obtain ⟨hal, rfl⟩ := List.getElem?_eq_some_iff.mp ha
  obtain ⟨hbl, rfl⟩ := List.getElem?_eq_some_iff.mp hb
  have hpair := List.pairwise_iff_getElem.mp (List.nodup_flatMap.mp h).2
  rcases Nat.lt_trichotomy a b with hlt | heq | hgt
  · exact absurd hy ((hpair a b hal hbl hlt) hx)
  · exact heq
  · exact absurd hx ((hpair b a hbl hal hgt) hy)

/-- The jobs as the callers see them: a manager and its `allocated_size`. -/
def jobView (jobs : List (PagingManager × List Nat)) : List (PagingManager × Int) :=
  jobs.map fun j => (j.1, 0x1000 * (j.2.length : Int))

/-- The invariant gives isolation. -/
theorem JobsInv.isolation (h : JobsInv tables m role jobs) : JobIsolation m (jobView jobs) := by
  have hmem : ∀ j ∈ jobs, ∀ k ∈ j.2, k < 0x1000 := fun j hj => h.frame_lt hj
  have hlen : ∀ j ∈ jobs, j.2.length ≤ 0x1000 := fun j hj => h.length_le hj
  have huser : ∀ j ∈ jobs, ∀ va tr, _ ↔ _ := fun j hj va tr =>
    (h.spaces j hj).user_iff (hmem j hj) (hlen j hj) va tr
  have hview : ∀ v ∈ jobView jobs, ∃ j ∈ jobs, v = (j.1, 0x1000 * (j.2.length : Int)) := by
    intro v hv
    obtain ⟨j, hj, rfl⟩ := List.mem_map.mp hv
    exact ⟨j, hj, rfl⟩
  refine ⟨?_, ?_, ?_, ?_⟩
  · intro v hv va
    obtain ⟨j, hj, rfl⟩ := hview v hv
    constructor
    · rintro ⟨tr, htr⟩
      obtain ⟨i, k, hi, hpage, -⟩ := (huser j hj va tr).mp htr
      have hil : i < j.2.length := (List.getElem?_eq_some_iff.mp hi).1
      simp only [jobBaseUser]
      omega
    · rintro ⟨h1, h2⟩
      simp only [jobBaseUser] at h1 h2
      have hil : va / 0x1000 - 0x80000 < j.2.length := by omega
      exact ⟨_, (huser j hj va _).mpr ⟨_, _, List.getElem?_eq_getElem hil, by omega, rfl⟩⟩
  · intro v hv va hva
    obtain ⟨j, hj, rfl⟩ := hview v hv
    exact (h.spaces j hj).translate_kernel hva
  · intro v hv va tr htr hap
    obtain ⟨j, hj, rfl⟩ := hview v hv
    obtain ⟨i, k, hi, -, rfl⟩ := (huser j hj va tr).mp ⟨htr, hap⟩
    have hk := hmem j hj k (List.mem_of_getElem? hi)
    simp only
    omega
  · intro a b v w hv hw va va' tr tr' htr hap htr' hap' hframe
    obtain ⟨i, hi, rfl⟩ := Option.map_eq_some_iff.mp (List.getElem?_map ▸ hv)
    obtain ⟨j, hj, rfl⟩ := Option.map_eq_some_iff.mp (List.getElem?_map ▸ hw)
    obtain ⟨x, k, hx, hpage, rfl⟩ :=
      (huser i (List.mem_of_getElem? hi) va tr).mp ⟨htr, hap⟩
    obtain ⟨y, k', hy, hpage', rfl⟩ :=
      (huser j (List.mem_of_getElem? hj) va' tr').mp ⟨htr', hap'⟩
    simp only at hframe
    obtain rfl : k = k' := by omega
    obtain rfl : a = b := index_eq_of_mem_flatMap h.frames hi hj (List.mem_of_getElem? hx)
      (List.mem_of_getElem? hy)
    obtain rfl : i = j := Option.some.inj (hi.symm.trans hj)
    have hnd : i.2.Nodup := (List.nodup_flatMap.mp h.frames).1 i (List.mem_of_getElem? hi)
    have hxy : x = y := by
      refine (List.getElem?_inj (List.getElem?_eq_some_iff.mp hx).1 hnd).mp (hx.trans hy.symm)
    exact ⟨rfl, by omega⟩

/-- In every reachable state the jobs satisfy the invariant. -/
theorem jobPagingMachine_inv (ht : TableSlab tables) (hout : OutsideUserZone tables)
    {st : JobPagingState} (hr : (jobPagingMachine tables).Reach st) :
    ∃ role jobs, JobsInv tables st.mem role jobs ∧ st.jobs = jobView jobs := by
  refine hr.invariant (I := fun st => ∃ role jobs, JobsInv tables st.mem role jobs ∧
    st.jobs = jobView jobs) ?_ ?_
  · rintro st ⟨h0, -⟩
    exact ⟨fun _ => none, [], JobsInv.empty tables st.mem, h0⟩
  · rintro ⟨m, js⟩ e ⟨m', js'⟩ ⟨role, jobs, hi, hjs⟩ hstep
    cases e with
    | create size =>
      obtain ⟨hfit, pm, alloc, hcall, hjobs⟩ := hstep
      obtain ⟨pm', m₁, role', fs, hres, -, h', -⟩ := jobCreatePaging_spec ht hout hi hfit
      obtain ⟨rfl, hrest⟩ := Prod.mk.inj (Except.ok.inj (hres.symm.trans hcall))
      obtain ⟨rfl, rfl⟩ := Prod.mk.inj hrest
      refine ⟨role', (pm', fs) :: jobs, h', ?_⟩
      rw [show js' = _ from hjobs, show js = _ from hjs]
      rfl
    | other =>
      obtain ⟨hmem, hjobs⟩ := hstep
      refine ⟨role, jobs, hi.memory ht (fun x hx => hmem x (Or.inl hx)) ?_, ?_⟩
      · intro k hk hused
        rw [← hused]
        exact userSpace_used_congr hk (fun x h1 h2 => hmem x (Or.inr ⟨h1, h2⟩))
      · rw [show js' = js from hjobs]
        exact hjs

/-- **Isolation of jobs.**  After any run of `job_create_paging` calls whose frames and tables
    fit, every address space is isolated; and every further call that fits returns. -/
theorem job_paging_isolation {tables : Slab} (ht : TableSlab tables)
    (hout : OutsideUserZone tables) {st : JobPagingState}
    (hr : (jobPagingMachine tables).Reach st) :
    JobIsolation st.mem st.jobs ∧ ∀ size, JobFits tables size st.mem →
      ∃ pm m', jobCreatePaging userSpace tables size st.mem
        = .ok (pm, 0x1000 * (jobPages size : Int), m') := by
  obtain ⟨role, jobs, hi, hjs⟩ := jobPagingMachine_inv ht hout hr
  constructor
  · rw [hjs]
    exact hi.isolation
  · intro size hfit
    obtain ⟨pm, m', role', fs, hres, hlen, -⟩ := jobCreatePaging_spec ht hout hi hfit
    rw [hlen] at hres
    exact ⟨pm, m', hres⟩

/-- The table slab of the kernel, 4096 tables in its heap. -/
def kernelTables : Slab := ⟨0x40200000, 0x1000, 4096, 4096⟩

/-- It is a slab of tables, .. -/
theorem kernelTables_tableSlab : TableSlab kernelTables :=
  ⟨⟨by decide, by decide, by decide, by decide, by decide⟩, rfl, rfl, by decide⟩

/-- .. and it is not in the user zone. -/
theorem kernelTables_outside : OutsideUserZone kernelTables := by
  intro x hx
  have h2 : x < 0x40200000 + (4096 + 4096 * 0x1000) := hx.2
  omega

/-- Isolation holds after a job of 5000 bytes and one of 9000 bytes were given their address
    spaces in cleared memory.  The second call finds what the first one left: at least 4093 frames
    and 4093 tables. -/
theorem job_paging_isolation_second : ∃ st, (jobPagingMachine kernelTables).Reach st ∧
    st.jobs.map (·.2) = [0x4000, 0x3000] ∧ JobIsolation st.mem st.jobs ∧
    ∀ size, JobFits kernelTables size st.mem → ∃ pm m',
      jobCreatePaging userSpace kernelTables size st.mem
        = .ok (pm, 0x1000 * (jobPages size : Int), m') := by
  have hclear : (jobInitUserSpace 0x1000 fun _ => 0).2 = fun _ => 0 := by
    have hp : (jobInitUserSpace 0x1000 fun _ => 0).1.Placed :=
      jobInitUserSpace_fst (fun _ => 0) ▸ userSpace_placed
    funext x
    rw [jobInitUserSpace, slabCreate_mem (fun _ => 0) hp x]
    exact ite_self 0
  have hstart : (jobPagingMachine kernelTables).Reach ⟨fun _ => 0, []⟩ :=
    .start ⟨rfl, fun _ => 0, hclear.symm⟩
  have hframes : userSpace.freeSlots (fun _ => 0) = 0x1000 :=
    userSpace.freeSlots_of_clear fun k _ => by simp [Slab.used, bitAt]
  have htables : kernelTables.freeSlots (fun _ => 0) = 0x1000 :=
    kernelTables.freeSlots_of_clear fun k _ => by simp [Slab.used, bitAt]
  have hfew : jobPages 5000 = 3 ∧ jobTables 3 = 3 ∧ jobPages 9000 = 4 ∧ jobTables 4 = 3 := by
    decide
  have hfit : JobFits kernelTables 5000 (fun _ => 0) := by
    refine ⟨by decide, ?_, ?_⟩
    · rw [hframes]; decide
    · rw [htables]; decide
  obtain ⟨role, jobs, hi, -⟩ :=
    jobPagingMachine_inv kernelTables_tableSlab kernelTables_outside hstart
  obtain ⟨pm, m, role', fs, hcall, hlen, hi', -, hleft, htleft⟩ :=
    jobCreatePaging_spec kernelTables_tableSlab kernelTables_outside hi hfit
  have hstep : (jobPagingMachine kernelTables).step ⟨fun _ => 0, []⟩ (.create 5000)
      ⟨m, [(pm, _)]⟩ := ⟨hfit, pm, _, hcall, rfl⟩
  rw [show userSpace.freeSlots (fun _ => 0) = _ from hframes, hfew.1] at hleft
  rw [show kernelTables.freeSlots (fun _ => 0) = _ from htables, hfew.1] at htleft
  have hfit' : JobFits kernelTables 9000 m := by
    refine ⟨by decide, ?_, ?_⟩
    · omega
    · rw [hfew.2.2.1]
      omega
  obtain ⟨pm', m', role'', fs', hcall', hlen', -⟩ :=
    jobCreatePaging_spec kernelTables_tableSlab kernelTables_outside hi' hfit'
  have hstep' : (jobPagingMachine kernelTables).step ⟨m, [(pm, 0x1000 * (fs.length : Int))]⟩
      (.create 9000)
      ⟨m', [(pm', _), (pm, _)]⟩ := ⟨hfit', pm', _, hcall', rfl⟩
  have hreach := (hstart.step hstep).step hstep'
  refine ⟨_, hreach, ?_,
    job_paging_isolation kernelTables_tableSlab kernelTables_outside hreach⟩
  simp only [List.map_cons, List.map_nil]
  rw [hlen, hlen', hfew.1, hfew.2.2.1]
  rfl

end TinyKernel
