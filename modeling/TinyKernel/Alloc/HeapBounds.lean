/-
  The table entries that `heap_alloc` touches.

  `heapAllocLogged` is `heap_alloc` once more, with the list of the entries that it and
  `mark_region_taken` read or write; its result is the one of `heapAlloc`
  (`heapAllocLogged_fst`).

  The two scanning loops test their cursor in different orders.  The loop over free entries compares
  it with `last_block` first.  The loop over TAKEN entries reads the entry first, so it reads one
  entry too many exactly if it reaches `last_block`, which is if the search fails while the last
  block is TAKEN (`heapSearchLogged_inside`).
-/
import TinyKernel.Alloc.Heap

namespace TinyKernel

/-! ## The source, with a list of the entries -/

/-- `while (*block & TAKEN && block < last_block) block++`: the block where it stops and the entries
    it reads. -/
def skipTakenLogged (m : Mem) : Nat → Nat → Nat × List Nat
  -- `*block` is read before the comparison with `last_block` fails
  | 0, block => (block, [block])
  | n + 1, block =>
    if Taken (m block) then
      let (stop, log) := skipTakenLogged m n (block + 1)
      (stop, block :: log)
    else (block, [block])

/-- `while (blocks_found < alloc_blocks && block < last_block && !(*block & TAKEN))`. -/
def countFreeLogged (m : Mem) (wanted : Nat) : Nat → Nat → Nat → (Nat × Nat) × List Nat
  | 0, block, found => ((block, found), [])
  | n + 1, block, found =>
    if found < wanted then
      if ¬ Taken (m block) then
        let (stop, log) := countFreeLogged m wanted n (block + 1) (found + 1)
        (stop, block :: log)
      else ((block, found), [block])
    else ((block, found), [])

/-- The outer loop of `heap_alloc`. -/
def heapSearchLogged (m : Mem) (lastBlock wanted : Nat) :
    Nat → Nat → Option (Nat × Nat) × List Nat
  | 0, _ => (none, [])
  | rounds + 1, block =>
    if block < lastBlock then
      let (start, skipped) := skipTakenLogged m (lastBlock - block) block
      if start = lastBlock then (none, skipped)
      else
        let ((block, blocksFound), counted) :=
          countFreeLogged m wanted (lastBlock - start) start 0
        if blocksFound = wanted then (some (start, block), skipped ++ counted)
        else if block = lastBlock then (none, skipped ++ counted)
        else
          let (found, log) := heapSearchLogged m lastBlock wanted rounds block
          (found, skipped ++ counted ++ log)
    else (none, [])

/-- The loop of `mark_region_taken`. -/
def markTakenLoopLogged : Nat → Nat → Mem → Mem × List Nat
  | 0, _, m => (m, [])
  | n + 1, block, m =>
    let (m, log) :=
      markTakenLoopLogged n (block + 1) (Function.update m block (m block ||| heapBlockTaken))
    (m, block :: log)

/-- `mark_region_taken(from, to)`. -/
def markRegionTakenLogged (m : Mem) (first last : Nat) : Mem × List Nat :=
  let m := Function.update m first (m first ||| heapBlockFirst)
  let m := Function.update m last (m last ||| heapBlockLast)
  let (m, log) := markTakenLoopLogged (last + 1 - first) first m
  (m, first :: last :: log)

/-- `heap_alloc`: its result, and the entries that were read or written. -/
def heapAllocLogged (h : Heap) (m : Mem) (size : Nat) : (Nat × Heap × Mem) × List Nat :=
  if size = 0 then ((0, h, m), [])
  else
    match heapSearchLogged m (h.heap + h.blocks) (allocBlocks size) (h.blocks + 1) h.heap with
    | (none, log) => ((0, h, m), log)
    | (some (start, block), log) =>
      let (m, marked) := markRegionTakenLogged m start (block - 1)
      ((toSize (h.heapStartAddress + toInt32 (toInt32 (start - h.heap : Nat) * 4096)),
        h.setFreeBlocks (toSize ((h.freeBlocks : Int) - allocBlocks size)), m), log ++ marked)

/-! ## The list does not disturb the allocation -/

theorem skipTakenLogged_fst (m : Mem) : ∀ (n block : Nat),
    (skipTakenLogged m n block).1 = skipTaken m n block := by
  intro n
  induction n with
  | zero =>
    intro block
    rfl
  | succ n ih =>
    intro block
    rw [skipTakenLogged, skipTaken]
    by_cases htaken : Taken (m block)
    · rw [if_pos htaken, if_pos htaken]
      exact ih (block + 1)
    · rw [if_neg htaken, if_neg htaken]

theorem countFreeLogged_fst (m : Mem) (wanted : Nat) : ∀ (n block found : Nat),
    (countFreeLogged m wanted n block found).1 = countFree m wanted n block found := by
  intro n
  induction n with
  | zero =>
    intro block found
    rfl
  | succ n ih =>
    intro block found
    rw [countFreeLogged, countFree]
    by_cases hmore : found < wanted
    · by_cases hfree : ¬ Taken (m block)
      · rw [if_pos hmore, if_pos hfree, if_pos ⟨hmore, hfree⟩]
        exact ih (block + 1) (found + 1)
      · rw [if_pos hmore, if_neg hfree, if_neg (fun h => hfree h.2)]
    · rw [if_neg hmore, if_neg (fun h => hmore h.1)]

theorem heapSearchLogged_fst (m : Mem) (lastBlock wanted : Nat) : ∀ (rounds block : Nat),
    (heapSearchLogged m lastBlock wanted rounds block).1
      = heapSearch m lastBlock wanted rounds block := by
  intro rounds
  induction rounds with
  | zero =>
    intro block
    rfl
  | succ rounds ih =>
    intro block
    rw [heapSearchLogged, heapSearch]
    simp only [← skipTakenLogged_fst, ← countFreeLogged_fst, ← ih]
    split
    · split
      · rfl
      · split
        · rfl
        · split <;> rfl
    · rfl

theorem markTakenLoopLogged_eq : ∀ (n block : Nat) (m : Mem),
    markTakenLoopLogged n block m = (markTakenLoop n block m, List.range' block n) := by
  intro n
  induction n with
  | zero =>
    intro block m
    rfl
  | succ n ih =>
    intro block m
    rw [markTakenLoopLogged, ih]
    rfl

/-- The list of entries does not disturb the allocation. -/
theorem heapAllocLogged_fst (h : Heap) (m : Mem) (size : Nat) :
    (heapAllocLogged h m size).1 = heapAlloc h m size := by
  unfold heapAllocLogged heapAlloc
  by_cases hsize : size = 0
  · rw [if_pos hsize, if_pos hsize]
  · rw [if_neg hsize, if_neg hsize, ← heapSearchLogged_fst]
    generalize heapSearchLogged m (h.heap + h.blocks) (allocBlocks size) (h.blocks + 1) h.heap
      = found
    obtain ⟨_ | ⟨start, block⟩, log⟩ := found
    · rfl
    · simp only [markRegionTakenLogged, markTakenLoopLogged_eq, markRegionTaken]

/-! ## The entries -/

/-- The loop over TAKEN entries reads every entry up to the one where it stops. -/
theorem skipTakenLogged_snd (m : Mem) : ∀ (n block : Nat),
    (skipTakenLogged m n block).2 = List.range' block (skipTaken m n block + 1 - block) := by
  intro n
  induction n with
  | zero =>
    intro block
    rw [skipTaken, Nat.add_sub_cancel_left]
    rfl
  | succ n ih =>
    intro block
    rw [skipTakenLogged, skipTaken]
    by_cases htaken : Taken (m block)
    · obtain ⟨hstop, -, -⟩ := skipTaken_spec m n (block + 1)
      rw [if_pos htaken, if_pos htaken,
        show skipTaken m n (block + 1) + 1 - block
          = skipTaken m n (block + 1) + 1 - (block + 1) + 1 by omega, List.range'_succ]
      exact congrArg (block :: ·) (ih (block + 1))
    · rw [if_neg htaken, if_neg htaken, Nat.add_sub_cancel_left]
      rfl

/-- The loop over free entries reads none behind the last one. -/
theorem countFreeLogged_inside (m : Mem) (wanted : Nat) : ∀ (n block found x : Nat),
    x ∈ (countFreeLogged m wanted n block found).2 → block ≤ x ∧ x < block + n := by
  intro n
  induction n with
  | zero =>
    intro block found x hx
    cases hx
  | succ n ih =>
    intro block found x hx
    rw [countFreeLogged] at hx
    split at hx
    · split at hx
      · rcases List.mem_cons.mp hx with rfl | hx
        · omega
        · have := ih (block + 1) (found + 1) x hx
          omega
      · rw [List.mem_singleton] at hx
        omega
    · cases hx

/-- **The search stays inside the table** exactly if it finds a region, or the last block is not
    TAKEN. -/
theorem heapSearchLogged_inside {m : Mem} {table lastBlock wanted : Nat} :
    ∀ {rounds block : Nat}, table ≤ block → block < lastBlock → lastBlock - block < rounds →
    ((∀ x ∈ (heapSearchLogged m lastBlock wanted rounds block).2, table ≤ x ∧ x < lastBlock) ↔
      (heapSearch m lastBlock wanted rounds block).isSome ∨ ¬ Taken (m (lastBlock - 1))) := by
  intro rounds
  induction rounds with
  | zero =>
    intro block _ _ hrounds
    omega
  | succ rounds ih =>
    intro block htable hblock hrounds
    obtain ⟨hs1, hs2, hs3⟩ := skipTaken_spec m (lastBlock - block) block
    have hskip := skipTaken_taken m (lastBlock - block) block
    rw [heapSearchLogged, heapSearch, if_pos hblock, if_pos hblock]
    simp only [skipTakenLogged_fst, skipTakenLogged_snd, countFreeLogged_fst]
    generalize skipTaken m (lastBlock - block) block = s at *
    by_cases hend : s = lastBlock
    · -- all entries from here on are TAKEN, and `*last_block` is read
      rw [if_pos hend, if_pos hend]
      constructor
      · intro hall
        have := (hall lastBlock (List.mem_range'_1.mpr (by omega))).2
        omega
      · rintro (hfound | hfree)
        · cases hfound
        · exact absurd (hskip (lastBlock - 1) (by omega) (by omega)) hfree
    · have hinside : ∀ x ∈ List.range' block (s + 1 - block) ++
          (countFreeLogged m wanted (lastBlock - s) s 0).2, table ≤ x ∧ x < lastBlock := by
        intro x hx
        rcases List.mem_append.mp hx with hx | hx
        · rw [List.mem_range'_1] at hx
          omega
        · have := countFreeLogged_inside m wanted _ _ _ x hx
          omega
      obtain ⟨k, hk, heq, -, hfree, hstop⟩ :=
        countFree_spec m wanted (lastBlock - s) s 0 (Nat.zero_le _)
      rw [if_neg hend, if_neg hend]
      simp only [heq, Nat.zero_add]
      rw [Nat.zero_add] at hstop
      by_cases hfound : k = wanted
      · rw [if_pos hfound, if_pos hfound]
        exact iff_of_true hinside (Or.inl rfl)
      · rw [if_neg hfound, if_neg hfound]
        by_cases hlast : s + k = lastBlock
        · -- the count ran over free entries to the end of the table
          rw [if_pos hlast, if_pos hlast]
          refine iff_of_true hinside (Or.inr ?_)
          have := hfree (k - 1) (by omega)
          rwa [show s + (k - 1) = lastBlock - 1 by omega] at this
        · have hpos : 0 < k := by
            rcases Nat.eq_zero_or_pos k with rfl | hpos
            · have htaken := hstop.resolve_left (by omega) |>.resolve_left hfound
              exact absurd htaken (hs3 (by omega))
            · exact hpos
          rw [if_neg hlast, if_neg hlast, ← ih (by omega) (by omega) (by omega)]
          constructor
          · exact fun hall x hx => hall x (List.mem_append_right _ hx)
          · intro hrest x hx
            rcases List.mem_append.mp hx with hx | hx
            · exact hinside x hx
            · exact hrest x hx

/-- The entries of a region are all that marking it touches. -/
theorem markRegionTakenLogged_inside {m : Mem} {first last x : Nat} (hle : first ≤ last)
    (hx : x ∈ (markRegionTakenLogged m first last).2) : first ≤ x ∧ x ≤ last := by
  simp only [markRegionTakenLogged, markTakenLoopLogged_eq, List.mem_cons,
    List.mem_range'_1] at hx
  omega

/-- Every entry is one of the table. -/
def EntriesInside (h : Heap) (log : List Nat) : Prop :=
  ∀ x ∈ log, h.heap ≤ x ∧ x < h.heap + h.blocks

/-- The table has a run of free blocks of this length. -/
def HasFreeRun (h : Heap) (m : Mem) (blocks : Nat) : Prop :=
  ∃ i, h.heap ≤ i ∧ i + blocks ≤ h.heap + h.blocks ∧ FreeRun m i blocks

/-- The search finds a region exactly if there is one. -/
theorem heapSearch_isSome_iff {h : Heap} {m : Mem} {wanted : Nat} (hw : 0 < wanted) :
    (heapSearch m (h.heap + h.blocks) wanted (h.blocks + 1) h.heap).isSome ↔
      HasFreeRun h m wanted := by
  constructor
  · intro hfound
    obtain ⟨⟨start, stop⟩, heq⟩ := Option.isSome_iff_exists.mp hfound
    obtain ⟨hstart, -, hend, hfree⟩ := heapSearch_some heq
    exact ⟨start, hstart, hend, hfree⟩
  · rintro ⟨i, hi, hend, hfree⟩
    obtain ⟨start, heq, -⟩ := heapSearch_first hw hend hfree (h.blocks + 1) hi (by omega)
    rw [heq]
    rfl

/-- **`heap_alloc` stays inside its table** exactly if it has nothing to search for or nowhere to
    search, the last block is not TAKEN, or there is a free run that is long enough.  The search
    tests the entry before it tests the pointer, so behind a last block that is TAKEN it reads the
    byte after the table. -/
theorem heap_alloc_inside_iff (h : Heap) (m : Mem) (size : Nat) :
    EntriesInside h (heapAllocLogged h m size).2 ↔
      size = 0 ∨ h.blocks = 0 ∨ ¬ Taken (m (h.heap + h.blocks - 1)) ∨
        HasFreeRun h m (allocBlocks size) := by
  by_cases hsize : size = 0
  · rw [heapAllocLogged, if_pos hsize]
    exact iff_of_true (fun x hx => absurd hx List.not_mem_nil) (Or.inl hsize)
  by_cases hblocks : h.blocks = 0
  · rw [heapAllocLogged, if_neg hsize, heapSearchLogged, if_neg (by omega)]
    exact iff_of_true (fun x hx => absurd hx List.not_mem_nil) (Or.inr (Or.inl hblocks))
  have hsearch := @heapSearchLogged_inside m h.heap (h.heap + h.blocks) (allocBlocks size)
    (h.blocks + 1) h.heap (Nat.le_refl _) (by omega) (by omega)
  have hfst := heapSearchLogged_fst m (h.heap + h.blocks) (allocBlocks size) (h.blocks + 1) h.heap
  have hpos := allocBlocks_pos hsize
  rw [heapSearch_isSome_iff hpos, or_comm] at hsearch
  rw [or_iff_right hsize, or_iff_right hblocks, ← hsearch, heapAllocLogged, if_neg hsize]
  generalize heapSearchLogged m (h.heap + h.blocks) (allocBlocks size) (h.blocks + 1) h.heap
    = found at *
  obtain ⟨_ | ⟨start, block⟩, log⟩ := found
  · exact Iff.rfl
  · -- marking the region that was found adds entries of the table only
    obtain ⟨hstart, hstop, hend, -⟩ := heapSearch_some hfst.symm
    constructor
    · exact fun hall x hx => hall x (List.mem_append_left _ hx)
    · intro hall x hx
      rcases List.mem_append.mp hx with hx | hx
      · exact hall x hx
      · have := markRegionTakenLogged_inside (by omega) hx
        omega

/-- A heap of one block, which is allocated. -/
def fullHeap : Heap := ⟨0x41000000, 0x40bff000, 1, 0⟩

/-- The table after the allocation of the only block. -/
def fullTable : Mem :=
  (heapAlloc ⟨0x41000000, 0x40bff000, 1, 1⟩ (fun _ => 0) 4096).2.2

/-- A second allocation reads entry 1 of the table of one. -/
theorem heap_alloc_reads_behind :
    (heapAlloc ⟨0x41000000, 0x40bff000, 1, 1⟩ (fun _ => 0) 4096).2.1 = fullHeap ∧
    (heapAllocLogged fullHeap fullTable 1).2 = [0x40bff000, 0x40bff001] ∧
    ¬ EntriesInside fullHeap (heapAllocLogged fullHeap fullTable 1).2 := by
  have hlog : (heapAllocLogged fullHeap fullTable 1).2 = [0x40bff000, 0x40bff001] := by
    decide +kernel
  refine ⟨by decide +kernel, hlog, fun hall => ?_⟩
  have hlast := (hall 0x40bff001 (by rw [hlog]; decide)).2
  exact absurd hlast (by decide)

end TinyKernel
