/-
  The kernel heap, `kernel/alloc/heap.c`.

  The heap hands out blocks of 4096 bytes.  Its only bookkeeping is a table of one byte per
  block: TAKEN marks an allocated block, FIRST and LAST the two ends of an allocated region.
  The extent of a region is therefore stored IMPLICITLY: `heap_free` is given a pointer, finds
  the block's entry and clears entries up to the first one marked LAST.

  `heap_table_t` is a pointer into byte memory, and the model keeps it one: the loops below
  walk addresses, and an access outside the table reads or writes whatever is there.  The three
  loops of `heap_alloc` recurse on the number of entries left before `last_block`.

  The second half proves what one call does, from two facts about the search: the region it
  returns lies inside the table and holds no TAKEN entry (`heapSearch_some`), and marking it is
  `markRegionTaken_apply`, byte by byte.
-/
import TinyKernel.Lib.Bytes
import TinyKernel.Lib.CInt

namespace TinyKernel

/-- `struct heap`: the first block's address, the table's address, the number of blocks and how
    many of them are free. -/
structure Heap where
  heapStartAddress : Nat
  heap : Nat
  blocks : Nat
  freeBlocks : Nat
  deriving Repr, DecidableEq

/-- The heap with `free_blocks` set. -/
def Heap.setFreeBlocks (h : Heap) (n : Nat) : Heap := { h with freeBlocks := n }

@[simp] theorem Heap.setFreeBlocks_start (h : Heap) (n : Nat) :
    (h.setFreeBlocks n).heapStartAddress = h.heapStartAddress := rfl
@[simp] theorem Heap.setFreeBlocks_heap (h : Heap) (n : Nat) :
    (h.setFreeBlocks n).heap = h.heap := rfl
@[simp] theorem Heap.setFreeBlocks_blocks (h : Heap) (n : Nat) :
    (h.setFreeBlocks n).blocks = h.blocks := rfl
@[simp] theorem Heap.setFreeBlocks_freeBlocks (h : Heap) (n : Nat) :
    (h.setFreeBlocks n).freeBlocks = n := rfl

/-- `HEAP_BLOCK_TAKEN`. -/
def heapBlockTaken : Byte := 0x80
/-- `HEAP_BLOCK_FIRST`. -/
def heapBlockFirst : Byte := 0x40
/-- `HEAP_BLOCK_LAST`. -/
def heapBlockLast : Byte := 0x20

/-- The table entry is marked TAKEN. -/
def Taken (b : Byte) : Prop := b &&& heapBlockTaken ≠ 0

instance (b : Byte) : Decidable (Taken b) := inferInstanceAs (Decidable (_ ≠ _))

/-! ## The source -/

/-- `alloc_blocks`: how many blocks `size` bytes need. -/
def allocBlocks (size : Nat) : Nat := size / 4096 + (if size % 4096 ≠ 0 then 1 else 0)

/-- `while (*block & TAKEN && block < last_block) block++`, with `n` entries before
    `last_block`. -/
def skipTaken (m : Mem) : Nat → Nat → Nat
  | 0, block => block
  | n + 1, block => if Taken (m block) then skipTaken m n (block + 1) else block

/-- `while (blocks_found < alloc_blocks && block < last_block && !(*block & TAKEN))`: the block
    where it stops and `blocks_found`. -/
def countFree (m : Mem) (wanted : Nat) : Nat → Nat → Nat → Nat × Nat
  | 0, block, found => (block, found)
  | n + 1, block, found =>
    if found < wanted ∧ ¬ Taken (m block) then countFree m wanted n (block + 1) (found + 1)
    else (block, found)

/-- The outer loop of `heap_alloc`: `start` and the block after the region, or `none` for the
    `goto err` exits.  Every round moves `block` forward, so `blocks` rounds are enough. -/
def heapSearch (m : Mem) (lastBlock wanted : Nat) : Nat → Nat → Option (Nat × Nat)
  | 0, _ => none
  | rounds + 1, block =>
    if block < lastBlock then
      let start := skipTaken m (lastBlock - block) block
      if start = lastBlock then none
      else
        let (block, blocksFound) := countFree m wanted (lastBlock - start) start 0
        if blocksFound = wanted then some (start, block)
        else if block = lastBlock then none
        else heapSearch m lastBlock wanted rounds block
    else none

/-- The loop of `mark_region_taken`, over the `n` entries from `block`. -/
def markTakenLoop : Nat → Nat → Mem → Mem
  | 0, _, m => m
  | n + 1, block, m =>
    markTakenLoop n (block + 1) (Function.update m block (m block ||| heapBlockTaken))

/-- `mark_region_taken(from, to)`. -/
def markRegionTaken (m : Mem) (first last : Nat) : Mem :=
  let m := Function.update m first (m first ||| heapBlockFirst)
  let m := Function.update m last (m last ||| heapBlockLast)
  markTakenLoop (last + 1 - first) first m

/-- `heap_alloc`: the address of the region (0 is `NULL`), the heap and the memory after it. -/
def heapAlloc (h : Heap) (m : Mem) (size : Nat) : Nat × Heap × Mem :=
  if size = 0 then (0, h, m)
  else
    match heapSearch m (h.heap + h.blocks) (allocBlocks size) (h.blocks + 1) h.heap with
    | none => (0, h, m)
    | some (start, block) =>
      (toSize (h.heapStartAddress + toInt32 (toInt32 (start - h.heap : Nat) * 4096)),
        h.setFreeBlocks (toSize ((h.freeBlocks : Int) - allocBlocks size)),
        markRegionTaken m start (block - 1))

/-- The loop of `mark_region_free`: clear entries up to the first one marked LAST, counting them.
    `room` is the number of addresses left, at which the walk would leave the address space. -/
def markFreeLoop : Nat → Nat → Nat → Mem → Nat × Mem
  | 0, _, freed, m => (freed, m)
  | room + 1, block, freed, m =>
    if m block &&& heapBlockLast = 0 then
      markFreeLoop room (block + 1) (freed + 1) (Function.update m block 0)
    else (freed, Function.update m block 0)

/-- `mark_region_free(from)`. -/
def markRegionFree (m : Mem) (block : Nat) : Nat × Mem :=
  markFreeLoop (18446744073709551616 - block) block 1 m

/-- `heap_free`. -/
def heapFree (h : Heap) (m : Mem) (ptr : Nat) : Heap × Mem :=
  let offset := toInt32 ((ptr : Int) - h.heapStartAddress)
  let start := toSize (h.heap + offset.tdiv 4096)
  if m start &&& heapBlockFirst = 0 then (h, m)
  else
    let (freed, m') := markRegionFree m start
    (h.setFreeBlocks (toSize (h.freeBlocks + toInt32 freed)), m')

/-- `heap_table_size`: the bytes `setup_heap` sets aside for the table
    (`sizeof(heap_table_t)` is the size of a pointer). -/
def heapTableSize (blocks : Nat) : Nat := toSize (blocks * 8 : Nat)

/-! ## The search -/

theorem allocBlocks_pos {size : Nat} (h : size ≠ 0) : 0 < allocBlocks size := by
  unfold allocBlocks
  split <;> omega

/-- `size` rounded up to whole blocks. -/
theorem allocBlocks_eq (size : Nat) : allocBlocks size = (size + 4095) / 4096 := by
  unfold allocBlocks
  split <;> omega

/-- Skipping stops at the first entry that is not TAKEN, or at `last_block`. -/
theorem skipTaken_spec (m : Mem) : ∀ (n block : Nat),
    block ≤ skipTaken m n block ∧ skipTaken m n block ≤ block + n ∧
      (skipTaken m n block < block + n → ¬ Taken (m (skipTaken m n block))) := by
  intro n
  induction n with
  | zero =>
    intro block
    rw [skipTaken]
    exact ⟨Nat.le_refl _, Nat.le_refl _, fun h => absurd h (by omega)⟩
  | succ n ih =>
    intro block
    rw [skipTaken]
    split
    · obtain ⟨h1, h2, h3⟩ := ih (block + 1)
      exact ⟨by omega, by omega, fun h => h3 (by omega)⟩
    · rename_i hfree
      exact ⟨Nat.le_refl _, by omega, fun _ => hfree⟩

/-- Counting moves over free entries only and stops where a condition of the loop fails. -/
theorem countFree_spec (m : Mem) (wanted : Nat) : ∀ (n block found : Nat), found ≤ wanted →
    ∃ k, k ≤ n ∧ countFree m wanted n block found = (block + k, found + k) ∧
      found + k ≤ wanted ∧ (∀ j, j < k → ¬ Taken (m (block + j))) ∧
      (k = n ∨ found + k = wanted ∨ Taken (m (block + k))) := by
  intro n
  induction n with
  | zero =>
    intro block found hle
    exact ⟨0, Nat.le_refl _, rfl, hle, fun j hj => absurd hj (by omega), Or.inl rfl⟩
  | succ n ih =>
    intro block found hle
    rw [countFree]
    by_cases hgo : found < wanted ∧ ¬ Taken (m block)
    · rw [if_pos hgo]
      obtain ⟨k, hk, heq, hw, hfree, hstop⟩ := ih (block + 1) (found + 1) (by omega)
      refine ⟨k + 1, by omega, ?_, by omega, ?_, ?_⟩
      · rw [heq, show block + 1 + k = block + (k + 1) by omega,
          show found + 1 + k = found + (k + 1) by omega]
      · intro j hj
        cases j with
        | zero => exact hgo.2
        | succ j =>
          have := hfree j (by omega)
          rwa [show block + 1 + j = block + (j + 1) by omega] at this
      · rcases hstop with h | h | h
        · exact Or.inl (by omega)
        · exact Or.inr (Or.inl (by omega))
        · rw [show block + 1 + k = block + (k + 1) by omega] at h
          exact Or.inr (Or.inr h)
    · rw [if_neg hgo]
      refine ⟨0, by omega, rfl, hle, fun j hj => absurd hj (by omega), Or.inr ?_⟩
      by_cases htaken : Taken (m block)
      · exact Or.inr htaken
      · exact Or.inl (by
          have : ¬ found < wanted := fun h => hgo ⟨h, htaken⟩
          omega)

/-- **The region the search returns** has the wanted length, lies between the entry the search
    started from and `last_block`, and holds no TAKEN entry. -/
theorem heapSearch_some {m : Mem} {lastBlock wanted : Nat} : ∀ {rounds block : Nat}
    {start stop : Nat}, heapSearch m lastBlock wanted rounds block = some (start, stop) →
      block ≤ start ∧ stop = start + wanted ∧ start + wanted ≤ lastBlock ∧
        ∀ j, j < wanted → ¬ Taken (m (start + j)) := by
  intro rounds
  induction rounds with
  | zero =>
    intro block start stop h
    simp [heapSearch] at h
  | succ rounds ih =>
    intro block start stop h
    rw [heapSearch] at h
    split at h
    · rename_i hlt
      obtain ⟨hs1, hs2, -⟩ := skipTaken_spec m (lastBlock - block) block
      generalize skipTaken m (lastBlock - block) block = s at h hs1 hs2
      simp only at h
      split at h
      · exact absurd h (by simp)
      · rename_i hsl
        obtain ⟨k, hk, heq, hw, hfree, -⟩ :=
          countFree_spec m wanted (lastBlock - s) s 0 (Nat.zero_le _)
        rw [heq] at h
        simp only [Nat.zero_add] at h hw
        split at h
        · rename_i hfound
          injection h with hpair
          injection hpair with h1 h2
          subst h1 h2 hfound
          exact ⟨hs1, rfl, by omega, hfree⟩
        · split at h
          · exact absurd h (by simp)
          · obtain ⟨i1, i2, i3, i4⟩ := ih h
            exact ⟨by omega, i2, i3, i4⟩
    · exact absurd h (by simp)

/-- `n` entries from `i` on that are not TAKEN. -/
def FreeRun (m : Mem) (i n : Nat) : Prop := ∀ j, j < n → ¬ Taken (m (i + j))

/-- The entries that skipping passes over are TAKEN. -/
theorem skipTaken_taken (m : Mem) : ∀ (n block x : Nat), block ≤ x → x < skipTaken m n block →
    Taken (m x) := by
  intro n
  induction n with
  | zero =>
    intro block x h1 h2
    rw [skipTaken] at h2
    omega
  | succ n ih =>
    intro block x h1 h2
    rw [skipTaken] at h2
    split at h2
    · rename_i htaken
      rcases Nat.eq_or_lt_of_le h1 with rfl | hlt
      · exact htaken
      · exact ih (block + 1) x hlt h2
    · omega

/-- **The search is first fit**: it finds a region whenever there is one, and none further down
    is free. -/
theorem heapSearch_first {m : Mem} {lastBlock wanted i : Nat} (hw : 0 < wanted)
    (hin : i + wanted ≤ lastBlock) (hfree : FreeRun m i wanted) : ∀ (rounds : Nat) {block : Nat},
    block ≤ i → lastBlock - block < rounds →
    ∃ start, heapSearch m lastBlock wanted rounds block = some (start, start + wanted) ∧
      start ≤ i := by
  intro rounds
  induction rounds with
  | zero =>
    intro block _ hr
    exact absurd hr (Nat.not_lt_zero _)
  | succ rounds ih =>
    intro block hle hr
    obtain ⟨hs1, hs2, hs3⟩ := skipTaken_spec m (lastBlock - block) block
    have htaken := skipTaken_taken m (lastBlock - block) block
    rw [heapSearch, if_pos (by omega)]
    generalize skipTaken m (lastBlock - block) block = s at *
    have hsi : s ≤ i := by
      by_contra hlt
      exact hfree 0 hw (htaken i hle (by omega))
    obtain ⟨k, hk, heq, hkw, -, hstop⟩ := countFree_spec m wanted (lastBlock - s) s 0 (Nat.zero_le _)
    simp only [Nat.zero_add] at heq hkw hstop
    simp only [heq]
    rw [if_neg (by omega)]
    rcases hstop with hend | hfound | hblocked
    · -- the count ran to the end of the table: the run from `i` ends no later
      have hkw' : k = wanted := by omega
      rw [if_pos hkw', hkw']
      exact ⟨s, rfl, hsi⟩
    · rw [if_pos hfound, hfound]
      exact ⟨s, rfl, hsi⟩
    · by_cases hkw' : k = wanted
      · rw [if_pos hkw', hkw']
        exact ⟨s, rfl, hsi⟩
      · -- the entry that stopped the count is not part of the run from `i`
        have hpast : s + k < i := by
          by_contra hge
          refine hfree (s + k - i) (by omega) ?_
          rwa [show i + (s + k - i) = s + k by omega]
        have hmoved : 0 < k := by
          rcases Nat.eq_zero_or_pos k with rfl | hpos
          · exact absurd hblocked (hs3 (by omega))
          · exact hpos
        rw [if_neg hkw', if_neg (by omega)]
        exact ih (by omega) (by omega)

/-! ## Marking and clearing a region -/

/-- The tag of entry `j` of the region of `len` blocks from entry `start`. -/
def regionTag (start len j : Nat) : Byte :=
  heapBlockTaken ||| (if j = start then heapBlockFirst else 0#8)
    ||| (if j + 1 = start + len then heapBlockLast else 0#8)

theorem taken_regionTag (start len j : Nat) : Taken (regionTag start len j) := by
  unfold Taken regionTag
  split <;> split <;> decide

theorem not_taken_zero : ¬ Taken 0 := by decide

theorem regionTag_first (start len : Nat) : regionTag start len start &&& heapBlockFirst ≠ 0 := by
  unfold regionTag
  rw [if_pos rfl]
  split <;> decide

theorem regionTag_last_eq_zero (start len : Nat) {j : Nat} (h : j + 1 ≠ start + len) :
    regionTag start len j &&& heapBlockLast = 0 := by
  unfold regionTag
  rw [if_neg h]
  split <;> decide

theorem regionTag_last_ne_zero (start len : Nat) {j : Nat} (h : j + 1 = start + len) :
    regionTag start len j &&& heapBlockLast ≠ 0 := by
  unfold regionTag
  rw [if_pos h]
  split <;> decide

theorem markTakenLoop_apply : ∀ (n block : Nat) (m : Mem) (x : Nat),
    markTakenLoop n block m x
      = if block ≤ x ∧ x < block + n then m x ||| heapBlockTaken else m x := by
  intro n
  induction n with
  | zero =>
    intro block m x
    rw [markTakenLoop, if_neg (by omega)]
  | succ n ih =>
    intro block m x
    rw [markTakenLoop, ih (block + 1)]
    by_cases hx : x = block
    · subst hx
      rw [if_neg (by omega), if_pos (by omega), Function.update_self]
    · rw [Function.update_of_ne hx]
      by_cases hin : block + 1 ≤ x ∧ x < block + 1 + n
      · rw [if_pos hin, if_pos (by omega)]
      · rw [if_neg hin, if_neg (by omega)]

/-- `mark_region_taken` or-s the flags of the region into its entries and touches no other. -/
theorem markRegionTaken_apply (m : Mem) {first len : Nat} (hlen : 0 < len) (x : Nat) :
    markRegionTaken m first (first + len - 1) x
      = if first ≤ x ∧ x < first + len then m x ||| regionTag first len x else m x := by
  simp only [markRegionTaken]
  rw [markTakenLoop_apply, show first + (first + len - 1 + 1 - first) = first + len by omega]
  by_cases hin : first ≤ x ∧ x < first + len
  · rw [if_pos hin, if_pos hin]
    unfold regionTag
    by_cases hl : x = first + len - 1
    · subst hl
      rw [Function.update_self, if_pos (show first + len - 1 + 1 = first + len by omega)]
      by_cases hf : first + len - 1 = first
      · rw [hf, Function.update_self, if_pos rfl]
        ac_rfl
      · rw [Function.update_of_ne hf, if_neg hf, BitVec.or_zero]
        ac_rfl
    · rw [Function.update_of_ne hl, if_neg (show ¬ x + 1 = first + len by omega), BitVec.or_zero]
      by_cases hf : x = first
      · subst hf
        rw [Function.update_self, if_pos rfl]
        ac_rfl
      · rw [Function.update_of_ne hf, if_neg hf, BitVec.or_zero]
  · rw [if_neg hin, if_neg hin, Function.update_of_ne (by omega), Function.update_of_ne (by omega)]

/-- The memory with the `n` bytes from `a` set to 0. -/
def clearRange (m : Mem) (a n : Nat) : Mem := fun x => if a ≤ x ∧ x < a + n then 0 else m x

theorem clearRange_of_mem {m : Mem} {a n x : Nat} (h : a ≤ x ∧ x < a + n) :
    clearRange m a n x = 0 := if_pos h

theorem clearRange_of_not_mem {m : Mem} {a n x : Nat} (h : ¬ (a ≤ x ∧ x < a + n)) :
    clearRange m a n x = m x := if_neg h

/-- Clearing from an entry of a region runs to the region's last entry: it counts and zeroes
    exactly the entries left. -/
theorem markFreeLoop_region (start len : Nat) : ∀ (n room block freed : Nat) (m : Mem),
    block + n + 1 = start + len → n < room →
    (∀ j, j ≤ n → m (block + j) = regionTag start len (block + j)) →
    markFreeLoop room block freed m = (freed + n, clearRange m block (n + 1))
  | 0, 0, _, _, _, _, hroom, _ => absurd hroom (by omega)
  | 0, room + 1, block, freed, m, hend, _, htag => by
    have hlast := regionTag_last_ne_zero start len (j := block) (by omega)
    have h0 := htag 0 (Nat.le_refl _)
    rw [Nat.add_zero] at h0
    rw [markFreeLoop, h0, if_neg hlast]
    refine Prod.ext rfl (funext fun x => ?_)
    simp only [clearRange]
    by_cases hx : x = block
    · subst hx
      rw [Function.update_self, if_pos (by omega)]
    · rw [Function.update_of_ne hx, if_neg (by omega)]
  | n + 1, 0, _, _, _, _, hroom, _ => absurd hroom (by omega)
  | n + 1, room + 1, block, freed, m, hend, hroom, htag => by
    have hlast := regionTag_last_eq_zero start len (j := block) (by omega)
    have h0 := htag 0 (Nat.zero_le _)
    rw [Nat.add_zero] at h0
    rw [markFreeLoop, h0, if_pos hlast, markFreeLoop_region start len n room (block + 1)
      (freed + 1) _ (by omega) (by omega)]
    · refine Prod.ext (by simp only; omega) (funext fun x => ?_)
      simp only [clearRange]
      by_cases hx : x = block
      · subst hx
        rw [if_neg (by omega), if_pos (by omega), Function.update_self]
      · rw [Function.update_of_ne hx]
        by_cases hin : block + 1 ≤ x ∧ x < block + 1 + (n + 1)
        · rw [if_pos hin, if_pos (by omega)]
        · rw [if_neg hin, if_neg (by omega)]
    · intro j hj
      have := htag (j + 1) (by omega)
      rw [Function.update_of_ne (by omega), show block + 1 + j = block + (j + 1) by omega]
      exact this

end TinyKernel
