/-
  The kernel heap over whole runs.

  `heapMachine` runs a heap from an all-zero table through any sequence of `heap_alloc` calls (of
  any size) and `heap_free` calls on pointers that are live; the ghost list `live` holds the
  pointer and the requested size of every region handed out and not yet freed.

  The invariant is an instance of `Encodes`: the table encodes exactly the extents of the live
  regions, an entry's tag saying TAKEN and whether it is the first or the last of its region.
  That is what makes freeing by flag bits sound: the entries of a region carry no LAST before its
  end, so `mark_region_free` stops there (`markFreeLoop_region`), and the entries of the
  neighbouring regions are never reached.
-/
import TinyKernel.Lib.Machine
import TinyKernel.Lib.Extents
import TinyKernel.Alloc.Heap

namespace TinyKernel

/-- The heap, the memory its table lives in, and the regions clients hold: pointer and requested
    size. -/
structure HeapState where
  heap : Heap
  mem : Mem
  live : List (Nat × Nat)

/-- What the clients of the heap may do. -/
inductive HeapEvent
  | alloc (size : Nat)
  /-- Free a live region. -/
  | free (p size : Nat)

/-- One client action.  A region is live from the `heap_alloc` that returned its non-null address
    to the `heap_free` of that address. -/
def HeapStep (st : HeapState) : HeapEvent → HeapState → Prop
  | .alloc size, st' => ∃ p, heapAlloc st.heap st.mem size = (p, st'.heap, st'.mem) ∧
      st'.live = if p = 0 then st.live else (p, size) :: st.live
  | .free p size, st' => (p, size) ∈ st.live ∧
      heapFree st.heap st.mem p = (st'.heap, st'.mem) ∧ st'.live = st.live.erase (p, size)

/-- A region stays live until it is freed itself. -/
theorem HeapStep.keeps {st st' : HeapState} {e : HeapEvent} (h : HeapStep st e st')
    {a : Nat × Nat} (ha : a ∈ st.live) (hne : e ≠ .free a.1 a.2) : a ∈ st'.live := by
  cases e with
  | alloc size =>
    obtain ⟨p, -, hlive⟩ := h
    rw [hlive]
    split
    · exact ha
    · exact List.mem_cons_of_mem _ ha
  | free p size =>
    obtain ⟨-, -, hlive⟩ := h
    rw [hlive]
    refine (List.mem_erase_of_ne fun heq => hne ?_).mpr ha
    rw [heq]

/-- A heap from an all-zero table on, with every block counted free. -/
def heapMachine (h : Heap) : Machine HeapState HeapEvent where
  start st := st.heap = h ∧ h.freeBlocks = h.blocks ∧ st.live = [] ∧
    ∀ j < h.blocks, st.mem (h.heap + j) = 0
  step := HeapStep

/-- A client action in a reachable state. -/
theorem HeapStep.reach {h : Heap} {st st' : HeapState} {e : HeapEvent}
    (hr : (heapMachine h).Reach st) (hs : HeapStep st e st') : (heapMachine h).Reach st' :=
  Machine.Reach.step (e := e) hr hs

/-- An allocation that returns the non-null pointer `p`. -/
theorem HeapStep.of_alloc (st : HeapState) (size : Nat) {p : Nat}
    (h : (heapAlloc st.heap st.mem size).1 = p) (hp : p ≠ 0) :
    HeapStep st (.alloc size) ⟨(heapAlloc st.heap st.mem size).2.1,
      (heapAlloc st.heap st.mem size).2.2, (p, size) :: st.live⟩ :=
  ⟨p, by rw [← h], by rw [if_neg hp]⟩

/-- The blocks and the table are objects of the 64-bit address space, and block offsets fit the
    `int` arithmetic of the allocator (at most `2^19` blocks). -/
structure Heap.Placed (h : Heap) : Prop where
  start_pos : 0 < h.heapStartAddress
  start_fits : h.heapStartAddress + 4096 * h.blocks ≤ 18446744073709551616
  table_fits : h.heap + h.blocks ≤ 18446744073709551616
  few : h.blocks ≤ 524288

/-- The table entries of a live region: from the block its pointer addresses on. -/
def regionExtent (start : Nat) (a : Nat × Nat) : Extent := ⟨(a.1 - start) / 4096, allocBlocks a.2⟩

/-- The number of entries without TAKEN. -/
def freeEntries (h : Heap) (m : Mem) : Nat :=
  ((Finset.range h.blocks).filter fun j => ¬ Taken (m (h.heap + j))).card

/-! ## The invariant -/

/-- The table encodes the live regions, live pointers are block addresses, and the counter counts
    the free entries. -/
structure HeapInv (h : Heap) (m : Mem) (live : List (Nat × Nat)) : Prop where
  placed : h.Placed
  encodes : Encodes (regionExtent h.heapStartAddress) (fun e j => regionTag e.start e.len j) 0
    h.blocks (fun j => m (h.heap + j)) live
  aligned : ∀ a ∈ live,
    a.1 = h.heapStartAddress + 4096 * (regionExtent h.heapStartAddress a).start
  count : h.freeBlocks = freeEntries h m

theorem regionTag_add (c start len j : Nat) :
    regionTag (c + start) len (c + j) = regionTag start len j := by
  unfold regionTag
  congr 1
  · congr 1
    by_cases h : j = start
    · rw [if_pos h, if_pos (by omega)]
    · rw [if_neg h, if_neg (by omega)]
  · by_cases h : j + 1 = start + len
    · rw [if_pos h, if_pos (by omega)]
    · rw [if_neg h, if_neg (by omega)]

/-- `freeEntries` never exceeds the number of blocks. -/
theorem freeEntries_le (h : Heap) (m : Mem) : freeEntries h m ≤ h.blocks := by
  have := Finset.card_filter_le (Finset.range h.blocks) fun j => ¬ Taken (m (h.heap + j))
  rwa [Finset.card_range] at this

/-- All entries of a clear table are free. -/
theorem freeEntries_of_zero {h : Heap} {m : Mem} (hzero : ∀ j < h.blocks, m (h.heap + j) = 0) :
    freeEntries h m = h.blocks := by
  rw [freeEntries, Finset.filter_true_of_mem, Finset.card_range]
  intro j hj
  rw [hzero j (Finset.mem_range.mp hj)]
  exact not_taken_zero

/-- `heap_alloc` once the search has found entry `i`. -/
theorem heapAlloc_of_search {h : Heap} (hfew : h.blocks ≤ 524288) {m : Mem} {size i stop : Nat}
    (hsize : size ≠ 0) (hi : i < h.blocks)
    (hsearch : heapSearch m (h.heap + h.blocks) (allocBlocks size) (h.blocks + 1) h.heap
      = some (h.heap + i, stop)) :
    heapAlloc h m size = (toSize (h.heapStartAddress + 4096 * i : Nat),
      h.setFreeBlocks (toSize ((h.freeBlocks : Int) - allocBlocks size)),
      markRegionTaken m (h.heap + i) (stop - 1)) := by
  have hint : toInt32 (toInt32 ((i : Nat) : Int) * 4096) = ((4096 * i : Nat) : Int) := by
    rw [toInt32_of_range (x := (i : Nat)) (by omega) (by omega),
      toInt32_of_range (by omega) (by omega)]
    omega
  rw [heapAlloc, if_neg hsize, hsearch]
  simp only [Nat.add_sub_cancel_left, hint, Nat.cast_add]

/-- **`heap_alloc` is first fit**: it fails only if no run of free entries is long enough, and
    otherwise takes the one that begins first. -/
theorem heapAlloc_fit {h : Heap} (hfew : h.blocks ≤ 524288) (m : Mem) {size : Nat}
    (hsize : size ≠ 0) :
    ((∀ i, i + allocBlocks size ≤ h.blocks → ¬ FreeRun m (h.heap + i) (allocBlocks size)) ∧
      heapAlloc h m size = (0, h, m)) ∨
    ∃ i, i + allocBlocks size ≤ h.blocks ∧ FreeRun m (h.heap + i) (allocBlocks size) ∧
      (∀ i', i' + allocBlocks size ≤ h.blocks → FreeRun m (h.heap + i') (allocBlocks size) →
        i ≤ i') ∧
      heapAlloc h m size = (toSize (h.heapStartAddress + 4096 * i : Nat),
        h.setFreeBlocks (toSize ((h.freeBlocks : Int) - allocBlocks size)),
        markRegionTaken m (h.heap + i) (h.heap + i + allocBlocks size - 1)) := by
  have hpos := allocBlocks_pos hsize
  have hfirst : ∀ i, i + allocBlocks size ≤ h.blocks →
      FreeRun m (h.heap + i) (allocBlocks size) → _ := fun i hin hfree =>
    heapSearch_first hpos (show h.heap + i + allocBlocks size ≤ h.heap + h.blocks by omega) hfree
      (h.blocks + 1) (Nat.le_add_right h.heap i) (by omega)
  cases hsearch : heapSearch m (h.heap + h.blocks) (allocBlocks size) (h.blocks + 1) h.heap with
  | none =>
    refine Or.inl ⟨fun i hin hfree => ?_, by rw [heapAlloc, if_neg hsize, hsearch]⟩
    obtain ⟨start, hstart, -⟩ := hfirst i hin hfree
    exact absurd (hsearch.symm.trans hstart) (by simp)
  | some found =>
    obtain ⟨start, stop⟩ := found
    obtain ⟨hge, rfl, hle, hfree⟩ := heapSearch_some hsearch
    obtain ⟨i, rfl⟩ := Nat.exists_eq_add_of_le hge
    refine Or.inr ⟨i, by omega, hfree, fun i' hin' hfree' => ?_,
      heapAlloc_of_search hfew hsize (by omega) hsearch⟩
    obtain ⟨start, hstart, hle'⟩ := hfirst i' hin' hfree'
    have heq := (Prod.mk.inj (Option.some.inj (hsearch.symm.trans hstart))).1
    omega

/-- Block addresses of a heap in the address space. -/
theorem Heap.Placed.blockAddr {h : Heap} (hp : h.Placed) {i : Nat} (hi : i < h.blocks) :
    toSize (h.heapStartAddress + 4096 * i : Nat) = h.heapStartAddress + 4096 * i := by
  have hfits := hp.start_fits
  exact toSize_natCast (by omega)

/-- First fit on a heap in the address space. -/
theorem heapAlloc_first {h : Heap} (hp : h.Placed) (m : Mem) {size : Nat} (hsize : size ≠ 0) :
    ((∀ i, i + allocBlocks size ≤ h.blocks → ¬ FreeRun m (h.heap + i) (allocBlocks size)) ∧
      heapAlloc h m size = (0, h, m)) ∨
    ∃ i, i + allocBlocks size ≤ h.blocks ∧ FreeRun m (h.heap + i) (allocBlocks size) ∧
      (∀ i', i' + allocBlocks size ≤ h.blocks → FreeRun m (h.heap + i') (allocBlocks size) →
        i ≤ i') ∧
      heapAlloc h m size = (h.heapStartAddress + 4096 * i,
        h.setFreeBlocks (toSize ((h.freeBlocks : Int) - allocBlocks size)),
        markRegionTaken m (h.heap + i) (h.heap + i + allocBlocks size - 1)) := by
  have hpos := allocBlocks_pos hsize
  rcases heapAlloc_fit hp.few m hsize with hnone | ⟨i, hin, hfree, hleast, hres⟩
  · exact Or.inl hnone
  · rw [hp.blockAddr (by omega)] at hres
    exact Or.inr ⟨i, hin, hfree, hleast, hres⟩

/-- **`heap_alloc`** either returns `NULL` and changes nothing, or returns the address of a run of
    entries that were not TAKEN, marks them, and lowers the counter. -/
theorem heapAlloc_cases {h : Heap} (hp : h.Placed) (m : Mem) (size : Nat) :
    heapAlloc h m size = (0, h, m) ∨
    ∃ i, i + allocBlocks size ≤ h.blocks ∧ 0 < allocBlocks size ∧
      (∀ j < allocBlocks size, ¬ Taken (m (h.heap + i + j))) ∧
      heapAlloc h m size = (h.heapStartAddress + 4096 * i,
        h.setFreeBlocks (toSize ((h.freeBlocks : Int) - allocBlocks size)),
        markRegionTaken m (h.heap + i) (h.heap + i + allocBlocks size - 1)) := by
  by_cases hsize : size = 0
  · exact Or.inl (by rw [heapAlloc, if_pos hsize])
  · rcases heapAlloc_first hp m hsize with ⟨-, hnull⟩ | ⟨i, hin, hfree, -, hres⟩
    · exact Or.inl hnull
    · exact Or.inr ⟨i, hin, allocBlocks_pos hsize, hfree, hres⟩

/-- `heap_free` of the address of a block begins at the entry of the block, if that is FIRST. -/
theorem heapFree_block {h : Heap} (hp : h.Placed) {m : Mem} {i : Nat} (hi : i < h.blocks)
    (hfirst : m (h.heap + i) &&& heapBlockFirst ≠ 0) :
    heapFree h m (h.heapStartAddress + 4096 * i)
      = (h.setFreeBlocks (toSize (h.freeBlocks + toInt32 (markRegionFree m (h.heap + i)).1)),
        (markRegionFree m (h.heap + i)).2) := by
  obtain ⟨h1, h2, h3, h4⟩ := hp
  have hoff : toInt32 (((h.heapStartAddress + 4096 * i : Nat) : Int) - h.heapStartAddress)
      = ((4096 * i : Nat) : Int) := by
    unfold toInt32; omega
  have hdiv : ((4096 * i : Nat) : Int).tdiv 4096 = ((i : Nat) : Int) := by
    show ((4096 * i / 4096 : Nat) : Int) = _
    rw [Nat.mul_div_cancel_left i (by decide)]
  have hstart : toSize ((h.heap : Int) + ((i : Nat) : Int)) = h.heap + i := by
    unfold toSize; omega
  simp only [heapFree, hoff, hdiv, hstart]
  exact if_neg hfirst

/-- **`heap_free`** of the first block of a tagged region of `len` entries clears exactly these
    entries and adds `len` to the counter. -/
theorem heapFree_region {h : Heap} (hp : h.Placed) {m : Mem} {i len : Nat} (hlen : 0 < len)
    (hin : i + len ≤ h.blocks) (htag : ∀ j < len, m (h.heap + i + j) = regionTag i len (i + j))
    (hfree : h.freeBlocks ≤ h.blocks) :
    heapFree h m (h.heapStartAddress + 4096 * i)
      = (h.setFreeBlocks (h.freeBlocks + len),
        clearRange m (h.heap + i) len) := by
  have hfits := hp.table_fits
  have hfew := hp.few
  have hshift : ∀ j, j ≤ len - 1 →
      m (h.heap + i + j) = regionTag (h.heap + i) len (h.heap + i + j) := by
    intro j hj
    rw [htag j (by omega), Nat.add_assoc, regionTag_add]
  have hfirst : m (h.heap + i) &&& heapBlockFirst ≠ 0 := by
    have h0 := hshift 0 (Nat.zero_le _)
    rw [Nat.add_zero] at h0
    rw [h0]
    exact regionTag_first _ _
  have hloop := markFreeLoop_region (h.heap + i) len (len - 1)
    (18446744073709551616 - (h.heap + i)) (h.heap + i) 1 m (by omega) (by omega) hshift
  have hcount : toSize ((h.freeBlocks : Int) + toInt32 ((len : Nat) : Int)) = h.freeBlocks + len := by
    rw [toInt32_of_range (by omega) (by omega)]
    unfold toSize; omega
  rw [heapFree_block hp (by omega) hfirst, markRegionFree, hloop]
  simp only [show 1 + (len - 1) = len by omega, hcount, show len - 1 + 1 = len by omega]

namespace HeapInv

variable {h : Heap} {m : Mem} {live : List (Nat × Nat)}

/-- A run of entries that are not TAKEN is disjoint from every live region. -/
theorem disjoint_of_free (hi : HeapInv h m live) {i k : Nat}
    (hfree : ∀ j < k, ¬ Taken (m (h.heap + i + j))) :
    ∀ b ∈ live, (⟨i, k⟩ : Extent).Disjoint (regionExtent h.heapStartAddress b) := by
  intro b hb j hj hcov
  obtain ⟨h1, h2⟩ := Extent.covers_mk.mp hj
  have htag : m (h.heap + j) = regionTag _ _ j := hi.encodes.tagged b hb j hcov
  apply hfree (j - i) (by omega)
  rw [show h.heap + i + (j - i) = h.heap + j by omega, htag]
  exact taken_regionTag _ _ _

/-- Entries outside every live region are 0, so a run of entries that are not TAKEN is 0. -/
theorem zero_of_free (hi : HeapInv h m live) {i k : Nat} (hin : i + k ≤ h.blocks)
    (hfree : ∀ j < k, ¬ Taken (m (h.heap + i + j))) :
    ∀ j < k, m (h.heap + i + j) = 0 := by
  intro j hj
  have hcov : (⟨i, k⟩ : Extent).Covers (i + j) := Extent.covers_mk.mpr (by omega)
  have hblank : m (h.heap + (i + j)) = 0 :=
    hi.encodes.blank (i + j) (by omega) (fun b hb => hi.disjoint_of_free hfree b hb (i + j) hcov)
  rwa [← Nat.add_assoc] at hblank

/-- The tag of entry `i + j` of the region that `heap_alloc` marked. -/
theorem mark_apply (hi : HeapInv h m live) {i k : Nat} (hk : 0 < k) (hin : i + k ≤ h.blocks)
    (hfree : ∀ j < k, ¬ Taken (m (h.heap + i + j))) {j : Nat} (hj : j < k) :
    markRegionTaken m (h.heap + i) (h.heap + i + k - 1) (h.heap + i + j)
      = regionTag i k (i + j) := by
  rw [markRegionTaken_apply m hk, if_pos (by omega), hi.zero_of_free hin hfree j hj,
    Nat.add_assoc, regionTag_add]
  exact BitVec.zero_or

/-- Taking a run of `k` free entries lowers the number of free entries by `k`. -/
theorem freeEntries_mark (hi : HeapInv h m live) {i k : Nat} (hk : 0 < k)
    (hin : i + k ≤ h.blocks) (hfree : ∀ j < k, ¬ Taken (m (h.heap + i + j))) :
    freeEntries h m
      = freeEntries h (markRegionTaken m (h.heap + i) (h.heap + i + k - 1)) + k := by
  refine card_filter_flip hin ?_ ?_ ?_
  · intro j h1 h2
    have := hfree (j - i) (by omega)
    rwa [show h.heap + i + (j - i) = h.heap + j by omega] at this
  · intro j h1 h2
    have := hi.mark_apply hk hin hfree (j := j - i) (by omega)
    rw [show h.heap + i + (j - i) = h.heap + j by omega] at this
    rw [this]
    exact not_not_intro (taken_regionTag _ _ _)
  · intro j hj hout
    rw [markRegionTaken_apply m hk, if_neg (by omega)]

/-- A successful allocation keeps the invariant, with its region added to the live ones. -/
theorem alloc (hi : HeapInv h m live) {size i : Nat} (hin : i + allocBlocks size ≤ h.blocks)
    (hk : 0 < allocBlocks size) (hfree : ∀ j < allocBlocks size, ¬ Taken (m (h.heap + i + j))) :
    HeapInv (h.setFreeBlocks (toSize ((h.freeBlocks : Int) - allocBlocks size)))
      (markRegionTaken m (h.heap + i) (h.heap + i + allocBlocks size - 1))
      ((h.heapStartAddress + 4096 * i, size) :: live) := by
  have hext : regionExtent h.heapStartAddress (h.heapStartAddress + 4096 * i, size)
      = ⟨i, allocBlocks size⟩ := by
    simp only [regionExtent]
    congr 1
    omega
  refine ⟨⟨hi.placed.start_pos, hi.placed.start_fits, hi.placed.table_fits, hi.placed.few⟩,
    ?_, ?_, ?_⟩
  · refine hi.encodes.insert ?_ ?_ ?_ ?_ ?_ <;> rw [hext]
    · exact hk
    · exact hin
    · exact hi.disjoint_of_free hfree
    · intro j hj
      obtain ⟨h1, h2⟩ := Extent.covers_mk.mp hj
      have := hi.mark_apply hk hin hfree (j := j - i) (by omega)
      rwa [show h.heap + i + (j - i) = h.heap + j by omega,
        show i + (j - i) = j by omega] at this
    · intro j hj hout
      rw [Extent.covers_mk] at hout
      rw [Heap.setFreeBlocks_heap, markRegionTaken_apply m hk, if_neg (by omega)]
  · refine List.forall_mem_cons.mpr ⟨?_, hi.aligned⟩
    rw [Heap.setFreeBlocks_start, hext]
  · have hle := freeEntries_le h m
    have hfew := hi.placed.few
    have hcount := hi.count
    have hcard := hi.freeEntries_mark hk hin hfree
    have hsame : freeEntries (h.setFreeBlocks (toSize ((h.freeBlocks : Int) - allocBlocks size)))
        (markRegionTaken m (h.heap + i) (h.heap + i + allocBlocks size - 1))
        = freeEntries h (markRegionTaken m (h.heap + i) (h.heap + i + allocBlocks size - 1)) := rfl
    rw [hsame, Heap.setFreeBlocks_freeBlocks]
    unfold toSize
    omega

/-- The tags of a live region, from its first entry on. -/
theorem tags (hi : HeapInv h m live) {a : Nat × Nat} (ha : a ∈ live) {i k : Nat}
    (hext : regionExtent h.heapStartAddress a = ⟨i, k⟩) :
    ∀ j < k, m (h.heap + i + j) = regionTag i k (i + j) := by
  intro j hj
  have htag := hi.encodes.tagged a ha (i + j)
  rw [hext] at htag
  have : m (h.heap + (i + j)) = _ := htag (Extent.covers_mk.mpr (by omega))
  rwa [← Nat.add_assoc] at this

/-- Freeing a live region keeps the invariant, with the region gone. -/
theorem free (hi : HeapInv h m live) {a : Nat × Nat} (ha : a ∈ live) {i k : Nat}
    (hext : regionExtent h.heapStartAddress a = ⟨i, k⟩) :
    HeapInv (h.setFreeBlocks (h.freeBlocks + k)) (clearRange m (h.heap + i) k)
      (live.erase a) := by
  have hin : i + k ≤ h.blocks := by
    have := hi.encodes.inside a ha
    rwa [hext] at this
  refine ⟨⟨hi.placed.start_pos, hi.placed.start_fits, hi.placed.table_fits, hi.placed.few⟩,
    ?_, fun b hb => hi.aligned b (List.mem_of_mem_erase hb), ?_⟩
  · refine hi.encodes.erase (a := a) ha ?_ ?_ <;> rw [hext]
    · intro j hj
      obtain ⟨h1, h2⟩ := Extent.covers_mk.mp hj
      exact clearRange_of_mem (by rw [Heap.setFreeBlocks_heap]; omega)
    · intro j hj hout
      rw [Extent.covers_mk] at hout
      exact clearRange_of_not_mem (by rw [Heap.setFreeBlocks_heap]; omega)
  · have hcard : freeEntries h (clearRange m (h.heap + i) k) = freeEntries h m + k := by
      refine card_filter_flip hin ?_ ?_ ?_
      · intro j h1 h2
        rw [clearRange_of_mem (by omega)]
        exact not_taken_zero
      · intro j h1 h2
        have := hi.tags ha hext (j - i) (by omega)
        rw [show h.heap + i + (j - i) = h.heap + j by omega] at this
        rw [this]
        exact not_not_intro (taken_regionTag _ _ _)
      · intro j hj hout
        rw [clearRange_of_not_mem (by omega)]
    rw [Heap.setFreeBlocks_freeBlocks, hi.count, ← hcard]
    rfl

/-- Freeing what was just allocated gives back the heap and the memory as they were. -/
theorem free_alloc (hi : HeapInv h m live) {size p : Nat} {h' : Heap} {m' : Mem}
    (halloc : heapAlloc h m size = (p, h', m')) (hp : p ≠ 0) : heapFree h' m' p = (h, m) := by
  rcases heapAlloc_cases hi.placed m size with hnull | ⟨i, hin, hk, hfree, hsome⟩
  · rw [hnull] at halloc
    injection halloc with h0
    exact absurd h0.symm hp
  · rw [hsome] at halloc
    injection halloc with h1 h2
    injection h2 with h3 h4
    subst h1 h3 h4
    have hle := freeEntries_le h m
    have hcard := hi.freeEntries_mark hk hin hfree
    have hfew := hi.placed.few
    have hcount := hi.count
    have hback : toSize ((h.freeBlocks : Int) - allocBlocks size) + allocBlocks size
        = h.freeBlocks := by
      unfold toSize; omega
    have hrun := heapFree_region (hi.alloc hin hk hfree).placed hk hin
      (fun j hj => hi.mark_apply hk hin hfree hj)
      (by rw [Heap.setFreeBlocks_freeBlocks, Heap.setFreeBlocks_blocks]; omega)
    rw [Heap.setFreeBlocks_start, Heap.setFreeBlocks_freeBlocks, hback] at hrun
    rw [hrun]
    refine Prod.ext rfl (funext fun x => ?_)
    simp only [Heap.setFreeBlocks_heap]
    by_cases hx : h.heap + i ≤ x ∧ x < h.heap + i + allocBlocks size
    · have := hi.zero_of_free hin hfree (x - (h.heap + i)) (by omega)
      rw [show h.heap + i + (x - (h.heap + i)) = x by omega] at this
      rw [clearRange_of_mem hx, this]
    · rw [clearRange_of_not_mem hx, markRegionTaken_apply m hk, if_neg hx]

/-- An all-zero table with every block counted free satisfies the invariant. -/
theorem start (hp : h.Placed) (hcount : h.freeBlocks = h.blocks)
    (hzero : ∀ j < h.blocks, m (h.heap + j) = 0) : HeapInv h m [] where
  placed := hp
  encodes := Encodes.nil hzero
  aligned := fun _ ha => absurd ha List.not_mem_nil
  count := by rw [freeEntries_of_zero hzero, hcount]

/-- One client action keeps the invariant. -/
theorem step {st st' : HeapState} {e : HeapEvent} (hi : HeapInv st.heap st.mem st.live)
    (hs : HeapStep st e st') : HeapInv st'.heap st'.mem st'.live := by
  cases e with
  | alloc size =>
    obtain ⟨p, hres, hlive⟩ := hs
    rcases heapAlloc_cases hi.placed st.mem size with hnull | ⟨i, hin, hk, hfree, hsome⟩
    · rw [hnull] at hres
      injection hres with hp hrest
      injection hrest with hh hm
      rw [if_pos hp.symm] at hlive
      rw [← hh, ← hm, hlive]
      exact hi
    · rw [hsome] at hres
      injection hres with hp hrest
      injection hrest with hh hm
      have hpos := hi.placed.start_pos
      rw [← hp, if_neg (by omega)] at hlive
      rw [← hh, ← hm, hlive]
      exact hi.alloc hin hk hfree
  | free p size =>
    obtain ⟨ha, hres, hlive⟩ := hs
    obtain ⟨i, k, hext⟩ : ∃ i k, regionExtent st.heap.heapStartAddress (p, size) = ⟨i, k⟩ :=
      ⟨_, _, rfl⟩
    have hpos := hi.encodes.nonempty _ ha
    have hin := hi.encodes.inside _ ha
    have hptr : p = _ := hi.aligned _ ha
    rw [hext] at hpos hin hptr
    have hrun := heapFree_region hi.placed hpos hin (hi.tags ha hext)
      (by rw [hi.count]; exact freeEntries_le _ _)
    rw [← hptr, hres] at hrun
    injection hrun with hh hm
    rw [hh, hm, hlive]
    exact hi.free ha hext

end HeapInv

/-! ## The representation, in every reachable state -/

/-- The bytes of the region handed out for a request of `size` bytes. -/
def regionBytes (size : Nat) : Nat := 4096 * ((size + 4095) / 4096)

/-- What holds of the heap in state `st`, in the words of its clients. -/
structure HeapRepresentation (st : HeapState) : Prop where
  /-- Live regions lie inside the heap. -/
  inside : ∀ a ∈ st.live, st.heap.heapStartAddress ≤ a.1 ∧
    a.1 + regionBytes a.2 ≤ st.heap.heapStartAddress + 4096 * st.heap.blocks
  /-- Live regions are pairwise disjoint. -/
  disjoint : st.live.Pairwise fun a b =>
    a.1 + regionBytes a.2 ≤ b.1 ∨ b.1 + regionBytes b.2 ≤ a.1
  /-- The entries of a live region: TAKEN on all, FIRST and LAST on its ends only. -/
  tagged : ∀ a ∈ st.live, ∀ j < (a.2 + 4095) / 4096,
    st.mem (st.heap.heap + (a.1 - st.heap.heapStartAddress) / 4096 + j)
      = heapBlockTaken ||| (if j = 0 then heapBlockFirst else 0#8)
        ||| (if j + 1 = (a.2 + 4095) / 4096 then heapBlockLast else 0#8)
  /-- Every entry of the table whose block belongs to no live region is 0. -/
  zero : ∀ j < st.heap.blocks, (∀ a ∈ st.live,
      ¬ (a.1 ≤ st.heap.heapStartAddress + 4096 * j ∧
        st.heap.heapStartAddress + 4096 * j < a.1 + regionBytes a.2)) →
    st.mem (st.heap.heap + j) = 0
  /-- The counter counts the entries without TAKEN. -/
  count : st.heap.freeBlocks = freeEntries st.heap st.mem
  /-- Freeing a region right after its allocation restores the table and the counter. -/
  restore : ∀ size p h' m', heapAlloc st.heap st.mem size = (p, h', m') → p ≠ 0 →
    heapFree h' m' p = (st.heap, st.mem)

/-- The invariant gives the clients' view. -/
theorem HeapInv.representation {st : HeapState} (hi : HeapInv st.heap st.mem st.live) :
    HeapRepresentation st := by
  have hblocks : ∀ a : Nat × Nat, regionBytes a.2
      = 4096 * (regionExtent st.heap.heapStartAddress a).len := by
    intro a
    simp only [regionBytes, regionExtent, allocBlocks_eq]
  refine ⟨?_, ?_, ?_, ?_, hi.count, fun _ _ _ _ => hi.free_alloc⟩
  · intro a ha
    have h1 := hi.aligned a ha
    have h2 := hi.encodes.inside a ha
    rw [hblocks]
    omega
  · refine hi.encodes.disjoint.imp_of_mem ?_
    intro a b ha hb hd
    have h1 := hi.aligned a ha
    have h2 := hi.aligned b hb
    have h3 := hd.ordered (hi.encodes.nonempty a ha) (hi.encodes.nonempty b hb)
    rw [hblocks, hblocks]
    omega
  · intro a ha j hj
    have htag := hi.tags ha rfl j (by rw [allocBlocks_eq]; exact hj)
    rw [htag, allocBlocks_eq]
    unfold regionTag
    simp only [Nat.add_eq_left, Nat.add_assoc, Nat.add_left_cancel_iff]
  · intro j hj hout
    refine hi.encodes.blank j hj (fun a ha hcov => hout a ha ?_)
    obtain ⟨h1, h2⟩ := hcov
    have h3 := hi.aligned a ha
    rw [hblocks]
    omega

/-- The kernel's own heap (`setup_heap`: 0x10000 blocks after a table of pointer-sized entries at
    0x40100000) over zeroed memory. -/
def kernelHeapState : HeapState :=
  ⟨⟨0x40180000, 0x40100000, 0x10000, 0x10000⟩, fun _ => 0, []⟩

/-- **Heap representation over whole runs.**  From an all-zero table of at most `2^19` blocks, after
    any sequence of allocations of any size and frees of live regions: live regions are disjoint and
    inside the heap, the table encodes exactly them, the counter is exact, and a free undoes the
    allocation before it.  The induction over the run carries the invariant that the table encodes
    the list of live regions (`HeapInv`); all the rest is read off it. -/
theorem heap_run_representation {h : Heap} (hp : h.Placed) {st : HeapState}
    (hr : (heapMachine h).Reach st) : HeapRepresentation st := by
  apply HeapInv.representation
  refine hr.invariant (M := heapMachine h) (I := fun st => HeapInv st.heap st.mem st.live) ?_ ?_
  · rintro ⟨heap, mem, live⟩ ⟨rfl, hcount, rfl, hzero⟩
    exact HeapInv.start hp hcount hzero
  · intro _ _ _ hi hstep
    exact hi.step hstep

/-- On the kernel's heap: two blocks and one block are handed out, then the two are given back. -/
theorem heap_run_representation_kernel : ∃ st₁ st₂ st₃,
    HeapStep kernelHeapState (.alloc 5000) st₁ ∧ HeapStep st₁ (.alloc 100) st₂ ∧
    st₂.live = [(0x40182000, 100), (0x40180000, 5000)] ∧
    HeapStep st₂ (.free 0x40180000 5000) st₃ ∧ st₃.live = [(0x40182000, 100)] ∧
    HeapRepresentation st₂ ∧ HeapRepresentation st₃ := by
  have hplaced : kernelHeapState.heap.Placed := ⟨by decide, by decide, by decide, by decide⟩
  have hstart : (heapMachine kernelHeapState.heap).Reach kernelHeapState :=
    .start ⟨rfl, rfl, rfl, fun _ _ => rfl⟩
  have h₁ := HeapStep.of_alloc kernelHeapState 5000 (p := 0x40180000)
    (by decide +kernel) (by decide)
  generalize hst₁ : HeapState.mk _ _ _ = st₁ at h₁
  have h₂ := HeapStep.of_alloc st₁ 100 (p := 0x40182000)
    (by rw [← hst₁]; decide +kernel) (by decide)
  generalize hst₂ : HeapState.mk _ _ _ = st₂ at h₂
  have hlive : st₂.live = [(0x40182000, 100), (0x40180000, 5000)] := by rw [← hst₂, ← hst₁]; rfl
  have h₃ : HeapStep st₂ (.free 0x40180000 5000) ⟨(heapFree st₂.heap st₂.mem 0x40180000).1,
      (heapFree st₂.heap st₂.mem 0x40180000).2, [(0x40182000, 100)]⟩ :=
    ⟨by rw [hlive]; decide, rfl, by rw [hlive]; rfl⟩
  have hreach := HeapStep.reach (HeapStep.reach hstart h₁) h₂
  exact ⟨st₁, st₂, _, h₁, h₂, hlive, h₃, rfl, heap_run_representation hplaced hreach,
    heap_run_representation hplaced (HeapStep.reach hreach h₃)⟩

end TinyKernel
