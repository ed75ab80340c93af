/-
  Single calls of the heap, on tables that no allocator wrote.

  Three questions about `kernel/alloc/heap.c` that the invariant of `Alloc.HeapRun` does not ask:

  * what `heap_alloc` does on ANY table.  It is exact first fit (`heap_alloc_first_fit`): the search
    skips a start position only if an entry it would need is TAKEN;
  * what `heap_free` does with a pointer that is NOT live.  It cuts the distance from the start of
    the heap to an `int`, divides it with truncation and looks at the entry it arrives at, wherever
    that is.  So the pointer is ignored exactly if it arrives at an entry of the table where no live
    region begins (`heap_free_ignores_iff`);
  * what `heap_createtable` leaves of the memory it was given.  It clears the first entry only, so
    the new heap is empty exactly if the other entries were zero before
    (`heap_createtable_empty_iff`).
-/
import TinyKernel.Alloc.KernelHeap

namespace TinyKernel

/-! ## First fit -/

/-- The outer loop of `heap_alloc`, with a number of rounds after which it has not returned. -/
def heapSearchLoop (m : Mem) (lastBlock wanted : Nat) :
    Nat → Nat → Except Fault (Option (Nat × Nat))
  | 0, _ => .error .noReturn
  | rounds + 1, block =>
    if block < lastBlock then
      let start := skipTaken m (lastBlock - block) block
      if start = lastBlock then .ok none
      else
        let (block, blocksFound) := countFree m wanted (lastBlock - start) start 0
        if blocksFound = wanted then .ok (some (start, block))
        else if block = lastBlock then .ok none
        else heapSearchLoop m lastBlock wanted rounds block
    else .ok none

/-- **The search ends**: every round moves `block` forward, so that there are at most as many as
    entries, and `heapSearch` is its result. -/
theorem heapSearchLoop_eq (m : Mem) (lastBlock wanted : Nat) : ∀ (rounds rounds' block : Nat),
    lastBlock - block < rounds → lastBlock - block < rounds' →
    heapSearchLoop m lastBlock wanted rounds block = .ok (heapSearch m lastBlock wanted rounds' block) := by
  intro rounds
  induction rounds with
  | zero =>
    intro _ _ hr _
    exact absurd hr (Nat.not_lt_zero _)
  | succ rounds ih =>
    intro rounds' block hr hr'
    obtain ⟨rounds', rfl⟩ : ∃ n, rounds' = n + 1 := Nat.exists_eq_add_one.mpr (by omega)
    rw [heapSearchLoop, heapSearch]
    by_cases hlt : block < lastBlock
    · rw [if_pos hlt, if_pos hlt]
      obtain ⟨hs1, hs2, hs3⟩ := skipTaken_spec m (lastBlock - block) block
      generalize skipTaken m (lastBlock - block) block = s at *
      by_cases hend : s = lastBlock
      · simp only [if_pos hend]
      · obtain ⟨k, hk, heq, -, -, hstop⟩ := countFree_spec m wanted (lastBlock - s) s 0 (Nat.zero_le _)
        simp only [Nat.zero_add] at heq hstop
        simp only [if_neg hend, heq]
        by_cases hfound : k = wanted
        · simp only [if_pos hfound]
        · by_cases hlast : s + k = lastBlock
          · simp only [if_neg hfound, if_pos hlast]
          · -- the count stopped at a TAKEN entry, which the one it began with is not
            have hmoved : 0 < k := by
              rcases Nat.eq_zero_or_pos k with rfl | hpos
              · rcases hstop with h | h | h
                · omega
                · exact absurd h hfound
                · exact absurd h (hs3 (by omega))
              · exact hpos
            simp only [if_neg hfound, if_neg hlast]
            exact ih rounds' (s + k) (by omega) (by omega)
    · rw [if_neg hlt, if_neg hlt]

/-- The entries `i, …, i + k - 1` are in the table and none of them is TAKEN. -/
def FreeAt (h : Heap) (m : Mem) (k i : Nat) : Prop := i + k ≤ h.blocks ∧ FreeRun m (h.heap + i) k

/-- `heap_alloc(size)` is exact first fit, with `k` blocks for `size` bytes. -/
structure FirstFit (h : Heap) (m : Mem) (size k : Nat) : Prop where
  /-- The search ends. -/
  returns : Returns (fun rounds => heapSearchLoop m (h.heap + h.blocks) (allocBlocks size) rounds h.heap)
    (heapSearch m (h.heap + h.blocks) (allocBlocks size) (h.blocks + 1) h.heap)
  /-- `NULL`, with the table and the counter unchanged, exactly if there is no room. -/
  refuses : heapAlloc h m size = (0, h, m) ↔ ∀ i, ¬ FreeAt h m k i
  /-- The first room there is: its entries are marked, no other is touched. -/
  takes : ∀ i, IsLeast {i | FreeAt h m k i} i → ∃ m',
    heapAlloc h m size = (toSize (h.heapStartAddress + 4096 * i : Nat),
      h.setFreeBlocks (toSize ((h.freeBlocks : Int) - k)), m') ∧
    ∀ x, m' x = if h.heap + i ≤ x ∧ x < h.heap + i + k
      then m x ||| heapBlockTaken ||| (if x = h.heap + i then heapBlockFirst else 0#8)
        ||| (if x + 1 = h.heap + i + k then heapBlockLast else 0#8)
      else m x

/-- A marked entry is TAKEN. -/
theorem taken_or_regionTag (b : Byte) (start len j : Nat) : Taken (b ||| regionTag start len j) := by
  have hbit : (b ||| regionTag start len j).getLsbD 7 = true := by
    unfold regionTag
    simp only [BitVec.getLsbD_or]
    rw [show heapBlockTaken.getLsbD 7 = true by decide, Bool.true_or, Bool.true_or, Bool.or_true]
  intro hzero
  have h7 := congrArg (fun x : Byte => x.getLsbD 7) hzero
  simp only [BitVec.getLsbD_and, hbit] at h7
  exact absurd h7 (by decide)

/-- **`heap_alloc` is exact first fit** on a table of arbitrary bytes: for every size, it takes the
    first run of entries without TAKEN that is long enough, and it fails only if there is none. -/
theorem heap_alloc_first_fit {h : Heap} (hfew : h.blocks ≤ 524288) (m : Mem) :
    heapAlloc h m 0 = (0, h, m) ∧
      ∀ size, 0 < size → FirstFit h m size ((size + 4095) / 4096) := by
  refine ⟨by rw [heapAlloc, if_pos rfl], fun size hsize => ?_⟩
  have hne : size ≠ 0 := Nat.ne_of_gt hsize
  have hpos := allocBlocks_pos hne
  rw [← allocBlocks_eq]
  have hreturns : Returns
      (fun rounds => heapSearchLoop m (h.heap + h.blocks) (allocBlocks size) rounds h.heap)
      (heapSearch m (h.heap + h.blocks) (allocBlocks size) (h.blocks + 1) h.heap) :=
    ⟨h.blocks + 1, fun rounds hr => heapSearchLoop_eq m _ _ rounds _ h.heap (by omega) (by omega)⟩
  rcases heapAlloc_fit hfew m hne with ⟨hnone, hnull⟩ | ⟨i, hin, hfree, hleast, hres⟩
  · refine ⟨hreturns, ⟨fun _ i hi => hnone i hi.1 hi.2, fun _ => hnull⟩, fun i hi => ?_⟩
    exact absurd hi.1.2 (hnone i hi.1.1)
  · have hmark := @markRegionTaken_apply m (h.heap + i) _ hpos
    refine ⟨hreturns, ⟨fun hnull => ?_, fun hnone => absurd ⟨hin, hfree⟩ (hnone i)⟩, ?_⟩
    · -- a call that marks its first entry has changed it
      exfalso
      have hsame : markRegionTaken m (h.heap + i) (h.heap + i + allocBlocks size - 1) = m :=
        (Prod.mk.inj (Prod.mk.inj (hres.symm.trans hnull)).2).2
      have hentry := hmark (h.heap + i)
      rw [hsame, if_pos (by omega)] at hentry
      have hfirst := hfree 0 hpos
      rw [Nat.add_zero, hentry] at hfirst
      exact hfirst (taken_or_regionTag _ _ _ _)
    · intro i' hi'
      obtain rfl : i' = i := Nat.le_antisymm (hi'.2 ⟨hin, hfree⟩) (hleast i' hi'.1.1 hi'.1.2)
      refine ⟨_, hres, fun x => ?_⟩
      rw [hmark x]
      unfold regionTag
      split
      · ac_rfl
      · rfl

/-- A table with a stray FIRST and LAST in its only free entry. -/
theorem heap_alloc_first_fit_stray :
    FirstFit ⟨0x40180000, 0, 2, 1⟩ (fun x => if x = 0 then 0x80 else 0x60) 4096 1 :=
  (heap_alloc_first_fit (h := ⟨0x40180000, 0, 2, 1⟩) (by decide) _).2 4096 (by decide)

/-! ## Freeing what is not live -/

/-- The entry that `heap_free(ptr)` looks at first. -/
def heapFreeEntry (h : Heap) (ptr : Nat) : Nat :=
  toSize (h.heap + (toInt32 ((ptr : Int) - h.heapStartAddress)).tdiv 4096)

/-- The entries that `heap_free(ptr)` accesses. -/
def heapFreeEntries (h : Heap) (m : Mem) (ptr : Nat) : List Nat :=
  let start := heapFreeEntry h ptr
  if m start &&& heapBlockFirst = 0 then [start] else List.range' start (markRegionFree m start).1

/-- `heap_free(p)` accesses the table only, and changes neither it nor the counter. -/
structure IgnoresFree (h : Heap) (m : Mem) (p : Nat) : Prop where
  inside : ∀ x ∈ heapFreeEntries h m p, h.heap ≤ x ∧ x < h.heap + h.blocks
  unchanged : heapFree h m p = (h, m)

/-- The address `p` is a multiple of 2^32 away from one that is less than a block below the heap or
    in it, and no live region starts at the block of that address (below the heap: its first
    block). -/
def AimsAtNoRegion (h : Heap) (live : List (Nat × Nat)) (p : Nat) : Prop :=
  ∃ d : Int, ((p : Int) - h.heapStartAddress - d) % 4294967296 = 0 ∧
    -4096 < d ∧ max d 0 < 4096 * h.blocks ∧
    ∀ a ∈ live, (a.1 : Int) ≠ h.heapStartAddress + 4096 * (max d 0 / 4096)

/-- Calls of the heap with any size and any pointer. -/
inductive HeapCall
  | alloc (size : Nat)
  | free (p : Nat)

/-- One call.  A pointer that is not live does not change what is live. -/
def HeapCallStep (st : HeapState) : HeapCall → HeapState → Prop
  | .alloc size, st' => HeapStep st (.alloc size) st'
  | .free p, st' => (∃ size, HeapStep st (.free p size) st') ∨
      (∀ a ∈ st.live, a.1 ≠ p) ∧ heapFree st.heap st.mem p = (st'.heap, st'.mem) ∧
        st'.live = st.live

/-- A heap from an all-zero table on. -/
def heapCallMachine (h : Heap) : Machine HeapState HeapCall where
  start := (heapMachine h).start
  step := HeapCallStep

/-- A call that frees what is not live is ignored. -/
def FreeIgnored (st : HeapState) : HeapCall → Prop
  | .alloc _ => True
  | .free p => (∀ a ∈ st.live, a.1 ≠ p) → IgnoresFree st.heap st.mem p

/-- A call that frees what is not live aims at no live region. -/
def FreeAimed (st : HeapState) : HeapCall → Prop
  | .alloc _ => True
  | .free p => (∀ a ∈ st.live, a.1 ≠ p) → AimsAtNoRegion st.heap st.live p

theorem regionTag_first_eq_zero {start len j : Nat} (h : j ≠ start) :
    regionTag start len j &&& heapBlockFirst = 0 := by
  unfold regionTag
  rw [if_neg h]
  split <;> decide

namespace HeapInv

variable {h : Heap} {m : Mem} {live : List (Nat × Nat)}

/-- An entry is marked FIRST exactly if a live region starts at its block. -/
theorem first_iff (hi : HeapInv h m live) {j : Nat} (hj : j < h.blocks) :
    m (h.heap + j) &&& heapBlockFirst ≠ 0 ↔ ∃ a ∈ live, a.1 = h.heapStartAddress + 4096 * j := by
  constructor
  · intro hfirst
    by_contra hnone
    apply hfirst
    by_cases hcov : ∃ a ∈ live, (regionExtent h.heapStartAddress a).Covers j
    · obtain ⟨a, ha, hcov⟩ := hcov
      have htag : m (h.heap + j) = _ := hi.encodes.tagged a ha j hcov
      rw [htag]
      refine regionTag_first_eq_zero fun heq => hnone ⟨a, ha, ?_⟩
      rw [hi.aligned a ha, heq]
    · have hblank : m (h.heap + j) = 0 :=
        hi.encodes.blank j hj fun a ha hc => hcov ⟨a, ha, hc⟩
      rw [hblank]
      decide
  · rintro ⟨a, ha, hptr⟩
    have hstart : (regionExtent h.heapStartAddress a).start = j := by
      have := hi.aligned a ha
      omega
    have htag := hi.tags ha (i := j) (k := allocBlocks a.2) (by rw [← hstart]; rfl) 0
      (hi.encodes.nonempty a ha)
    rw [Nat.add_zero, Nat.add_zero] at htag
    rw [htag]
    exact regionTag_first _ _

/-- `heap_free` where a live region starts counts its blocks free. -/
theorem free_counts (hi : HeapInv h m live) {a : Nat × Nat} (ha : a ∈ live) :
    (heapFree h m a.1).1.freeBlocks ≠ h.freeBlocks := by
  obtain ⟨i, k, hext⟩ : ∃ i k, regionExtent h.heapStartAddress a = ⟨i, k⟩ := ⟨_, _, rfl⟩
  have hpos := hi.encodes.nonempty a ha
  have hin := hi.encodes.inside a ha
  have hptr := hi.aligned a ha
  rw [hext] at hpos hin hptr
  rw [hptr, heapFree_region hi.placed hpos hin (hi.tags ha hext)
    (by rw [hi.count]; exact freeEntries_le _ _), Heap.setFreeBlocks_freeBlocks]
  exact Nat.ne_of_gt (Nat.lt_add_of_pos_right hpos)

end HeapInv

/-- `mark_region_free` counts the entry that it begins with. -/
theorem le_markFreeLoop : ∀ (room block freed : Nat) (m : Mem),
    freed ≤ (markFreeLoop room block freed m).1 := by
  intro room
  induction room with
  | zero =>
    intro block freed m
    exact Nat.le_refl _
  | succ room ih =>
    intro block freed m
    rw [markFreeLoop]
    split
    · exact Nat.le_trans (Nat.le_succ freed) (ih _ _ _)
    · exact Nat.le_refl _

/-- `heap_free` depends on the entry that it looks at only. -/
theorem heapFree_congr {h : Heap} {p q : Nat} (heq : heapFreeEntry h p = heapFreeEntry h q)
    (m : Mem) : heapFree h m p = heapFree h m q := by
  unfold heapFreeEntry at heq
  simp only [heapFree, heq]

/-- C division by the block size. -/
theorem tdiv_block (d : Int) : d.tdiv 4096 = if 0 ≤ d then d / 4096 else -(-d / 4096) := by
  split
  · exact Int.tdiv_eq_ediv_of_nonneg ‹_›
  · rw [← Int.tdiv_eq_ediv_of_nonneg (by omega), Int.neg_tdiv, neg_neg]

/-- The entry for a pointer at distance `d` from the heap, up to multiples of 2^32. -/
theorem heapFreeEntry_of_distance {h : Heap} (hp : h.Placed) {p : Nat} {d : Int}
    (hmod : ((p : Int) - h.heapStartAddress - d) % 4294967296 = 0) (hlow : -4096 < d)
    (hhigh : max d 0 < 4096 * h.blocks) :
    heapFreeEntry h p = h.heap + (max d 0 / 4096).toNat ∧ (max d 0 / 4096).toNat < h.blocks := by
  obtain ⟨-, -, hfits, hfew⟩ := hp
  have hint : toInt32 ((p : Int) - h.heapStartAddress) = d := by
    unfold toInt32
    omega
  have hdiv : d.tdiv 4096 = max d 0 / 4096 := by
    rw [tdiv_block]
    split <;> omega
  rw [heapFreeEntry, hint, hdiv]
  unfold toSize
  omega

/-- A pointer that leads to an entry of the table has such a distance. -/
theorem distance_of_heapFreeEntry {h : Heap} (hp : h.Placed) {p : Nat}
    (hin : h.heap ≤ heapFreeEntry h p ∧ heapFreeEntry h p < h.heap + h.blocks) :
    ∃ d : Int, ((p : Int) - h.heapStartAddress - d) % 4294967296 = 0 ∧ -4096 < d ∧
      max d 0 < 4096 * h.blocks := by
  obtain ⟨-, -, hfits, hfew⟩ := hp
  refine ⟨toInt32 ((p : Int) - h.heapStartAddress), ?_, ?_⟩
  · unfold toInt32
    omega
  · have hrange : -2147483648 ≤ toInt32 ((p : Int) - h.heapStartAddress) ∧
        toInt32 ((p : Int) - h.heapStartAddress) < 2147483648 := by
      unfold toInt32
      omega
    rw [heapFreeEntry, tdiv_block] at hin
    generalize toInt32 ((p : Int) - h.heapStartAddress) = d at *
    unfold toSize at hin
    split at hin <;> omega

/-- **A pointer that is not live is ignored** exactly if it aims at no live region. -/
theorem HeapInv.ignores_iff {h : Heap} {m : Mem} {live : List (Nat × Nat)} (hi : HeapInv h m live)
    (p : Nat) : IgnoresFree h m p ↔ AimsAtNoRegion h live p := by
  constructor
  · rintro ⟨hinside, hsame⟩
    have hmem : heapFreeEntry h p ∈ heapFreeEntries h m p := by
      simp only [heapFreeEntries]
      split
      · exact List.mem_singleton_self _
      · exact List.mem_range'_1.mpr ⟨Nat.le_refl _, Nat.lt_add_of_pos_right (le_markFreeLoop _ _ _ _)⟩
    obtain ⟨d, hmod, hlow, hhigh⟩ := distance_of_heapFreeEntry hi.placed (hinside _ hmem)
    obtain ⟨hentry, hlt⟩ := heapFreeEntry_of_distance hi.placed hmod hlow hhigh
    refine ⟨d, hmod, hlow, hhigh, fun a ha hptr => ?_⟩
    -- the region that starts there would be freed
    obtain ⟨hregion, -⟩ := heapFreeEntry_of_distance hi.placed (p := a.1)
      (d := 4096 * (max d 0 / 4096)) (by omega) (by omega) (by omega)
    have hcongr := heapFree_congr (h := h) (p := p) (q := a.1) (by
      rw [hentry, hregion]
      omega) m
    exact hi.free_counts ha (by rw [← hcongr, hsame])
  · rintro ⟨d, hmod, hlow, hhigh, hnone⟩
    obtain ⟨hentry, hlt⟩ := heapFreeEntry_of_distance hi.placed hmod hlow hhigh
    have hfirst : m (heapFreeEntry h p) &&& heapBlockFirst = 0 := by
      rw [hentry]
      by_contra hfirst
      obtain ⟨a, ha, hptr⟩ := (hi.first_iff hlt).mp hfirst
      exact hnone a ha (by omega)
    refine ⟨fun x hx => ?_, if_pos hfirst⟩
    rw [heapFreeEntries, if_pos hfirst] at hx
    rw [List.mem_singleton.mp hx, hentry]
    omega

/-- **Freeing what is not live.**  In every run of `heap_alloc` and `heap_free` calls from an empty
    table, with any sizes and any pointers: every free of a pointer that is not live stays inside
    the table and changes nothing, if and only if every such pointer aims at no live region.  Every
    address is taken for a block: the distance to the start of the heap is an `int` that is divided
    by the size of a block and truncated, so a pointer into the first block of a live region frees
    the region as its own pointer does. -/
theorem heap_free_ignores_iff {h : Heap} (hp : h.Placed) {st st' : HeapState}
    {tr : List (HeapState × HeapCall × HeapState)} (h0 : (heapCallMachine h).start st)
    (hr : (heapCallMachine h).Run st tr st') :
    (∀ a e b, (a, e, b) ∈ tr → FreeIgnored a e) ↔ (∀ a e b, (a, e, b) ∈ tr → FreeAimed a e) := by
  have hstart : HeapInv st.heap st.mem st.live := by
    obtain ⟨rfl, hcount, hlive, hzero⟩ := h0
    rw [hlive]
    exact HeapInv.start hp hcount hzero
  refine hr.forall_iff_of_invariant (I := fun st => HeapInv st.heap st.mem st.live)
    (P := fun a e _ => FreeIgnored a e) (Q := fun a e _ => FreeAimed a e) ?_ ?_ hstart
  · intro a e b hi _
    cases e with
    | alloc size => exact Iff.rfl
    | free p => exact imp_congr_right fun _ => hi.ignores_iff p
  · intro a e b hi hstep haim
    cases e with
    | alloc size => exact hi.step (e := .alloc size) hstep
    | free p =>
      rcases hstep with ⟨size, hlive⟩ | ⟨hnot, hres, hsame⟩
      · exact hi.step hlive
      · rw [((hi.ignores_iff p).mpr (haim hnot)).unchanged] at hres
        obtain ⟨hheap, hmem⟩ := Prod.mk.inj hres
        rw [← hheap, ← hmem, hsame]
        exact hi

/-- A free of the second block of the kernel's heap, when nothing is live. -/
theorem heap_free_ignores_iff_unused :
    IgnoresFree kernelHeap (fun _ => 0) 0x40181000 := by
  have hfree : heapFree kernelHeap (fun _ => 0) 0x40181000 = (kernelHeap, fun _ => 0) := by
    simp [heapFree]
  have hrun : (heapCallMachine kernelHeap).Run ⟨kernelHeap, fun _ => 0, []⟩
      [(⟨kernelHeap, fun _ => 0, []⟩, .free 0x40181000, ⟨kernelHeap, fun _ => 0, []⟩)]
      ⟨kernelHeap, fun _ => 0, []⟩ :=
    .cons (Or.inr ⟨fun _ h => absurd h List.not_mem_nil, hfree, rfl⟩) (.nil _)
  refine (heap_free_ignores_iff kernelHeap_placed ⟨rfl, rfl, rfl, fun _ _ => rfl⟩ hrun).mpr ?_
    _ _ _ List.mem_cons_self fun _ h => absurd h List.not_mem_nil
  intro a e b hm
  obtain ⟨rfl, hrest⟩ := Prod.mk.inj (List.mem_singleton.mp hm)
  obtain ⟨rfl, -⟩ := Prod.mk.inj hrest
  exact fun _ => ⟨4096, by decide, by decide, by decide, fun _ h => absurd h List.not_mem_nil⟩

/-- A free of the second byte of a live region frees it. -/
theorem heap_free_inside_region : ∃ st st', (heapCallMachine kernelHeap).start st ∧
    (heapCallMachine kernelHeap).Run st [(st, .alloc 4096, st')] st' ∧
    (∀ a ∈ st'.live, a.1 ≠ 0x40180001) ∧ ¬ IgnoresFree st'.heap st'.mem 0x40180001 := by
  obtain ⟨n, mem, hstep⟩ := kernelHeap_alloc_step (show 4096 ≠ 0 by decide) (by decide)
  have h0 : HeapInv (HeapState.mk kernelHeap (fun _ => 0) []).heap
      (HeapState.mk kernelHeap (fun _ => 0) []).mem (HeapState.mk kernelHeap (fun _ => 0) []).live :=
    HeapInv.start kernelHeap_placed rfl (fun _ _ => rfl)
  have hi := HeapInv.step h0 hstep
  refine ⟨⟨kernelHeap, fun _ => 0, []⟩, _, ⟨rfl, rfl, rfl, fun _ _ => rfl⟩,
    .cons hstep (.nil _), List.forall_mem_singleton.mpr (by decide), fun hignores => ?_⟩
  obtain ⟨d, hmod, hlow, hhigh, hnone⟩ := (hi.ignores_iff _).mp hignores
  have hregion := hnone _ List.mem_cons_self
  have hstart : (kernelHeap.setFreeBlocks n).heapStartAddress = 0x40180000 := rfl
  have hblocks : (kernelHeap.setFreeBlocks n).blocks = 0x10000 := rfl
  simp only [hstart, hblocks] at hmod hhigh hregion
  omega

/-! ## A fresh table -/

/-- The heap is empty: no entry is marked, the counter is the number of free entries, and a request
    for all blocks is served. -/
structure EmptyHeap (h : Heap) (m : Mem) : Prop where
  zero : ∀ j < h.blocks, m (h.heap + j) = 0
  count : h.freeBlocks = freeEntries h m
  whole : (heapAlloc h m (4096 * h.blocks)).1 ≠ 0

/-- The loop stores to the first entry, if it runs at all. -/
theorem heapCreatetableLoop_eq (table : Nat) : ∀ (n : Nat) (m : Mem),
    heapCreatetableLoop table (n + 1) m = Function.update m table 0 := by
  intro n
  induction n with
  | zero =>
    intro m
    rfl
  | succ n ih =>
    intro m
    rw [heapCreatetableLoop, ih, Function.update_idem]

/-- `heap_createtable` for at least one block. -/
theorem heapCreatetable_succ (start table n : Nat) (m : Mem) :
    heapCreatetable start table (n + 1) m
      = (⟨start, table, n + 1, n + 1⟩, Function.update m table 0) :=
  Prod.ext rfl (heapCreatetableLoop_eq table n m)

/-- All blocks of a clear table. -/
theorem heapAlloc_whole {h : Heap} {m : Mem} (hstart : 0 < h.heapStartAddress)
    (hfits : h.heapStartAddress < 18446744073709551616) (hblocks : 0 < h.blocks)
    (hzero : ∀ j < h.blocks, m (h.heap + j) = 0) : (heapAlloc h m (4096 * h.blocks)).1 ≠ 0 := by
  have hwant : allocBlocks (4096 * h.blocks) = h.blocks := by
    rw [allocBlocks_eq]
    omega
  have hfree : FreeRun m h.heap h.blocks := by
    intro j hj
    rw [hzero j hj]
    exact not_taken_zero
  obtain ⟨start, hsearch, hle⟩ := heapSearch_first hblocks (Nat.le_refl _) hfree (h.blocks + 1)
    (Nat.le_refl h.heap) (by omega)
  obtain ⟨hge, -, -, -⟩ := heapSearch_some hsearch
  obtain rfl : start = h.heap := by omega
  have haddr : toInt32 (toInt32 ((h.heap - h.heap : Nat) : Int) * 4096) = 0 := by
    rw [Nat.sub_self]
    unfold toInt32
    rfl
  rw [heapAlloc, if_neg (by omega), hwant, hsearch]
  simp only [haddr, Int.add_zero, toSize_natCast hfits]
  omega

/-- **A freshly created heap.**  After `heap_createtable` for `blocks` blocks, over any memory: the
    heap is empty, if and only if there is a block and every entry but the first was zero before.
    The loop that is to clear the table stores to its first entry every time, since it does not move
    on. -/
theorem heap_createtable_empty_iff {start table blocks : Nat} (hstart : 0 < start)
    (hfits : start < 18446744073709551616) (hblocks : blocks < 2147483648) (m : Mem) :
    EmptyHeap (heapCreatetable start table blocks m).1 (heapCreatetable start table blocks m).2 ↔
      0 < blocks ∧ ∀ j, 0 < j → j < blocks → m (table + j) = 0 := by
  cases blocks with
  | zero =>
    -- `heap_alloc(0)` is `NULL`
    refine ⟨fun h => absurd ?_ h.whole, fun h => absurd h.1 (Nat.lt_irrefl 0)⟩
    rw [heapAlloc, if_pos (by rfl)]
  | succ n =>
    rw [heapCreatetable_succ]
    constructor
    · refine fun h => ⟨Nat.succ_pos n, fun j hj hlt => ?_⟩
      have hentry : Function.update m table 0 (table + j) = 0 := h.zero j hlt
      rwa [Function.update_of_ne (by omega)] at hentry
    · rintro ⟨-, hzero⟩
      have hclear : ∀ j < n + 1, Function.update m table 0 (table + j) = 0 := by
        intro j hj
        rcases Nat.eq_zero_or_pos j with rfl | hpos
        · exact Function.update_self ..
        · rw [Function.update_of_ne (by omega)]
          exact hzero j hpos hj
      refine ⟨hclear, ?_, heapAlloc_whole hstart hfits (Nat.succ_pos n) hclear⟩
      exact (freeEntries_of_zero (h := ⟨start, table, n + 1, n + 1⟩) hclear).symm

/-- Cleared memory is a good place for a table. -/
theorem heap_createtable_empty_iff_clear :
    EmptyHeap (heapCreatetable 0x40180000 0x40100000 0x10000 fun _ => 0).1
      (heapCreatetable 0x40180000 0x40100000 0x10000 fun _ => 0).2 :=
  (heap_createtable_empty_iff (by decide) (by decide) (by decide) _).mpr
    ⟨by decide, fun _ _ _ => rfl⟩

/-- The kernel's table on memory that holds 0x80 everywhere: the second block is lost. -/
theorem createtable_keeps_second_entry :
    ¬ EmptyHeap (heapCreatetable 0x40180000 0x40100000 0x10000 fun _ => 0x80).1
      (heapCreatetable 0x40180000 0x40100000 0x10000 fun _ => 0x80).2 := by
  rw [heapCreatetable_succ 0x40180000 0x40100000 0xffff]
  intro h
  have hsecond : Function.update (fun _ => (0x80 : Byte)) 0x40100000 0 (0x40100000 + 1) = 0 :=
    h.zero 1 (by decide)
  rw [Function.update_of_ne (by decide)] at hsecond
  exact absurd hsecond (by decide)

end TinyKernel
