/-
  What a client of the kernel heap has taken, and whether it gave it back.

  `HeapWith before st own` says that the heap `st` is the heap `before` with the regions `own`
  handed out besides: in the list of live regions, in `free_blocks` and in the marks of the table.
  A client that can list its regions has given all of them back exactly if the list is empty
  (`HeapWith.givesBack_iff`).

  Every `kalloc` keeps the relation (`HeapWith.kalloc`), and so does a `kfree` of a region of ONE
  block (`HeapWith.kfree`).  A larger region may hold a stray LAST, since nobody clears the table,
  and then `heap_free` stops early and leaves TAKEN entries behind.

  `kfree(NULL)` is not a no-op: it looks at a byte 256 KiB below the table (`kfree_null_iff`).
-/
import TinyKernel.Alloc.HeapCalls
import TinyKernel.Alloc.Kalloc

namespace TinyKernel

/-! ## Giving back -/

/-- The heap is as it was before: the same regions are live, as many blocks are counted free, and
    the same entries of the table are TAKEN. -/
structure GivesBack (before after : HeapState) : Prop where
  live : ∀ a, a ∈ after.live ↔ a ∈ before.live
  freeBlocks : after.heap.freeBlocks = before.heap.freeBlocks
  taken : ∀ i < 0x10000,
    Taken (after.mem (0x40100000 + i)) ↔ Taken (before.mem (0x40100000 + i))

/-- `kfree(p)` frees a region that was handed out after `before`, or frees nothing. -/
def FreesOwn (before st : HeapState) (p : Nat) : Prop :=
  (∃ size, (p, size) ∈ st.live ∧ (p, size) ∉ before.live) ∨
    heapFree st.heap st.mem p = (st.heap, st.mem)

/-- `heap_free(NULL)` finds no mark in the byte that it looks at. -/
def IgnoresNull (st : HeapState) : Prop := st.mem 0x400bfe80 &&& heapBlockFirst = 0

/-- The heap cannot serve the request: it asks for nothing, or there is no run of free blocks. -/
def NoRoom (st : HeapState) (size : Nat) : Prop :=
  size = 0 ∨ ∀ i, ¬ FreeAt st.heap st.mem (allocBlocks size) i

/-- Block number `i` belongs to the region. -/
def InRegion (a : Nat × Nat) (i : Nat) : Prop :=
  a.1 ≤ 0x40180000 + 4096 * i ∧ 0x40180000 + 4096 * i < a.1 + 4096 * allocBlocks a.2

/-- `free_blocks` is a `size_t`. -/
def HeapState.Bounded (st : HeapState) : Prop := st.heap.freeBlocks < 18446744073709551616

/-- The results of `kalloc` that are not `NULL`. -/
def nonNull (own : List (Nat × Nat)) : List (Nat × Nat) := own.filter (·.1 ≠ 0)

/-- The heap `st` is `before` with the regions `own`, of which some may be `NULL`, handed out
    besides. -/
structure HeapWith (before st : HeapState) (own : List (Nat × Nat)) : Prop where
  bounded : before.Bounded
  inv : KernelHeapInv st
  live : st.live.Perm (nonNull own ++ before.live)
  count : st.heap.freeBlocks = toSize ((before.heap.freeBlocks : Int)
    - ((nonNull own).map (fun a => allocBlocks a.2)).sum)
  taken : ∀ i < 0x10000, Taken (st.mem (0x40100000 + i)) ↔
    Taken (before.mem (0x40100000 + i)) ∨ ∃ a ∈ nonNull own, InRegion a i
  fresh : ∀ a ∈ nonNull own, ∀ i < 0x10000, InRegion a i → ¬ Taken (before.mem (0x40100000 + i))
  below : ∀ x < 0x40100000, st.mem x = before.mem x

theorem nonNull_cons_null (size : Nat) (own : List (Nat × Nat)) :
    nonNull ((0, size) :: own) = nonNull own := List.filter_cons_of_neg (by simp)

theorem nonNull_cons {a : Nat × Nat} (ha : a.1 ≠ 0) (own : List (Nat × Nat)) :
    nonNull (a :: own) = a :: nonNull own := List.filter_cons_of_pos (decide_eq_true ha)

theorem mem_nonNull {a : Nat × Nat} {own : List (Nat × Nat)} :
    a ∈ nonNull own ↔ a ∈ own ∧ a.1 ≠ 0 := by
  rw [nonNull, List.mem_filter, decide_eq_true_iff]

/-! ## Single calls -/

/-- `kalloc` returns `NULL` exactly if there is no room. -/
theorem KernelHeapInv.kalloc_null_iff {st : HeapState} (h : KernelHeapInv st) (size : Nat) :
    (st.kalloc size).1 = 0 ↔ NoRoom st size := by
  by_cases hsize : size = 0
  · subst hsize
    rw [HeapState.kalloc_zero]
    exact ⟨fun _ => Or.inl rfl, fun _ => rfl⟩
  rcases heapAlloc_first h.holds.placed st.mem hsize with
    ⟨hnone, hnull⟩ | ⟨i, hin, hfree, -, hres⟩
  · refine ⟨fun _ => Or.inr fun i hi => hnone i hi.1 hi.2, fun _ => ?_⟩
    simp only [HeapState.kalloc, hnull]
  · have hpos := h.holds.placed.start_pos
    constructor
    · intro hnull
      simp only [HeapState.kalloc, hres] at hnull
      omega
    · rintro (hzero | hnone)
      · exact absurd hzero hsize
      · exact absurd ⟨hin, hfree⟩ (hnone i)

/-- `NULL`, and nothing has changed. -/
theorem KernelHeapInv.kalloc_unchanged {st : HeapState} (h : KernelHeapInv st) {size : Nat}
    (hnull : (st.kalloc size).1 = 0) : (st.kalloc size).2 = st := by
  by_cases hsize : size = 0
  · rw [hsize, HeapState.kalloc_zero]
  · rcases h.kalloc_cases hsize with heq | ⟨p, st', heq, hne, -⟩
    · rw [heq]
    · rw [heq] at hnull
      exact absurd hnull hne

/-- What a `kalloc` that succeeds does to the counter and the table. -/
theorem KernelHeapInv.kalloc_marks {st : HeapState} (h : KernelHeapInv st) {size : Nat}
    (hne : (st.kalloc size).1 ≠ 0) : ∃ k, (st.kalloc size).1 = 0x40180000 + 4096 * k ∧
      0 < allocBlocks size ∧ k + allocBlocks size ≤ 0x10000 ∧
      FreeRun st.mem (0x40100000 + k) (allocBlocks size) ∧
      (st.kalloc size).2.heap.freeBlocks = toSize ((st.heap.freeBlocks : Int) - allocBlocks size) ∧
      (st.kalloc size).2.mem
        = markRegionTaken st.mem (0x40100000 + k) (0x40100000 + k + allocBlocks size - 1) := by
  have hsize : size ≠ 0 := by
    rintro rfl
    rw [HeapState.kalloc_zero] at hne
    exact hne rfl
  rcases heapAlloc_first h.holds.placed st.mem hsize with
    ⟨-, hnull⟩ | ⟨k, hin, hfree, -, hres⟩
  · simp only [HeapState.kalloc, hnull, ne_eq, not_true_eq_false] at hne
  rw [h.start, h.table] at hres
  rw [h.table] at hfree
  rw [h.blocks] at hin
  refine ⟨k, ?_, allocBlocks_pos hsize, hin, hfree, ?_, ?_⟩
  · simp only [HeapState.kalloc, hres]
  · simp only [HeapState.kalloc, hres, Heap.setFreeBlocks_freeBlocks]
  · simp only [HeapState.kalloc, hres]

/-- Clearing never goes back. -/
theorem markFreeLoop_below : ∀ (room block freed : Nat) (m : Mem) (x : Nat), x < block →
    (markFreeLoop room block freed m).2 x = m x := by
  intro room
  induction room with
  | zero =>
    intro block freed m x _
    rfl
  | succ room ih =>
    intro block freed m x hx
    rw [markFreeLoop]
    split
    · rw [ih (block + 1) (freed + 1) (Function.update m block 0) x (by omega),
        Function.update_of_ne (by omega)]
    · exact Function.update_of_ne (by omega) _ _

/-- Clearing clears the entry that it begins with. -/
theorem markFreeLoop_first (room block freed : Nat) (m : Mem) :
    (markFreeLoop (room + 1) block freed m).2 block = 0 := by
  rw [markFreeLoop]
  split
  · rw [markFreeLoop_below room (block + 1) (freed + 1) _ block (Nat.lt_succ_self block)]
    exact Function.update_self ..
  · exact Function.update_self ..

/-- **`heap_free(NULL)`** frees nothing exactly if the byte at 0x400bfe80 is not marked FIRST: the
    distance to the heap is negative, and the table is entered 0x40180 bytes before its start. -/
theorem KernelHeapInv.kfree_null_iff {st : HeapState} (h : KernelHeapInv st) :
    heapFree st.heap st.mem 0 = (st.heap, st.mem) ↔ IgnoresNull st := by
  have hentry : heapFreeEntry st.heap 0 = 0x400bfe80 := by
    rw [heapFreeEntry, h.start, h.table]
    decide +kernel
  unfold heapFreeEntry at hentry
  simp only [heapFree, hentry]
  constructor
  · intro hsame
    by_contra hfirst
    have hfirst' : ¬ st.mem 0x400bfe80 &&& heapBlockFirst = 0 := hfirst
    rw [if_neg hfirst'] at hsame
    -- the byte is cleared, and it was not clear
    have hbyte : (markRegionFree st.mem 0x400bfe80).2 0x400bfe80 = 0 := by
      obtain ⟨room, hroom⟩ : ∃ room, 18446744073709551616 - 0x400bfe80 = room + 1 :=
        Nat.exists_eq_add_one.mpr (by omega)
      rw [markRegionFree, hroom]
      exact markFreeLoop_first room 0x400bfe80 1 st.mem
    rw [(Prod.mk.inj hsame).2] at hbyte
    exact hfirst' (by rw [hbyte]; decide)
  · exact fun hignores => if_pos hignores

/-- The ghost list has no region at `NULL`. -/
theorem KernelHeapInv.kfree_null {st : HeapState} (h : KernelHeapInv st) (hnull : IgnoresNull st) :
    st.kfree 0 = st := by
  have hlive : st.live.filter (·.1 ≠ 0) = st.live := by
    refine List.filter_eq_self.mpr fun a ha => decide_eq_true ?_
    have := (h.inside ha).1
    omega
  have hfree := h.kfree_null_iff.mpr hnull
  simp only [HeapState.kfree, hfree, hlive]

/-- `heap_free` of a region of one block. -/
theorem heapFree_single {h : Heap} (hp : h.Placed) {m : Mem} {i : Nat} (hr : RegionMarked h m i 1) :
    heapFree h m (h.heapStartAddress + 4096 * i)
      = (h.setFreeBlocks (toSize (h.freeBlocks + 1)), Function.update m (h.heap + i) 0) := by
  have hin := hr.inside
  have hfits := hp.table_fits
  obtain ⟨room, hroom⟩ : ∃ room, 18446744073709551616 - (h.heap + i) = room + 1 :=
    Nat.exists_eq_add_one.mpr (by omega)
  have hlast : ¬ m (h.heap + i) &&& heapBlockLast = 0 := hr.last
  have hmark : markRegionFree m (h.heap + i) = (1, Function.update m (h.heap + i) 0) := by
    rw [markRegionFree, hroom, markFreeLoop, if_neg hlast]
  have hone : toInt32 ((1 : Nat) : Int) = 1 := by
    unfold toInt32
    rfl
  rw [heapFree_block hp (by omega) hr.first, hmark, hone]

theorem toSize_lt (x : Int) : toSize x < 18446744073709551616 := by
  unfold toSize
  omega

theorem heapAlloc_bounded {h : Heap} (hb : h.freeBlocks < 18446744073709551616) (m : Mem)
    (size : Nat) : (heapAlloc h m size).2.1.freeBlocks < 18446744073709551616 := by
  unfold heapAlloc
  split
  · exact hb
  · split
    · exact hb
    · exact toSize_lt _

theorem heapFree_bounded {h : Heap} (hb : h.freeBlocks < 18446744073709551616) (m : Mem)
    (p : Nat) : (heapFree h m p).1.freeBlocks < 18446744073709551616 := by
  simp only [heapFree]
  split
  · exact hb
  · exact toSize_lt _

namespace HeapState.Bounded

variable {st st' : HeapState}

theorem step (hb : st.Bounded) {e : HeapEvent} (hstep : HeapStep st e st') : st'.Bounded := by
  cases e with
  | alloc size =>
    obtain ⟨p, hres, -⟩ := hstep
    have hlt := heapAlloc_bounded hb st.mem size
    rw [hres] at hlt
    exact hlt
  | free p size =>
    obtain ⟨-, hres, -⟩ := hstep
    have hlt := heapFree_bounded hb st.mem p
    rw [hres] at hlt
    exact hlt

theorem kalloc (hb : st.Bounded) (size : Nat) : (st.kalloc size).2.Bounded :=
  hb.step (st.kalloc_step size)

theorem kfree (hb : st.Bounded) (p : Nat) : (st.kfree p).Bounded := heapFree_bounded hb st.mem p

/-- The counter fits, from `setup_heap` on. -/
theorem reach (hr : kernelHeapMachine.Reach st) : st.Bounded := by
  refine hr.invariant (I := HeapState.Bounded) ?_ fun _ _ _ hb hstep => hb.step hstep
  rintro st ⟨⟨m, hsetup⟩, -⟩
  have hheap : st.heap = kernelHeap := by rw [← setupHeap_fst m, hsetup]
  show st.heap.freeBlocks < _
  rw [hheap]
  decide

end HeapState.Bounded

/-- What a `kfree` of a live region of one block does to the counter and the table. -/
theorem KernelHeapInv.kfree_marks {st : HeapState} (h : KernelHeapInv st) {a : Nat × Nat}
    (ha : a ∈ st.live) (hone : allocBlocks a.2 = 1) : ∃ k, a.1 = 0x40180000 + 4096 * k ∧
      (st.kfree a.1).heap.freeBlocks = toSize (st.heap.freeBlocks + 1) ∧
      (st.kfree a.1).mem = Function.update st.mem (0x40100000 + k) 0 := by
  obtain ⟨k, hptr, hmark⟩ := h.holds.marked a ha
  rw [hone] at hmark
  have hfree := heapFree_single h.holds.placed hmark
  rw [← hptr, h.table] at hfree
  rw [h.start] at hptr
  refine ⟨k, hptr, ?_, ?_⟩
  · simp only [HeapState.kfree, hfree, Heap.setFreeBlocks_freeBlocks]
  · simp only [HeapState.kfree, hfree]

/-! ## Taking and giving back -/

namespace HeapWith

variable {before st : HeapState} {own rest : List (Nat × Nat)} {a : Nat × Nat}

/-- Nothing has been taken yet. -/
theorem start (h : KernelHeapInv st) (hbounded : st.Bounded) : HeapWith st st [] where
  bounded := hbounded
  inv := h
  live := List.Perm.refl _
  count := by
    show _ = toSize ((st.heap.freeBlocks : Int) - 0)
    rw [Int.sub_zero, toSize_natCast hbounded]
  taken := fun i _ => ⟨Or.inl, fun h => h.resolve_right fun ⟨_, ha, _⟩ => List.not_mem_nil ha⟩
  fresh := fun a ha => absurd ha List.not_mem_nil
  below := fun _ _ => rfl

/-- The order of the regions does not matter. -/
theorem perm (h : HeapWith before st own) (hperm : own.Perm rest) : HeapWith before st rest := by
  have hown : (nonNull own).Perm (nonNull rest) := hperm.filter _
  refine ⟨h.bounded, h.inv, h.live.trans (hown.append_right _), ?_, fun i hi => ?_, fun a ha => ?_,
    h.below⟩
  · rw [h.count, (hown.map _).sum_eq]
  · rw [h.taken i hi]
    exact or_congr_right (exists_congr fun a => and_congr_left' hown.mem_iff)
  · exact h.fresh a (hown.mem_iff.mpr ha)

/-- A region that was taken is live, and was not before. -/
theorem mem_live (h : HeapWith before st own) (ha : a ∈ own) (hne : a.1 ≠ 0) :
    a ∈ st.live ∧ a ∉ before.live := by
  have hmem : a ∈ nonNull own := mem_nonNull.mpr ⟨ha, hne⟩
  refine ⟨h.live.mem_iff.mpr (List.mem_append_left _ hmem), fun hbefore => ?_⟩
  have hnodup := h.live.nodup_iff.mp h.inv.holds.nodup
  exact (List.nodup_append.mp hnodup).2.2 a hmem a hbefore rfl

/-- To free it is right. -/
theorem freesOwn (h : HeapWith before st own) (ha : a ∈ own) (hne : a.1 ≠ 0) :
    FreesOwn before st a.1 := Or.inl ⟨a.2, h.mem_live ha hne⟩

/-- The list has no region twice. -/
theorem nodup (h : HeapWith before st own) : (nonNull own ++ before.live).Nodup :=
  h.live.nodup_iff.mp h.inv.holds.nodup

/-- Two regions do not share a block. -/
theorem blocks_apart (h : HeapWith before st (a :: rest)) (ha : a.1 ≠ 0) {b : Nat × Nat}
    (hb : b ∈ nonNull rest) {i : Nat} (hreg : InRegion a i) : ¬ InRegion b i := by
  have hnodup := h.nodup
  rw [nonNull_cons ha, List.cons_append] at hnodup
  have hne : b ≠ a := by
    rintro rfl
    exact (List.nodup_cons.mp hnodup).1 (List.mem_append_left _ hb)
  obtain ⟨hbmem, hb0⟩ := mem_nonNull.mp hb
  have halive := (h.mem_live List.mem_cons_self ha).1
  have hblive := (h.mem_live (List.mem_cons_of_mem _ hbmem) hb0).1
  have hsymm : Std.Symm RegionsApart := ⟨fun _ _ hab => hab.symm⟩
  have hapart := h.inv.holds.apart.forall hblive halive hne
  unfold RegionsApart at hapart
  rw [regionBytes_eq, regionBytes_eq] at hapart
  unfold InRegion at hreg ⊢
  omega

/-- A `NULL` is no region. -/
theorem null (h : HeapWith before st own) (size : Nat) : HeapWith before st ((0, size) :: own) := by
  have hsame := nonNull_cons_null size own
  exact ⟨h.bounded, h.inv, hsame ▸ h.live, hsame ▸ h.count, hsame ▸ h.taken, hsame ▸ h.fresh,
    h.below⟩

/-- **`kalloc` takes a region**, or gets `NULL`. -/
theorem kalloc (h : HeapWith before st own) (size : Nat) :
    HeapWith before (st.kalloc size).2 (((st.kalloc size).1, size) :: own) := by
  by_cases hnull : (st.kalloc size).1 = 0
  · rw [h.inv.kalloc_unchanged hnull, hnull]
    exact h.null size
  have hlive := st.kalloc_live size
  rw [if_neg hnull] at hlive
  obtain ⟨k, hptr, hpos, hin, hfree, hcount, hmem⟩ := h.inv.kalloc_marks hnull
  have hregion : ∀ i, InRegion ((st.kalloc size).1, size) i ↔ k ≤ i ∧ i < k + allocBlocks size := by
    intro i
    unfold InRegion
    dsimp only
    omega
  refine ⟨h.bounded, h.inv.kalloc_inv size, ?_, ?_, fun i hi => ?_, fun a ha i hi hreg => ?_,
    fun x hx => ?_⟩
  · rw [hlive, nonNull_cons hnull]
    exact h.live.cons _
  · rw [hcount, h.count, nonNull_cons hnull, List.map_cons, List.sum_cons]
    unfold toSize
    push_cast
    omega
  · rw [hmem, markRegionTaken_apply st.mem hpos, nonNull_cons hnull]
    simp only [List.mem_cons, exists_eq_or_imp]
    rw [hregion i]
    by_cases hk : k ≤ i ∧ i < k + allocBlocks size
    · rw [if_pos (by omega)]
      exact ⟨fun _ => Or.inr (Or.inl hk), fun _ => taken_or_regionTag _ _ _ _⟩
    · rw [if_neg (by omega), h.taken i hi]
      exact or_congr_right (or_iff_right hk).symm
  · rw [nonNull_cons hnull] at ha
    rcases List.mem_cons.mp ha with rfl | ha
    · -- `kalloc` took free blocks
      obtain ⟨hki, hik⟩ := (hregion i).mp hreg
      have hfree' := hfree (i - k) (by omega)
      rw [show 0x40100000 + k + (i - k) = 0x40100000 + i by omega, h.taken i hi] at hfree'
      exact fun ht => hfree' (Or.inl ht)
    · exact h.fresh a ha i hi hreg
  · rw [hmem, markRegionTaken_apply st.mem hpos, if_neg (by omega)]
    exact h.below x hx

/-- The live regions after a `kfree`. -/
theorem kfree_live (h : HeapWith before st (a :: rest)) (ha : a.1 ≠ 0) :
    (st.kfree a.1).live.Perm (nonNull rest ++ before.live) := by
  have hperm := h.live
  have hnodup := h.nodup
  rw [nonNull_cons ha, List.cons_append] at hperm hnodup
  have hfiltered := hperm.filter (fun b => b.1 ≠ a.1)
  rw [List.filter_cons_of_neg (by simp)] at hfiltered
  rw [HeapState.kfree_live]
  refine hfiltered.trans (List.Perm.of_eq (List.filter_eq_self.mpr fun b hb => decide_eq_true ?_))
  intro heq
  -- no other live region has this address
  have hb' : b ∈ st.live := hperm.mem_iff.mpr (List.mem_cons_of_mem _ hb)
  obtain rfl := h.inv.holds.eq_of_ptr hb' (h.mem_live List.mem_cons_self ha).1 heq
  exact (List.nodup_cons.mp hnodup).1 hb

/-- **`kfree` gives back a region** of one block. -/
theorem kfree (h : HeapWith before st own) (hown : own.Perm (a :: rest)) (ha : a.1 ≠ 0)
    (hone : allocBlocks a.2 = 1) : HeapWith before (st.kfree a.1) rest := by
  have h' := h.perm hown
  have hlive := (h'.mem_live List.mem_cons_self ha).1
  obtain ⟨k, hptr, hcount, hmem⟩ := h.inv.kfree_marks hlive hone
  have hregion : ∀ i, InRegion a i ↔ i = k := by
    intro i
    unfold InRegion
    omega
  refine ⟨h.bounded, h.inv.kfree_inv hlive, h'.kfree_live ha, ?_, fun i hi => ?_, fun b hb => ?_,
    fun x hx => ?_⟩
  · rw [hcount, h'.count, nonNull_cons ha, List.map_cons, List.sum_cons, hone]
    unfold toSize
    push_cast
    omega
  · rw [hmem]
    by_cases hk : i = k
    · -- the entry is cleared, and it was free before
      have hfresh := h'.fresh a (mem_nonNull.mpr ⟨List.mem_cons_self, ha⟩) i hi
        ((hregion i).mpr hk)
      rw [hk] at hfresh ⊢
      rw [Function.update_self]
      refine ⟨fun ht => absurd ht not_taken_zero, ?_⟩
      rintro (ht | ⟨b, hb, hreg⟩)
      · exact absurd ht hfresh
      · exact absurd hreg (h'.blocks_apart ha hb ((hregion k).mpr rfl))
    · rw [Function.update_of_ne (by omega), h'.taken i hi, nonNull_cons ha]
      simp only [List.mem_cons, exists_eq_or_imp]
      rw [hregion i]
      exact or_congr_right (or_iff_right hk)
  · exact h'.fresh b (by rw [nonNull_cons ha]; exact List.mem_cons_of_mem _ hb)
  · rw [hmem, Function.update_of_ne (by omega)]
    exact h.below x hx

/-- The byte that `kfree(NULL)` looks at is not an entry of the table. -/
theorem ignoresNull_iff (h : HeapWith before st own) : IgnoresNull st ↔ IgnoresNull before := by
  unfold IgnoresNull
  rw [h.below _ (by decide)]

/-- `kfree(NULL)` frees no region of the client. -/
theorem freesOwn_null_iff (h : HeapWith before st own) :
    FreesOwn before st 0 ↔ IgnoresNull before := by
  rw [← h.ignoresNull_iff, ← h.inv.kfree_null_iff]
  refine or_iff_right fun ⟨size, hlive, _⟩ => ?_
  have := (h.inv.inside hlive).1
  omega

/-- A `kfree(NULL)` that is ignored. -/
theorem kfree_null (h : HeapWith before st own) (hnull : IgnoresNull before) : st.kfree 0 = st :=
  h.inv.kfree_null (h.ignoresNull_iff.mpr hnull)

/-- **Everything is given back** exactly if nothing is left on the list. -/
theorem givesBack_iff (h : HeapWith before st own) :
    GivesBack before st ↔ ∀ a ∈ own, a.1 = 0 := by
  constructor
  · intro hback a ha
    by_contra hne
    obtain ⟨hlive, hnot⟩ := h.mem_live ha hne
    exact hnot ((hback.live a).mp hlive)
  · intro hnone
    have hnil : nonNull own = [] :=
      List.filter_eq_nil_iff.mpr fun a ha => by simp [hnone a ha]
    have hlive := h.live
    have hcount := h.count
    have htaken := h.taken
    rw [hnil] at hlive hcount htaken
    refine ⟨fun a => hlive.mem_iff, ?_, fun i hi => (htaken i hi).trans ?_⟩
    · rw [hcount]
      show toSize ((before.heap.freeBlocks : Int) - 0) = _
      rw [Int.sub_zero, toSize_natCast h.bounded]
    · exact or_iff_left fun ⟨_, ha, _⟩ => List.not_mem_nil ha

end HeapWith

end TinyKernel
