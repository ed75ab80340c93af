/-
  What `heap_alloc` and `heap_free` know: the block table, and nothing else of memory.

  `heapAlloc_congr`: on two memories with the same table `heap_alloc` returns the same address and
  leaves the same table.  There is nothing to unfold for it: first fit determines the place
  (`heapAlloc_fit`), and the least of two equal sets is the same.

  A table from an all-zero start is in turn determined by the regions that are live
  (`Encodes.unique`).  So the heap has no memory of how it came to its regions: two runs that leave
  the same ones, in whatever order they were taken and whatever was freed in between, cannot be told
  apart by any calls that follow (`heap_history_independent`).
-/
import TinyKernel.Alloc.HeapRun

namespace TinyKernel

/-- Two memories with the same table. -/
def SameTable (h : Heap) (m m' : Mem) : Prop := ∀ j, j < h.blocks → m' (h.heap + j) = m (h.heap + j)

section Table

variable {h : Heap} {m m' : Mem}

theorem SameTable.symm (hs : SameTable h m m') : SameTable h m' m := fun j hj => (hs j hj).symm

/-- A free run of one is a free run of the other. -/
theorem SameTable.freeRun (hs : SameTable h m m') {i n : Nat} (hin : i + n ≤ h.blocks)
    (hfree : FreeRun m (h.heap + i) n) : FreeRun m' (h.heap + i) n := by
  intro j hj
  have heq := hs (i + j) (by omega)
  rw [← Nat.add_assoc] at heq
  rw [heq]
  exact hfree j hj

/-- They have the same number of free entries. -/
theorem SameTable.freeEntries_eq (hs : SameTable h m m') : freeEntries h m' = freeEntries h m := by
  refine congrArg Finset.card (Finset.filter_congr fun j hj => ?_)
  rw [hs j (Finset.mem_range.mp hj)]

/-- Marking the same region keeps the tables the same. -/
theorem SameTable.mark (hs : SameTable h m m') {i k : Nat} (hk : 0 < k) :
    SameTable h (markRegionTaken m (h.heap + i) (h.heap + i + k - 1))
      (markRegionTaken m' (h.heap + i) (h.heap + i + k - 1)) := by
  intro j hj
  rw [markRegionTaken_apply m hk, markRegionTaken_apply m' hk, hs j hj]

/-- `heap_alloc` stores to the table only. -/
theorem heapAlloc_outside (hfew : h.blocks ≤ 524288) {size x : Nat}
    (hx : x < h.heap ∨ h.heap + h.blocks ≤ x) : (heapAlloc h m size).2.2 x = m x := by
  by_cases hsize : size = 0
  · rw [heapAlloc, if_pos hsize]
  · rcases heapAlloc_fit hfew m hsize with ⟨-, hnull⟩ | ⟨i, hin, -, -, hres⟩
    · rw [hnull]
    · rw [hres]
      simp only
      rw [markRegionTaken_apply m (allocBlocks_pos hsize), if_neg (by omega)]

/-- **The table is all that `heap_alloc` knows.** -/
theorem heapAlloc_congr (hfew : h.blocks ≤ 524288) (hs : SameTable h m m') (size : Nat) :
    (heapAlloc h m' size).1 = (heapAlloc h m size).1 ∧
    (heapAlloc h m' size).2.1 = (heapAlloc h m size).2.1 ∧
    SameTable h (heapAlloc h m size).2.2 (heapAlloc h m' size).2.2 := by
  by_cases hsize : size = 0
  · rw [heapAlloc, heapAlloc, if_pos hsize, if_pos hsize]
    exact ⟨rfl, rfl, hs⟩
  rcases heapAlloc_fit hfew m hsize with ⟨hnone, hnull⟩ | ⟨i, hin, hfree, hleast, hres⟩
  · rcases heapAlloc_fit hfew m' hsize with ⟨-, hnull'⟩ | ⟨i', hin', hfree', -, -⟩
    · rw [hnull, hnull']
      exact ⟨rfl, rfl, hs⟩
    · exact absurd (hs.symm.freeRun hin' hfree') (hnone i' hin')
  · rcases heapAlloc_fit hfew m' hsize with ⟨hnone', -⟩ | ⟨i', hin', hfree', hleast', hres'⟩
    · exact absurd (hs.freeRun hin hfree) (hnone' i hin)
    · -- each place is the first one, also on the other memory
      have h1 := hleast i' hin' (hs.symm.freeRun hin' hfree')
      have h2 := hleast' i hin (hs.freeRun hin hfree)
      obtain rfl : i = i' := Nat.le_antisymm h1 h2
      rw [hres, hres']
      exact ⟨rfl, rfl, hs.mark (allocBlocks_pos hsize)⟩

end Table

/-! ## The heap has no memory of its past -/

/-- The pointer that a call of the heap returns, 0 for `heap_free`. -/
def HeapState.answer (st : HeapState) : HeapEvent → Nat
  | .alloc size => (heapAlloc st.heap st.mem size).1
  | .free _ _ => 0

/-- The invariant of a run, with the layout of the heap that it started from. -/
structure HeapOf (h : Heap) (st : HeapState) : Prop where
  inv : HeapInv st.heap st.mem st.live
  layout : st.heap = h.setFreeBlocks st.heap.freeBlocks

/-- The same regions are live. -/
structure SameRegions (h : Heap) (a b : HeapState) : Prop where
  left : HeapOf h a
  right : HeapOf h b
  live : b.live.Perm a.live

section History

variable {h : Heap} {a b a' : HeapState}

theorem heapAlloc_layout (h : Heap) (m : Mem) (size : Nat) :
    (heapAlloc h m size).2.1 = h.setFreeBlocks (heapAlloc h m size).2.1.freeBlocks := by
  unfold heapAlloc
  split
  · rfl
  · split <;> rfl

theorem heapFree_layout (h : Heap) (m : Mem) (p : Nat) :
    (heapFree h m p).1 = h.setFreeBlocks (heapFree h m p).1.freeBlocks := by
  unfold heapFree
  dsimp only
  split <;> rfl

/-- A call keeps the layout. -/
theorem HeapStep.layout {e : HeapEvent} (hstep : HeapStep a e a') :
    a'.heap = a.heap.setFreeBlocks a'.heap.freeBlocks := by
  cases e with
  | alloc size =>
    obtain ⟨p, hres, -⟩ := hstep
    have hlayout := heapAlloc_layout a.heap a.mem size
    rwa [hres] at hlayout
  | free p size =>
    obtain ⟨-, hres, -⟩ := hstep
    have hlayout := heapFree_layout a.heap a.mem p
    rwa [hres] at hlayout

theorem HeapOf.step (hi : HeapOf h a) {e : HeapEvent} (hstep : HeapStep a e a') : HeapOf h a' := by
  refine ⟨hi.inv.step hstep, ?_⟩
  calc a'.heap = a.heap.setFreeBlocks a'.heap.freeBlocks := hstep.layout
    _ = (h.setFreeBlocks a.heap.freeBlocks).setFreeBlocks a'.heap.freeBlocks := by rw [← hi.layout]
    _ = h.setFreeBlocks a'.heap.freeBlocks := rfl

theorem HeapOf.reach (hp : h.Placed) (hr : (heapMachine h).Reach a) : HeapOf h a := by
  refine hr.invariant (I := HeapOf h) ?_ fun _ _ _ hi hstep => hi.step hstep
  rintro ⟨heap, mem, live⟩ ⟨rfl, hcount, rfl, hzero⟩
  exact ⟨HeapInv.start hp hcount hzero, rfl⟩

namespace SameRegions

theorem table (hs : SameRegions h a b) : SameTable a.heap a.mem b.mem := by
  have hb := hs.right.inv.encodes
  rw [hs.right.layout] at hb
  have ha := hs.left.inv.encodes
  rw [hs.left.layout] at ha ⊢
  exact ha.unique hb hs.live

/-- Counter and layout are the same too. -/
theorem heap (hs : SameRegions h a b) : b.heap = a.heap := by
  have hcount : freeEntries b.heap b.mem = freeEntries a.heap b.mem := by
    rw [hs.right.layout, hs.left.layout]
    rfl
  have hfree : b.heap.freeBlocks = a.heap.freeBlocks := by
    rw [hs.right.inv.count, hs.left.inv.count, hcount, hs.table.freeEntries_eq]
  rw [hs.right.layout, hs.left.layout, hfree]

/-- **The next call** returns the same pointer, and the same regions are live again. -/
theorem step (hs : SameRegions h a b) {e : HeapEvent} (hstep : HeapStep a e a') :
    ∃ b', HeapStep b e b' ∧ SameRegions h a' b' ∧ b.answer e = a.answer e := by
  have hleft := hs.left.step hstep
  cases e with
  | alloc size =>
    obtain ⟨p, hres, hlive⟩ := hstep
    obtain ⟨hptr, -, -⟩ := heapAlloc_congr hs.left.inv.placed.few hs.table size
    rw [← hs.heap] at hptr
    have hp : (heapAlloc b.heap b.mem size).1 = p := by
      rw [hptr, hs.heap, hres]
    have hstep' : HeapStep b (.alloc size) ⟨(heapAlloc b.heap b.mem size).2.1,
        (heapAlloc b.heap b.mem size).2.2, if p = 0 then b.live else (p, size) :: b.live⟩ :=
      ⟨p, Prod.ext hp rfl, rfl⟩
    refine ⟨_, hstep', ⟨hleft, hs.right.step hstep', ?_⟩, ?_⟩
    · rw [hlive]
      show (if p = 0 then b.live else (p, size) :: b.live).Perm _
      split
      · exact hs.live
      · exact hs.live.cons _
    · show (heapAlloc b.heap b.mem size).1 = (heapAlloc a.heap a.mem size).1
      rw [hp, hres]
  | free p size =>
    obtain ⟨hmem, hres, hlive⟩ := hstep
    have hstep' : HeapStep b (.free p size) ⟨(heapFree b.heap b.mem p).1,
        (heapFree b.heap b.mem p).2, b.live.erase (p, size)⟩ :=
      ⟨hs.live.mem_iff.mpr hmem, rfl, rfl⟩
    refine ⟨_, hstep', ⟨hleft, hs.right.step hstep', ?_⟩, rfl⟩
    rw [hlive]
    exact hs.live.erase _

end SameRegions

end History

/-- **No memory of the past.**  Two runs of the heap from an all-zero table that leave the same
    regions live, however they came to them, leave the same table and the same count of free blocks;
    and whatever calls follow, both heaps answer every one of them with the same pointer. -/
theorem heap_history_independent {h : Heap} (hp : h.Placed) {a b : HeapState}
    (ha : (heapMachine h).Reach a) (hb : (heapMachine h).Reach b) (hlive : b.live.Perm a.live) :
    (∀ j, j < h.blocks → b.mem (h.heap + j) = a.mem (h.heap + j)) ∧
    b.heap.freeBlocks = a.heap.freeBlocks ∧
    ∀ tr a', (heapMachine h).Run a tr a' → ∃ tr' b', (heapMachine h).Run b tr' b' ∧
      tr'.map (fun (st, e, _) => (e, st.answer e)) = tr.map (fun (st, e, _) => (e, st.answer e)) ∧
      b'.live.Perm a'.live := by
  have hs : SameRegions h a b := ⟨HeapOf.reach hp ha, HeapOf.reach hp hb, hlive⟩
  refine ⟨?_, congrArg Heap.freeBlocks hs.heap, fun tr a' hr => ?_⟩
  · have htable := hs.table
    rw [hs.left.layout] at htable
    exact htable
  · obtain ⟨tr', b', hr', hs', hmap⟩ := hr.follow (N := heapMachine h) (R := SameRegions h)
      (f := HeapState.answer) (g := HeapState.answer)
      (fun _ _ _ _ hR hstep => hR.step hstep) hs
    exact ⟨tr', b', hr', hmap, hs'.live⟩

/-- A page that was taken and given back leaves no trace. -/
theorem heap_history_independent_freed : ∃ h a b c, (heapMachine h).Reach a ∧
    HeapStep a (.alloc 4096) b ∧ b.live = [(0x40180000, 4096)] ∧
    HeapStep b (.free 0x40180000 4096) c ∧ c.heap.freeBlocks = a.heap.freeBlocks := by
  let h : Heap := ⟨0x40180000, 0x40100000, 0x10000, 0x10000⟩
  have hp : h.Placed := ⟨by decide, by decide, by decide, by decide⟩
  have ha : (heapMachine h).Reach ⟨h, fun _ => 0, []⟩ := .start ⟨rfl, rfl, rfl, fun _ _ => rfl⟩
  rcases heapAlloc_first hp (fun _ => 0) (show (4096 : Nat) ≠ 0 by decide) with
    ⟨hnone, -⟩ | ⟨i, -, -, hleast, hres⟩
  · exact absurd (fun _ _ => not_taken_zero) (hnone 0 (by decide))
  obtain rfl : i = 0 := Nat.le_zero.mp (hleast 0 (by decide) fun _ _ => not_taken_zero)
  have haddr : h.heapStartAddress + 4096 * 0 = 0x40180000 := by decide
  rw [haddr] at hres
  generalize h.setFreeBlocks _ = heap, markRegionTaken _ _ _ = mem at hres
  have hstep : HeapStep ⟨h, fun _ => 0, []⟩ (.alloc 4096) ⟨heap, mem, [(0x40180000, 4096)]⟩ :=
    ⟨0x40180000, hres, (if_neg (by decide)).symm⟩
  have hback : ∀ heap mem, HeapStep ⟨heap, mem, [(0x40180000, 4096)]⟩ (.free 0x40180000 4096)
      ⟨(heapFree heap mem 0x40180000).1, (heapFree heap mem 0x40180000).2, []⟩ := fun heap mem =>
    ⟨List.mem_cons_self, rfl, (List.erase_cons_head ..).symm⟩
  have hb : (heapMachine h).Reach ⟨heap, mem, [(0x40180000, 4096)]⟩ :=
    ha.step (e := HeapEvent.alloc 4096) hstep
  have hc := hb.step (e := HeapEvent.free 0x40180000 4096) (hback heap mem)
  exact ⟨h, _, _, _, ha, hstep, rfl, hback _ _,
    (heap_history_independent hp ha hc (List.Perm.refl [])).2.1⟩

end TinyKernel
