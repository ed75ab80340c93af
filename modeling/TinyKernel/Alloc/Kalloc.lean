/-
  `kalloc` and `kfree`, `kernel/sysutils.c`: the kernel's one heap, as its clients call it.

  The two functions keep the ghost list `live` of `HeapState`, the regions that were handed out
  and not given back.  Their clients need three facts, and none of the table:

  * `kalloc` of a positive size either returns `NULL` and changes nothing, or returns the address
    of a region that is apart from every live one (`kalloc_cases`), and `kalloc(0)` is `NULL`;
  * `kfree` of a live region takes exactly that region off the list (`kfree_inv`);
  * both keep `KernelHeapInv`, whatever the table memory held at boot.
-/
import TinyKernel.Alloc.KernelHeap

namespace TinyKernel

namespace HeapState

/-- `kalloc`: the address, 0 for `NULL`, and the heap after it. -/
@[irreducible] def kalloc (st : HeapState) (size : Nat) : Nat × HeapState :=
  let (p, heap, mem) := heapAlloc st.heap st.mem size
  (p, ⟨heap, mem, if p = 0 then st.live else (p, size) :: st.live⟩)

/-- `kfree`. -/
def kfree (st : HeapState) (p : Nat) : HeapState :=
  let (heap, mem) := heapFree st.heap st.mem p
  ⟨heap, mem, st.live.filter (·.1 ≠ p)⟩

@[simp] theorem kfree_live (st : HeapState) (p : Nat) :
    (st.kfree p).live = st.live.filter (·.1 ≠ p) := rfl

theorem kalloc_zero (st : HeapState) : st.kalloc 0 = (0, st) := by
  simp only [kalloc, heapAlloc, if_true]

/-- The ghost list after `kalloc`. -/
theorem kalloc_live (st : HeapState) (size : Nat) : (st.kalloc size).2.live
    = if (st.kalloc size).1 = 0 then st.live else ((st.kalloc size).1, size) :: st.live := by
  unfold kalloc
  rfl

/-- What is live stays live. -/
theorem mem_kalloc_live {st : HeapState} {a : Nat × Nat} (ha : a ∈ st.live) (size : Nat) :
    a ∈ (st.kalloc size).2.live := by
  rw [kalloc_live]
  split
  · exact ha
  · exact List.mem_cons_of_mem _ ha

/-- What was returned is live. -/
theorem kalloc_mem {st : HeapState} {size : Nat} (hp : (st.kalloc size).1 ≠ 0) :
    ((st.kalloc size).1, size) ∈ (st.kalloc size).2.live := by
  rw [st.kalloc_live, if_neg hp]
  exact List.mem_cons_self

/-- `kalloc` is a step of the heap. -/
theorem kalloc_step (st : HeapState) (size : Nat) :
    HeapStep st (.alloc size) (st.kalloc size).2 := by
  unfold kalloc
  exact ⟨_, rfl, rfl⟩

/-- The blocks from number `b` on are free. -/
def FreeFrom (st : HeapState) (b : Nat) : Prop :=
  ∀ i, b ≤ i → i < 0x10000 → ¬ Taken (st.mem (0x40100000 + i))

/-- An address that `kalloc` does not give out: behind the heap, or in a live region. -/
def Reserved (st : HeapState) (x : Nat) : Prop :=
  0x50180000 ≤ x ∨ ∃ a ∈ st.live, a.1 ≤ x ∧ x < a.1 + a.2

theorem Reserved.mono {st st' : HeapState} {x : Nat} (h : st.Reserved x)
    (hsub : ∀ a ∈ st.live, a ∈ st'.live) : st'.Reserved x := by
  rcases h with hbehind | ⟨a, ha, hx⟩
  · exact Or.inl hbehind
  · exact Or.inr ⟨a, hsub a ha, hx⟩

theorem Reserved.kalloc {st : HeapState} {x : Nat} (h : st.Reserved x) (size : Nat) :
    (st.kalloc size).2.Reserved x :=
  h.mono fun _ ha => mem_kalloc_live ha size

end HeapState

namespace TableHolds

variable {h : Heap} {m : Mem} {live live' : List (Nat × Nat)}

/-- The table holds for a part of the regions. -/
theorem sublist (ht : TableHolds h m live) (hsub : live'.Sublist live) : TableHolds h m live' where
  placed := ht.placed
  marked := fun a ha => ht.marked a (hsub.subset ha)
  apart := ht.apart.sublist hsub

/-- Live regions with one address are one region. -/
theorem eq_of_ptr (ht : TableHolds h m live) {a b : Nat × Nat} (ha : a ∈ live) (hb : b ∈ live)
    (hptr : a.1 = b.1) : a = b := by
  by_contra hne
  have hsymm : Std.Symm RegionsApart := ⟨fun _ _ hab => hab.symm⟩
  have hapart := ht.apart.forall ha hb hne
  obtain ⟨i, -, hi⟩ := ht.marked a ha
  obtain ⟨j, -, hj⟩ := ht.marked b hb
  have hi' := hi.nonempty
  have hj' := hj.nonempty
  unfold RegionsApart at hapart
  rw [regionBytes_eq, regionBytes_eq] at hapart
  omega

end TableHolds

namespace KernelHeapInv

variable {st : HeapState}

/-- The live regions are inside the heap. -/
theorem inside (h : KernelHeapInv st) {a : Nat × Nat} (ha : a ∈ st.live) :
    0x40180000 ≤ a.1 ∧ a.1 + a.2 ≤ 0x50180000 := by
  obtain ⟨i, hptr, hmark⟩ := h.holds.marked a ha
  have hin := hmark.inside
  have hle : a.2 ≤ 4096 * allocBlocks a.2 := by
    rw [allocBlocks_eq]
    omega
  rw [h.blocks] at hin
  rw [hptr, h.start]
  omega

/-- The live regions have different addresses. -/
theorem ptr_nodup (h : KernelHeapInv st) : (st.live.map (·.1)).Nodup :=
  h.holds.nodup.map_on fun _ ha _ hb heq => h.holds.eq_of_ptr ha hb heq

/-- Live regions at different addresses do not overlap. -/
theorem apart (h : KernelHeapInv st) {a b : Nat × Nat} (ha : a ∈ st.live) (hb : b ∈ st.live)
    (hne : a.1 ≠ b.1) : a.1 + a.2 ≤ b.1 ∨ b.1 + b.2 ≤ a.1 := by
  have hsymm : Std.Symm RegionsApart := ⟨fun _ _ hab => hab.symm⟩
  have hapart := h.holds.apart.forall ha hb fun heq => hne (congrArg Prod.fst heq)
  have hle : ∀ size, size ≤ regionBytes size := by
    intro size
    unfold regionBytes
    omega
  have h1 := hle a.2
  have h2 := hle b.2
  unfold RegionsApart at hapart
  omega

/-- What `kalloc` of a positive size can do. -/
theorem kalloc_cases (h : KernelHeapInv st) {size : Nat} (hsize : size ≠ 0) :
    st.kalloc size = (0, st) ∨
    ∃ p st', st.kalloc size = (p, st') ∧ p ≠ 0 ∧ st'.live = (p, size) :: st.live ∧
      KernelHeapInv st' ∧ ∀ a ∈ st.live, a.1 ≠ p := by
  rcases heapAlloc_first h.holds.placed st.mem hsize with
    ⟨-, hnull⟩ | ⟨i, hin, hfree, -, hres⟩
  · left
    simp only [HeapState.kalloc, hnull, if_true]
  · right
    have hpos := h.holds.placed.start_pos
    have hne : st.heap.heapStartAddress + 4096 * i ≠ 0 := by omega
    have hholds := h.holds.alloc hin (allocBlocks_pos hsize) hfree
      (toSize ((st.heap.freeBlocks : Int) - allocBlocks size))
    refine ⟨_, _, by simp only [HeapState.kalloc, hres]; rfl, hne, if_neg hne, ?_, ?_⟩
    · refine ⟨h.start, h.table, h.blocks, ?_⟩
      simp only [if_neg hne]
      exact hholds
    · intro a ha hptr
      have heq := hholds.eq_of_ptr (List.mem_cons_of_mem _ ha) List.mem_cons_self hptr
      rw [heq] at ha
      have hnodup := List.nodup_cons.mp hholds.nodup
      exact hnodup.1 ha

/-- `kalloc` keeps the heap's invariant. -/
theorem kalloc_inv (h : KernelHeapInv st) (size : Nat) : KernelHeapInv (st.kalloc size).2 := by
  by_cases hsize : size = 0
  · rw [hsize, HeapState.kalloc_zero]
    exact h
  · rcases h.kalloc_cases hsize with heq | ⟨p, st', heq, -, -, hinv, -⟩
    · rw [heq]
      exact h
    · rw [heq]
      exact hinv

/-- `kalloc` never returns the address of a live region. -/
theorem kalloc_fresh (h : KernelHeapInv st) {size : Nat} (hp : (st.kalloc size).1 ≠ 0) :
    ∀ a ∈ st.live, a.1 ≠ (st.kalloc size).1 := by
  by_cases hsize : size = 0
  · rw [hsize, HeapState.kalloc_zero] at hp
    exact absurd rfl hp
  rcases h.kalloc_cases hsize with heq | ⟨p, st', heq, -, -, -, hne⟩
  · rw [heq] at hp
    exact absurd rfl hp
  · rw [heq]
    exact hne

/-- A region that `kalloc` returned lies in the heap, apart from the live ones. -/
theorem kalloc_region (h : KernelHeapInv st) {size : Nat} (hp : (st.kalloc size).1 ≠ 0) :
    (st.kalloc size).1 + size ≤ 0x50180000 ∧
      ∀ a ∈ st.live, a.1 + a.2 ≤ (st.kalloc size).1 ∨ (st.kalloc size).1 + size ≤ a.1 := by
  have hinv := h.kalloc_inv size
  have hnew := HeapState.kalloc_mem hp
  refine ⟨(hinv.inside hnew).2, fun a ha => ?_⟩
  exact hinv.apart (HeapState.mem_kalloc_live ha size) hnew (h.kalloc_fresh hp a ha)

/-- All of this about one call that succeeds. -/
theorem kalloc_new (h : KernelHeapInv st) {size p : Nat} {st' : HeapState}
    (hk : st.kalloc size = (p, st')) (hp : p ≠ 0) : KernelHeapInv st' ∧
      st'.live = (p, size) :: st.live ∧ p + size ≤ 0x50180000 ∧
      ∀ a ∈ st.live, a.1 ≠ p ∧ (a.1 + a.2 ≤ p ∨ p + size ≤ a.1) := by
  have hne : (st.kalloc size).1 ≠ 0 := by
    rw [hk]
    exact hp
  have hinv := h.kalloc_inv size
  have hlive := st.kalloc_live size
  have hregion := h.kalloc_region hne
  have hfresh := h.kalloc_fresh hne
  rw [if_neg hne] at hlive
  rw [hk] at hinv hlive hregion hfresh
  exact ⟨hinv, hlive, hregion.1, fun a ha => ⟨hfresh a ha, hregion.2 a ha⟩⟩

/-- A new region has no reserved address in it. -/
theorem reserved_outside (h : KernelHeapInv st) {size x : Nat} (hp : (st.kalloc size).1 ≠ 0)
    (hx : st.Reserved x) : x < (st.kalloc size).1 ∨ (st.kalloc size).1 + size ≤ x := by
  obtain ⟨hend, hapart⟩ := h.kalloc_region hp
  rcases hx with hbehind | ⟨a, ha, hx⟩
  · omega
  · have := hapart a ha
    omega

/-- `kfree` of a live region keeps the heap's invariant. -/
theorem kfree_inv (h : KernelHeapInv st) {a : Nat × Nat} (ha : a ∈ st.live) :
    KernelHeapInv (st.kfree a.1) := by
  obtain ⟨n, m', hres, hholds⟩ := h.holds.free ha
  have hsub : (st.live.filter (·.1 ≠ a.1)).Sublist (st.live.erase a) := by
    have hfilter : (st.live.erase a).filter (·.1 ≠ a.1) = st.live.filter (·.1 ≠ a.1) := by
      rw [h.holds.nodup.erase_eq_filter, List.filter_filter]
      refine List.filter_congr fun b _ => ?_
      by_cases hb : b.1 = a.1
      · simp [hb]
      · have hne : b ≠ a := fun heq => hb (congrArg Prod.fst heq)
        simp [hb, hne]
    rw [← hfilter]
    exact List.filter_sublist
  have heq : st.kfree a.1 = ⟨st.heap.setFreeBlocks n, m', st.live.filter (·.1 ≠ a.1)⟩ := by
    simp only [HeapState.kfree, hres]
  rw [heq]
  exact ⟨h.start, h.table, h.blocks, hholds.sublist hsub⟩

/-- `kfree` takes the region off the list, wherever it stands. -/
theorem kfree_append (h : KernelHeapInv st) {l l' : List (Nat × Nat)} {p size : Nat}
    (hlive : st.live = l ++ (p, size) :: l') :
    (st.kfree p).live = l ++ l' ∧ KernelHeapInv (st.kfree p) := by
  have hmem : (p, size) ∈ st.live := by
    rw [hlive]
    exact List.mem_append_right _ List.mem_cons_self
  have hnodup := h.holds.nodup
  rw [hlive, List.nodup_middle, List.nodup_cons] at hnodup
  have hkeep : ∀ a ∈ l ++ l', decide (a.1 ≠ p) = true := by
    intro a ha
    refine decide_eq_true fun hptr => hnodup.1 ?_
    have hin : a ∈ st.live := by
      rw [hlive]
      exact (List.perm_middle.mem_iff).mpr (List.mem_cons_of_mem _ ha)
    exact h.holds.eq_of_ptr hin hmem hptr ▸ ha
  refine ⟨?_, h.kfree_inv hmem⟩
  rw [HeapState.kfree_live, hlive, List.filter_append, List.filter_cons_of_neg (by simp),
    ← List.filter_append]
  exact List.filter_eq_self.mpr hkeep

/-- Freeing several regions of one size. -/
theorem kfree_all {size : Nat} : ∀ (ps : List Nat) (st : HeapState), KernelHeapInv st → ps.Nodup →
    (∀ p ∈ ps, (p, size) ∈ st.live) → KernelHeapInv (ps.foldl HeapState.kfree st) ∧
      (ps.foldl HeapState.kfree st).live = st.live.filter (·.1 ∉ ps) := by
  intro ps
  induction ps with
  | nil =>
    intro st h _ _
    exact ⟨h, (List.filter_eq_self.mpr fun _ _ => by simp).symm⟩
  | cons p ps ih =>
    intro st h hnodup hlive
    obtain ⟨hp, hps⟩ := List.nodup_cons.mp hnodup
    have hrest : ∀ p' ∈ ps, (p', size) ∈ (st.kfree p).live := by
      intro p' hp'
      refine List.mem_filter.mpr ⟨hlive p' (List.mem_cons_of_mem _ hp'), decide_eq_true ?_⟩
      rintro rfl
      exact hp hp'
    obtain ⟨hinv, hfinal⟩ := ih (st.kfree p) (h.kfree_inv (hlive p List.mem_cons_self)) hps hrest
    refine ⟨hinv, hfinal.trans ?_⟩
    rw [HeapState.kfree_live, List.filter_filter]
    refine List.filter_congr fun a _ => ?_
    by_cases ha : a.1 = p
    · simp [ha]
    · simp [ha]

/-- One client call keeps the heap's invariant. -/
theorem heapStep (h : KernelHeapInv st) {e : HeapEvent} {st' : HeapState}
    (hstep : HeapStep st e st') : KernelHeapInv st' := by
  cases e with
  | alloc size =>
    obtain ⟨p, hres, hlive⟩ := hstep
    have heq : (st.kalloc size).2 = st' := by
      simp only [HeapState.kalloc, hres, ← hlive]
    exact heq ▸ h.kalloc_inv size
  | free p size =>
    obtain ⟨ha, hres, hlive⟩ := hstep
    obtain ⟨n, m', hfree, hholds⟩ := h.holds.free ha
    rw [hres] at hfree
    obtain ⟨hh, hm⟩ := Prod.mk.inj hfree
    rw [← hh, ← hm, ← hlive] at hholds
    exact ⟨by rw [hh]; exact h.start, by rw [hh]; exact h.table, by rw [hh]; exact h.blocks, hholds⟩

/-- The heap's invariant, from `setup_heap` on. -/
theorem reach (hr : kernelHeapMachine.Reach st) : KernelHeapInv st :=
  hr.invariant (fun _ h0 => KernelHeapInv.setup h0) (fun _ _ _ h hstep => h.heapStep hstep)

/-! ## Room -/

/-- `kalloc` finds the free blocks at the end, and takes no more of them than it needs. -/
theorem kalloc_room (h : KernelHeapInv st) {b size : Nat} (hfree : st.FreeFrom b) (hsize : size ≠ 0)
    (hroom : b + allocBlocks size ≤ 0x10000) :
    (st.kalloc size).1 ≠ 0 ∧ (st.kalloc size).2.FreeFrom (b + allocBlocks size) := by
  have hrun : FreeRun st.mem (st.heap.heap + b) (allocBlocks size) := by
    intro j hj
    rw [h.table, Nat.add_assoc]
    exact hfree (b + j) (Nat.le_add_right _ _) (by omega)
  rcases heapAlloc_first h.holds.placed st.mem hsize with
    ⟨hnone, -⟩ | ⟨i, hin, -, hfirst, hres⟩
  · exact absurd hrun (hnone b (by rw [h.blocks]; exact hroom))
  have hle := hfirst b (by rw [h.blocks]; exact hroom) hrun
  have hpos := h.holds.placed.start_pos
  simp only [HeapState.kalloc, hres]
  refine ⟨by omega, fun j hj hj' => ?_⟩
  -- the region that was taken ends before
  show ¬ Taken (markRegionTaken st.mem _ _ _)
  rw [markRegionTaken_apply _ (allocBlocks_pos hsize), if_neg (by rw [h.table]; omega)]
  exact hfree j (by omega) hj'

/-- `kfree` marks nothing. -/
theorem kfree_room (h : KernelHeapInv st) {b : Nat} (hfree : st.FreeFrom b) {a : Nat × Nat}
    (ha : a ∈ st.live) : (st.kfree a.1).FreeFrom b := by
  obtain ⟨i, hptr, hmark⟩ := h.holds.marked a ha
  obtain ⟨n, m', hres, hkeep⟩ := heapFree_within h.holds.placed hmark
  intro j hj hj'
  have hsame : m' (0x40100000 + j) = st.mem (0x40100000 + j) := by
    refine hkeep _ ?_
    by_contra hin
    rw [h.table] at hin
    -- the region is marked up to its end, and the blocks from `b` on are not
    have htaken := hmark.taken (j - i) (by omega)
    rw [h.table, show 0x40100000 + i + (j - i) = 0x40100000 + j by omega] at htaken
    exact hfree j hj hj' htaken
  simp only [HeapState.kfree, hptr, hres, hsame]
  exact hfree j hj hj'

end KernelHeapInv

end TinyKernel
