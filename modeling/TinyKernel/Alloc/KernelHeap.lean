/-
  The kernel's own heap: `setup_heap` of `kernel/start.c` on the layout of `kernel/linker.ld`.

  The table stands at HEAP_START, the blocks follow after `heap_table_size` bytes, and the kernel
  image is linked at 0x50000000.  0x10000 blocks of 4096 bytes are 256 MiB, which is more than
  fits between the two: the last blocks of the heap lie on the kernel image.

  `heap_createtable` clears only the first entry of the table (its loop never moves the pointer),
  so the runs here start from a table with ARBITRARY bytes behind it.  That rules out the exact
  representation of `Alloc.HeapRun`, and what survives is weaker and still enough (`TableHolds`):
  every entry of a live region is TAKEN, its first one is FIRST and its last one is LAST.  A stray
  LAST inside a region makes `heap_free` stop early, never late.

  `kernel_heap_inside_iff` then says exactly when the heap keeps off the kernel image.  The search
  is first fit (`heapSearch_first`), so this is a matter of what is free before each request.
-/
import TinyKernel.Alloc.HeapRun

namespace TinyKernel

/-! ## The source -/

/-- `HEAP_START` of the linker script. -/
def heapStart : Nat := 0x40100000

/-- Where the linker script puts the kernel image. -/
def kernelImage : Nat := 0x50000000

/-- The loop of `heap_createtable`, which stores to the first entry every time. -/
def heapCreatetableLoop (table : Nat) : Nat → Mem → Mem
  | 0, m => m
  | n + 1, m => heapCreatetableLoop table n (Function.update m table 0)

/-- `heap_createtable`. -/
def heapCreatetable (heapStartAddress tableAddress heapBlocks : Nat) (m : Mem) : Heap × Mem :=
  (⟨heapStartAddress, tableAddress, heapBlocks, heapBlocks⟩,
    heapCreatetableLoop tableAddress heapBlocks m)

/-- `setup_heap`. -/
def setupHeap (m : Mem) : Heap × Mem :=
  let heapSizeBlocks := 0x10000
  let tableAddress := heapStart
  let heapAddress := toSize (tableAddress + heapTableSize heapSizeBlocks : Nat)
  heapCreatetable heapAddress tableAddress heapSizeBlocks m

/-- The heap after `setup_heap` on any memory, and any sequence of `kalloc` and `kfree` of live
    regions. -/
def kernelHeapMachine : Machine HeapState HeapEvent where
  start st := (∃ m, setupHeap m = (st.heap, st.mem)) ∧ st.live = []
  step := HeapStep

/-- The heap that `setup_heap` creates. -/
def kernelHeap : Heap := ⟨0x40180000, 0x40100000, 0x10000, 0x10000⟩

theorem setupHeap_fst (m : Mem) : (setupHeap m).1 = kernelHeap := by
  have haddr : toSize (heapStart + heapTableSize 0x10000 : Nat) = 0x40180000 := by
    unfold heapTableSize toSize heapStart
    rfl
  show (⟨toSize (heapStart + heapTableSize 0x10000 : Nat), heapStart, 0x10000, 0x10000⟩ : Heap) = _
  rw [haddr]
  rfl

theorem kernelHeap_placed : kernelHeap.Placed := ⟨by decide, by decide, by decide, by decide⟩

/-! ## The invariant -/

/-- The entries of a region of `k` blocks from entry `i`: all TAKEN, the ends marked. -/
structure RegionMarked (h : Heap) (m : Mem) (i k : Nat) : Prop where
  inside : i + k ≤ h.blocks
  nonempty : 0 < k
  taken : ∀ j, j < k → Taken (m (h.heap + i + j))
  first : m (h.heap + i) &&& heapBlockFirst ≠ 0
  last : m (h.heap + i + (k - 1)) &&& heapBlockLast ≠ 0

/-- Two regions do not overlap. -/
def RegionsApart (a b : Nat × Nat) : Prop :=
  a.1 + regionBytes a.2 ≤ b.1 ∨ b.1 + regionBytes b.2 ≤ a.1

/-- The table marks every live region, and live regions do not overlap. -/
structure TableHolds (h : Heap) (m : Mem) (live : List (Nat × Nat)) : Prop where
  placed : h.Placed
  marked : ∀ a ∈ live, ∃ i, a.1 = h.heapStartAddress + 4096 * i ∧
    RegionMarked h m i (allocBlocks a.2)
  apart : live.Pairwise RegionsApart

theorem regionBytes_eq (size : Nat) : regionBytes size = 4096 * allocBlocks size := by
  rw [regionBytes, allocBlocks_eq]

/-- Marks survive outside the entries that were written. -/
theorem RegionMarked.congr {h h' : Heap} {m m' : Mem} {i k : Nat} (hr : RegionMarked h m i k)
    (hheap : h'.heap = h.heap) (hblocks : h'.blocks = h.blocks)
    (hm : ∀ j, j < k → m' (h.heap + i + j) = m (h.heap + i + j)) : RegionMarked h' m' i k where
  inside := hblocks ▸ hr.inside
  nonempty := hr.nonempty
  taken := by
    intro j hj
    rw [hheap, hm j hj]
    exact hr.taken j hj
  first := by
    have h0 := hm 0 hr.nonempty
    rw [Nat.add_zero] at h0
    rw [hheap, h0]
    exact hr.first
  last := by
    have hpos := hr.nonempty
    rw [hheap, hm (k - 1) (by omega)]
    exact hr.last

/-- The mark that `heap_alloc` leaves, on whatever was in the table. -/
theorem RegionMarked.mark (h : Heap) (m : Mem) {i k : Nat} (hin : i + k ≤ h.blocks) (hk : 0 < k) :
    RegionMarked h (markRegionTaken m (h.heap + i) (h.heap + i + k - 1)) i k := by
  have hor : ∀ (b t : Byte) (mask : Byte), t &&& mask ≠ 0 → (b ||| t) &&& mask ≠ 0 := by
    intro b t mask ht hzero
    rw [BitVec.and_or_distrib_right] at hzero
    exact ht (BitVec.or_eq_zero_iff.mp hzero).2
  have happly : ∀ j, j < k →
      markRegionTaken m (h.heap + i) (h.heap + i + k - 1) (h.heap + i + j)
        = m (h.heap + i + j) ||| regionTag (h.heap + i) k (h.heap + i + j) := by
    intro j hj
    rw [markRegionTaken_apply m hk, if_pos (by omega)]
  refine ⟨hin, hk, fun j hj => ?_, ?_, ?_⟩
  · unfold Taken
    rw [happly j hj]
    exact hor _ _ _ (taken_regionTag _ _ _)
  · have h0 := happly 0 hk
    rw [Nat.add_zero] at h0
    rw [h0]
    exact hor _ _ _ (regionTag_first _ _)
  · rw [happly (k - 1) (by omega)]
    exact hor _ _ _ (regionTag_last_ne_zero _ _ (by omega))

/-- Clearing stops at a LAST entry at the latest. -/
theorem markFreeLoop_within : ∀ (n room block freed : Nat) (m : Mem), n < room →
    m (block + n) &&& heapBlockLast ≠ 0 → ∀ x, x < block ∨ block + n < x →
    (markFreeLoop room block freed m).2 x = m x := by
  intro n
  induction n with
  | zero =>
    intro room block freed m hroom hlast x hx
    obtain ⟨room, rfl⟩ : ∃ k, room = k + 1 := Nat.exists_eq_add_one.mpr hroom
    rw [Nat.add_zero] at hlast hx
    rw [markFreeLoop, if_neg hlast]
    exact Function.update_of_ne (by omega) _ _
  | succ n ih =>
    intro room block freed m hroom hlast x hx
    obtain ⟨room, rfl⟩ : ∃ k, room = k + 1 := Nat.exists_eq_add_one.mpr (Nat.zero_lt_of_lt hroom)
    rw [markFreeLoop]
    split
    · have hnext : Function.update m block 0 (block + 1 + n) &&& heapBlockLast ≠ 0 := by
        rw [Function.update_of_ne (by omega), show block + 1 + n = block + (n + 1) by omega]
        exact hlast
      rw [ih room (block + 1) (freed + 1) (Function.update m block 0) (by omega) hnext x (by omega),
        Function.update_of_ne (by omega)]
    · exact Function.update_of_ne (by omega) _ _

/-- `heap_free` of a marked region writes only entries of that region. -/
theorem heapFree_within {h : Heap} (hp : h.Placed) {m : Mem} {i k : Nat}
    (hr : RegionMarked h m i k) : ∃ n m',
    heapFree h m (h.heapStartAddress + 4096 * i) = (h.setFreeBlocks n, m') ∧
      ∀ x, x < h.heap + i ∨ h.heap + i + k ≤ x → m' x = m x := by
  have hin := hr.inside
  have hpos := hr.nonempty
  have hfits := hp.table_fits
  rw [heapFree_block hp (by omega) hr.first]
  refine ⟨_, _, rfl, fun x hx => ?_⟩
  exact markFreeLoop_within (k - 1) _ (h.heap + i) 1 m (by omega) hr.last x (by omega)

namespace TableHolds

variable {h : Heap} {m : Mem} {live : List (Nat × Nat)}

/-- A live region and a free run of entries do not overlap. -/
theorem apart_of_free (ht : TableHolds h m live) {i n : Nat} (hn : 0 < n)
    (hfree : FreeRun m (h.heap + i) n) {b : Nat × Nat} (hb : b ∈ live) :
    h.heapStartAddress + 4096 * i + 4096 * n ≤ b.1 ∨
      b.1 + regionBytes b.2 ≤ h.heapStartAddress + 4096 * i := by
  obtain ⟨k, hptr, hmark⟩ := ht.marked b hb
  rw [regionBytes_eq]
  have hpos := hmark.nonempty
  by_contra hover
  -- the later of the two first entries lies in both
  rcases Nat.le_total i k with hik | hki
  · refine hfree (k - i) (by omega) ?_
    have := hmark.taken 0 hpos
    rwa [Nat.add_zero, show h.heap + k = h.heap + i + (k - i) by omega] at this
  · refine hfree 0 hn ?_
    have := hmark.taken (i - k) (by omega)
    rwa [show h.heap + k + (i - k) = h.heap + i + 0 by omega] at this

/-- An allocation adds its region. -/
theorem alloc (ht : TableHolds h m live) {size i : Nat} (hin : i + allocBlocks size ≤ h.blocks)
    (hk : 0 < allocBlocks size) (hfree : FreeRun m (h.heap + i) (allocBlocks size)) (n : Nat) :
    TableHolds (h.setFreeBlocks n)
      (markRegionTaken m (h.heap + i) (h.heap + i + allocBlocks size - 1))
      ((h.heapStartAddress + 4096 * i, size) :: live) where
  placed := ⟨ht.placed.start_pos, ht.placed.start_fits, ht.placed.table_fits, ht.placed.few⟩
  marked := by
    intro b hb
    rcases List.mem_cons.mp hb with rfl | hb
    · exact ⟨i, rfl, (RegionMarked.mark h m hin hk).congr rfl rfl fun _ _ => rfl⟩
    · obtain ⟨k, hptr, hmark⟩ := ht.marked b hb
      have hapart := ht.apart_of_free hk hfree hb
      rw [regionBytes_eq] at hapart
      refine ⟨k, hptr, hmark.congr rfl rfl fun j hj => ?_⟩
      rw [markRegionTaken_apply m hk, if_neg (by omega)]
  apart := by
    refine List.pairwise_cons.mpr ⟨fun b hb => ?_, ht.apart⟩
    unfold RegionsApart
    rw [regionBytes_eq size]
    exact ht.apart_of_free hk hfree hb

theorem nodup (ht : TableHolds h m live) : live.Nodup := by
  refine ht.apart.imp_of_mem ?_
  rintro a b ha - hapart rfl
  obtain ⟨i, hptr, hmark⟩ := ht.marked a ha
  have hpos := hmark.nonempty
  unfold RegionsApart at hapart
  rw [regionBytes_eq] at hapart
  omega

/-- Freeing a live region takes it away. -/
theorem free (ht : TableHolds h m live) {a : Nat × Nat} (ha : a ∈ live) :
    ∃ n m', heapFree h m a.1 = (h.setFreeBlocks n, m') ∧
      TableHolds (h.setFreeBlocks n) m' (live.erase a) := by
  obtain ⟨i, hptr, hmark⟩ := ht.marked a ha
  obtain ⟨n, m', hres, hkeep⟩ := heapFree_within ht.placed hmark
  rw [← hptr] at hres
  have hsymm : Std.Symm RegionsApart := ⟨fun _ _ hab => hab.symm⟩
  refine ⟨n, m', hres, ⟨ht.placed.start_pos, ht.placed.start_fits, ht.placed.table_fits,
    ht.placed.few⟩, fun b hb => ?_, ht.apart.sublist List.erase_sublist⟩
  obtain ⟨hne, hb⟩ := ht.nodup.mem_erase_iff.mp hb
  obtain ⟨k, hptr', hmark'⟩ := ht.marked b hb
  have hapart := ht.apart.forall ha hb hne.symm
  unfold RegionsApart at hapart
  rw [regionBytes_eq, regionBytes_eq] at hapart
  exact ⟨k, hptr', hmark'.congr rfl rfl fun j hj => hkeep _ (by omega)⟩

end TableHolds

/-- The kernel heap in a run: its layout never changes, and the table holds. -/
structure KernelHeapInv (st : HeapState) : Prop where
  start : st.heap.heapStartAddress = 0x40180000
  table : st.heap.heap = 0x40100000
  blocks : st.heap.blocks = 0x10000
  holds : TableHolds st.heap st.mem st.live

theorem KernelHeapInv.setup {st : HeapState} (h : kernelHeapMachine.start st) :
    KernelHeapInv st := by
  obtain ⟨⟨m, hsetup⟩, hlive⟩ := h
  have hheap : st.heap = kernelHeap := by rw [← setupHeap_fst m, hsetup]
  refine ⟨by rw [hheap]; rfl, by rw [hheap]; rfl, by rw [hheap]; rfl, ?_⟩
  rw [hlive, hheap]
  exact ⟨kernelHeap_placed, fun _ ha => absurd ha List.not_mem_nil, List.Pairwise.nil⟩

/-! ## Off the kernel image -/

/-- The block table and the live regions lie between HEAP_START and the kernel image, apart from
    each other. -/
structure KernelHeapSafe (st : HeapState) : Prop where
  table : heapStart ≤ st.heap.heap ∧ st.heap.heap + st.heap.blocks ≤ kernelImage
  inside : ∀ a ∈ st.live, heapStart ≤ a.1 ∧ a.1 + regionBytes a.2 ≤ kernelImage
  clear : ∀ a ∈ st.live, st.heap.heap + st.heap.blocks ≤ a.1
  apart : st.live.Pairwise RegionsApart

/-- The blocks of the heap that end below the kernel image. -/
def blocksBelowImage : Nat := 0xfe80

/-- A request that can be served at all can be served below the kernel image. -/
def FitsBelowImage (st : HeapState) (e : HeapEvent) : Prop :=
  ∀ size, e = .alloc size →
    (∃ i, i + allocBlocks size ≤ st.heap.blocks ∧
      FreeRun st.mem (st.heap.heap + i) (allocBlocks size)) →
    ∃ i, i + allocBlocks size ≤ blocksBelowImage ∧
      FreeRun st.mem (st.heap.heap + i) (allocBlocks size)

namespace KernelHeapInv

variable {st st' : HeapState} {e : HeapEvent}

/-- The live regions are all that can be unsafe. -/
theorem safe_iff (h : KernelHeapInv st) :
    KernelHeapSafe st ↔ ∀ a ∈ st.live, a.1 + regionBytes a.2 ≤ kernelImage := by
  constructor
  · exact fun hs a ha => (hs.inside a ha).2
  · intro hin
    have hbase : ∀ a ∈ st.live, 0x40180000 ≤ a.1 := by
      intro a ha
      obtain ⟨i, hptr, -⟩ := h.holds.marked a ha
      rw [hptr, h.start]
      exact Nat.le_add_right _ _
    refine ⟨?_, fun a ha => ⟨?_, hin a ha⟩, fun a ha => ?_, h.holds.apart⟩
    · rw [h.table, h.blocks]
      decide
    · exact Nat.le_trans (by decide) (hbase a ha)
    · rw [h.table, h.blocks]
      exact Nat.le_trans (by decide) (hbase a ha)

/-- A `kalloc` that returns `NULL` changes nothing. -/
theorem alloc_null {size : Nat} (hnull : heapAlloc st.heap st.mem size = (0, st.heap, st.mem))
    (hstep : HeapStep st (.alloc size) st') : st' = st := by
  obtain ⟨p, hres, hlive⟩ := hstep
  rw [hnull] at hres
  obtain ⟨rfl, hrest⟩ := Prod.mk.inj hres
  obtain ⟨hh, hm⟩ := Prod.mk.inj hrest
  rw [if_pos rfl] at hlive
  cases st'
  simp only at hh hm hlive
  rw [← hh, ← hm, hlive]

/-- A `kalloc`, from a state in which no region touches the kernel image. -/
theorem step_alloc (h : KernelHeapInv st) (hs : KernelHeapSafe st) {size : Nat}
    (hstep : HeapStep st (.alloc size) st') :
    KernelHeapInv st' ∧ (KernelHeapSafe st' ↔ FitsBelowImage st (.alloc size)) := by
  by_cases hsize : size = 0
  · -- `kalloc(0)` is `NULL`
    rw [alloc_null (by rw [heapAlloc, if_pos hsize]) hstep]
    refine ⟨h, fun _ n hn _ => ?_, fun _ => hs⟩
    injection hn with hn
    rw [← hn, hsize]
    exact ⟨0, by decide, fun j hj => absurd hj (Nat.not_lt_zero j)⟩
  rcases heapAlloc_first h.holds.placed st.mem hsize with
    ⟨hfull, hnull⟩ | ⟨i, hin, hfree, hfirst, hres⟩
  · rw [alloc_null hnull hstep]
    refine ⟨h, fun _ n hn => ?_, fun _ => hs⟩
    injection hn with hn
    subst hn
    rintro ⟨i, hin, hfree⟩
    exact absurd hfree (hfull i hin)
  · obtain ⟨p, hres', hlive⟩ := hstep
    rw [hres] at hres'
    obtain ⟨rfl, hrest⟩ := Prod.mk.inj hres'
    obtain ⟨hh, hm⟩ := Prod.mk.inj hrest
    have hpos := h.holds.placed.start_pos
    rw [if_neg (by omega)] at hlive
    have hinv : KernelHeapInv st' := by
      refine ⟨by rw [← hh]; exact h.start, by rw [← hh]; exact h.table,
        by rw [← hh]; exact h.blocks, ?_⟩
      rw [← hh, ← hm, hlive]
      exact h.holds.alloc hin (allocBlocks_pos hsize) hfree _
    refine ⟨hinv, ?_⟩
    have hnew : KernelHeapSafe st' ↔ i + allocBlocks size ≤ blocksBelowImage := by
      rw [hinv.safe_iff, hlive, List.forall_mem_cons, regionBytes_eq, h.start]
      unfold kernelImage blocksBelowImage
      dsimp only
      constructor
      · rintro ⟨hend, -⟩
        omega
      · exact fun hle => ⟨by omega, h.safe_iff.mp hs⟩
    rw [hnew]
    constructor
    · intro hle n hn _
      injection hn with hn
      subst hn
      exact ⟨i, hle, hfree⟩
    · intro hfits
      obtain ⟨i', hle', hfree'⟩ := hfits size rfl ⟨i, hin, hfree⟩
      -- first fit: the region begins no later than the one below the image
      have := hfirst i' (by rw [h.blocks]; unfold blocksBelowImage at hle'; omega) hfree'
      omega

/-- One call, from a state in which no region touches the kernel image. -/
theorem step (h : KernelHeapInv st) (hs : KernelHeapSafe st) (hstep : HeapStep st e st') :
    KernelHeapInv st' ∧ (KernelHeapSafe st' ↔ FitsBelowImage st e) := by
  cases e with
  | alloc size => exact h.step_alloc hs hstep
  | free p size =>
    obtain ⟨ha, hres, hlive⟩ := hstep
    obtain ⟨n, m', hfree, hholds⟩ := h.holds.free ha
    rw [hres] at hfree
    obtain ⟨hh, hm⟩ := Prod.mk.inj hfree
    rw [← hh, ← hm, ← hlive] at hholds
    have hinv : KernelHeapInv st' :=
      ⟨by rw [hh]; exact h.start, by rw [hh]; exact h.table, by rw [hh]; exact h.blocks, hholds⟩
    refine ⟨hinv, fun _ size he => absurd he (by simp), fun _ => hinv.safe_iff.mpr ?_⟩
    intro b hb
    rw [hlive] at hb
    exact h.safe_iff.mp hs b (List.mem_of_mem_erase hb)

end KernelHeapInv

/-- **The kernel heap and the kernel image.**  In every run of `kalloc` and `kfree` calls after
    `setup_heap`, the regions handed out stay inside [0x40100000, 0x50000000), apart from the table
    and from each other, if and only if every request that can be served at all finds room in the
    blocks below the image.  `setup_heap` gives the heap 0x10000 blocks from 0x40180000 on, so the
    last 0x180 of them lie at and behind 0x50000000, where the image is. -/
theorem kernel_heap_inside_iff {st st' : HeapState}
    {tr : List (HeapState × HeapEvent × HeapState)} (h0 : kernelHeapMachine.start st)
    (hr : kernelHeapMachine.Run st tr st') :
    (∀ a e b, (a, e, b) ∈ tr → KernelHeapSafe b) ↔
      (∀ a e b, (a, e, b) ∈ tr → FitsBelowImage a e) := by
  have hinv := KernelHeapInv.setup h0
  have hsafe : KernelHeapSafe st := by
    refine hinv.safe_iff.mpr fun a ha => ?_
    rw [h0.2] at ha
    exact absurd ha List.not_mem_nil
  refine hr.forall_iff_of_invariant (I := fun st => KernelHeapInv st ∧ KernelHeapSafe st)
    (P := fun _ _ b => KernelHeapSafe b) (Q := fun a e _ => FitsBelowImage a e) ?_ ?_ ⟨hinv, hsafe⟩
  · exact fun a e b ha hstep => (ha.1.step ha.2 hstep).2
  · intro a e b ha hstep hfits
    obtain ⟨hinv, hiff⟩ := ha.1.step ha.2 hstep
    exact ⟨hinv, hiff.mpr hfits⟩

/-- `setup_heap` on cleared memory leaves it clear. -/
theorem setupHeap_clear : setupHeap (fun _ => 0) = (kernelHeap, fun _ => 0) := by
  have hzero : ∀ n, heapCreatetableLoop heapStart n (fun _ => 0) = fun _ => 0 := by
    intro n
    induction n with
    | zero => rfl
    | succ n ih => rw [heapCreatetableLoop, Function.update_eq_self_iff.mpr rfl, ih]
  refine Prod.ext (setupHeap_fst _) ?_
  simp only [setupHeap, heapCreatetable, hzero]

/-- One `kalloc` on the empty heap. -/
theorem kernelHeap_alloc_step {size : Nat} (hsize : size ≠ 0) (hfits : allocBlocks size ≤ 0x10000) :
    ∃ n mem, HeapStep ⟨kernelHeap, fun _ => 0, []⟩ (.alloc size)
      ⟨kernelHeap.setFreeBlocks n, mem, [(0x40180000, size)]⟩ := by
  rcases heapAlloc_first kernelHeap_placed (fun _ => 0) hsize with
    ⟨hfull, -⟩ | ⟨i, -, -, hfirst, hres⟩
  · exact absurd (fun _ _ => not_taken_zero) (hfull 0 (by rw [Nat.zero_add]; exact hfits))
  · obtain rfl : i = 0 := Nat.le_zero.mp
      (hfirst 0 (by rw [Nat.zero_add]; exact hfits) fun _ _ => not_taken_zero)
    have haddr : kernelHeap.heapStartAddress + 4096 * 0 = 0x40180000 := by decide
    rw [haddr] at hres
    generalize toSize _ = n, markRegionTaken _ _ _ = mem at hres
    exact ⟨n, mem, 0x40180000, hres, (if_neg (by decide)).symm⟩

/-- A run of it. -/
theorem kernelHeap_alloc (size : Nat) (hsize : size ≠ 0) (hfits : allocBlocks size ≤ 0x10000) :
    ∃ st st', kernelHeapMachine.start st ∧
      kernelHeapMachine.Run st [(st, .alloc size, st')] st' ∧
      FreeRun st.mem st.heap.heap 0x10000 ∧ (0x40180000, size) ∈ st'.live := by
  obtain ⟨n, mem, hstep⟩ := kernelHeap_alloc_step hsize hfits
  exact ⟨_, _, ⟨⟨_, setupHeap_clear⟩, rfl⟩, .cons hstep (.nil _), fun _ _ => not_taken_zero,
    List.mem_cons_self⟩

/-- The first page that is handed out is safe. -/
theorem kernel_heap_inside_iff_page : ∃ st st', kernelHeapMachine.start st ∧
    kernelHeapMachine.Run st [(st, .alloc 4096, st')] st' ∧ KernelHeapSafe st' := by
  obtain ⟨st, st', h0, hr, hfree, -⟩ := kernelHeap_alloc 4096 (by decide) (by decide)
  refine ⟨st, st', h0, hr, (kernel_heap_inside_iff h0 hr).mpr ?_ _ _ _ List.mem_cons_self⟩
  intro a e b hm size he _
  obtain ⟨rfl, hrest⟩ := Prod.mk.inj (List.mem_singleton.mp hm)
  obtain ⟨rfl, -⟩ := Prod.mk.inj hrest
  injection he with he
  refine ⟨0, by rw [← he]; decide, fun j hj => hfree j ?_⟩
  rw [← he] at hj
  exact Nat.lt_trans hj (by decide)

/-- A request for all 256 MiB is granted, and the region covers the kernel image. -/
theorem kernel_heap_covers_image : ∃ st st', kernelHeapMachine.start st ∧
    kernelHeapMachine.Run st [(st, .alloc 0x10000000, st')] st' ∧ ¬ KernelHeapSafe st' := by
  obtain ⟨st, st', h0, hr, -, hlive⟩ :=
    kernelHeap_alloc 0x10000000 (by decide) (by decide)
  refine ⟨st, st', h0, hr, fun hs => ?_⟩
  exact absurd (hs.inside _ hlive).2 (by decide)

end TinyKernel
