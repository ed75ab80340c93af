/-
  The available ring over whole runs.

  `virtioMachine` starts after a successful `disk_init`, over a heap in any state and memory with
  any contents.  Requests are submitted and finished one at a time; during the busy wait and
  between requests the disk interrupts, the rest of the kernel allocates and frees, and everything
  may be written to but the available ring, which belongs to the driver.  The ghosts are the
  requests made so far and those a device has consumed which looks at the ring at every
  notification.

  The driver and the device agree on `avail->idx` only as long as it is the number of requests
  AND is below `QUEUE_SIZE`: the driver indexes the ring with `idx` itself, the device with
  `idx mod QUEUE_SIZE`.  `VirtioInv.idx` is that invariant, `VirtioInv.published_iff` says when
  one more request keeps it.
-/
import TinyKernel.Lib.Machine
import TinyKernel.Device.Virtioblk

namespace TinyKernel

/-- The driver, the heap regions in use, the `Sync_read` of the call that is waiting, and the
    requests made and consumed. -/
structure VirtioState where
  disk : Virtioblk
  driver : DriverState
  live : List (Nat × Nat)
  waiting : Option Nat
  made : List (List Buffer)
  consumed : List (List Buffer)

/-- The heap of the state, as in `Alloc.HeapRun`. -/
def VirtioState.heapState (st : VirtioState) : HeapState :=
  ⟨st.driver.heap, st.driver.table, st.live⟩

/-- The state with another heap. -/
def VirtioState.setHeap (st : VirtioState) (h : HeapState) : VirtioState :=
  { st with driver := { st.driver with heap := h.heap, table := h.mem }, live := h.live }

inductive VirtioEvent
  /-- The rest of the kernel allocates .. -/
  | alloc (size : Nat)
  /-- .. and frees. -/
  | free (p size : Nat)
  /-- The rest of the kernel, or the device, writes. -/
  | write (m : Mem)
  /-- `disk_create_request_sync` is called and reaches its busy wait. -/
  | submit (write sector : BitVec 32) (data req : Word)
  /-- The disk interrupts. -/
  | interrupt (device : DeviceRegs)
  /-- The busy wait ends and the call returns. -/
  | finish

/-- One event.  `kalloc` is taken to succeed for the driver, which does not check it. -/
def VirtioStep (st : VirtioState) : VirtioEvent → VirtioState → Prop
  | .alloc size, st' => ∃ h, HeapStep st.heapState (.alloc size) h ∧ st' = st.setHeap h
  | .free p size, st' =>
      p ≠ st.disk.descriptors ∧ p ≠ st.disk.avail ∧ p ≠ st.disk.used ∧ st.waiting ≠ some p ∧
      ∃ h, HeapStep st.heapState (.free p size) h ∧ st' = st.setHeap h
  | .write m, st' =>
      (∀ x, st.disk.avail ≤ x → x < st.disk.avail + virtqAvailSize → m x = st.driver.mem x) ∧
      st' = { st with driver := { st.driver with mem := m } }
  | .submit write sector data req, st' => st.waiting = none ∧
      ∃ sync driver, diskSubmit st.driver st.disk write data sector req = (sync, driver) ∧
        sync ≠ 0 ∧ st' =
          { st with
            driver := driver
            live := (sync, syncReadSize) :: st.live
            waiting := some sync
            made := st.made ++ [requestBuffers write data req]
            consumed := st.consumed ++ deviceView driver.mem st.disk st.consumed.length }
  | .interrupt device, st' => ∃ sync, st.waiting = some sync ∧
      st' = { st with driver := diskHandleInterruptSync device st.driver st.disk sync }
  | .finish, st' => ∃ sync, st.waiting = some sync ∧ syncDone st.driver sync ∧
      st' = { st with
        driver := diskFinish st.driver sync
        live := st.live.erase (sync, syncReadSize)
        waiting := none }

/-- The driver after a `disk_init` that returned 0 and whose allocations succeeded. -/
def DiskReady (st : VirtioState) : Prop :=
  ∃ device before disk offset live, HeapInv before.heap before.table live ∧
    before.ringStores = [] ∧
    diskInit device before disk offset = (0, st.disk, st.driver) ∧
    st.disk.descriptors ≠ 0 ∧ st.disk.avail ≠ 0 ∧ st.disk.used ≠ 0 ∧
    st.live = (st.disk.used, virtqUsedSize) :: (st.disk.avail, virtqAvailSize) ::
      (st.disk.descriptors, virtqDescSize * queueSize) :: live ∧
    st.waiting = none ∧ st.made = [] ∧ st.consumed = []

/-- The driver from `disk_init` on. -/
def virtioMachine : Machine VirtioState VirtioEvent where
  start := DiskReady
  step := VirtioStep

/-! ## The heap under the driver -/

variable {st st' : VirtioState}

/-- A successful `kalloc`. -/
theorem HeapInv.kalloc {d d' : DriverState} {live : List (Nat × Nat)} {size p : Nat}
    (h : HeapInv d.heap d.table live) (hres : TinyKernel.kalloc d size = (p, d')) (hp : p ≠ 0) :
    HeapInv d'.heap d'.table ((p, size) :: live) ∧ d'.mem = d.mem ∧
      d'.ringStores = d.ringStores := by
  rw [TinyKernel.kalloc] at hres
  generalize hal : heapAlloc d.heap d.table size = r at hres
  obtain ⟨q, heap, table⟩ := r
  obtain ⟨rfl, rfl⟩ := Prod.mk.inj hres
  refine ⟨?_, rfl, rfl⟩
  have hstep : HeapStep ⟨d.heap, d.table, live⟩ (.alloc size) ⟨heap, table, (q, size) :: live⟩ :=
    ⟨q, hal, (if_neg hp).symm⟩
  exact HeapInv.step h hstep

/-- Two live regions do not overlap. -/
theorem HeapInv.disjoint {h : Heap} {m : Mem} {live : List (Nat × Nat)} (hi : HeapInv h m live)
    {a b : Nat × Nat} (ha : a ∈ live) (hb : b ∈ live) (hne : a ≠ b) :
    a.1 + a.2 ≤ b.1 ∨ b.1 + b.2 ≤ a.1 := by
  have hrep : HeapRepresentation ⟨h, m, live⟩ := HeapInv.representation hi
  have hsymm : Std.Symm fun a b : Nat × Nat =>
      a.1 + regionBytes a.2 ≤ b.1 ∨ b.1 + regionBytes b.2 ≤ a.1 := ⟨fun _ _ hab => hab.symm⟩
  have hdis := hrep.disjoint.forall ha hb hne
  have hsize : ∀ n, n ≤ regionBytes n := fun n => by unfold regionBytes; omega
  have h1 := hsize a.2
  have h2 := hsize b.2
  omega

/-- The three regions that `disk_init` allocates. -/
theorem HeapInv.diskInitQueue {d d' : DriverState} {disk disk' : Virtioblk}
    {live : List (Nat × Nat)} (h : HeapInv d.heap d.table live)
    (hres : TinyKernel.diskInitQueue d disk = (disk', d')) (hd : disk'.descriptors ≠ 0)
    (ha : disk'.avail ≠ 0) (hu : disk'.used ≠ 0) :
    HeapInv d'.heap d'.table ((disk'.used, virtqUsedSize) :: (disk'.avail, virtqAvailSize) ::
      (disk'.descriptors, virtqDescSize * queueSize) :: live) ∧
    d'.ringStores = d.ringStores := by
  rw [TinyKernel.diskInitQueue] at hres
  generalize hk₁ : TinyKernel.kalloc (diskSetReg d disk virtioQueueSizeOffset queueSize)
    (virtqDescSize * queueSize) = r₁ at hres
  obtain ⟨descriptors, d₁⟩ := r₁
  simp only at hres
  generalize hk₂ : TinyKernel.kalloc d₁ virtqAvailSize = r₂ at hres
  obtain ⟨avail, d₂⟩ := r₂
  simp only at hres
  generalize hk₃ : TinyKernel.kalloc d₂ virtqUsedSize = r₃ at hres
  obtain ⟨used, d₃⟩ := r₃
  simp only [Prod.mk.injEq] at hres
  obtain ⟨rfl, rfl⟩ := hres
  obtain ⟨h₁, -, hs₁⟩ := HeapInv.kalloc (by simpa using h) hk₁ hd
  obtain ⟨h₂, -, hs₂⟩ := h₁.kalloc hk₂ ha
  obtain ⟨h₃, -, hs₃⟩ := h₂.kalloc hk₃ hu
  simp only [diskSetReg_heap, diskSetReg_table, diskSetReg_ringStores] at h₃ hs₁ ⊢
  exact ⟨h₃, hs₃.trans (hs₂.trans hs₁)⟩

/-- A `disk_init` that returns 0 has reached the queue setup. -/
theorem diskInit_ok {device : DeviceRegs} {d d' : DriverState} {disk disk' : Virtioblk}
    {offset : Nat} (hres : diskInit device d disk offset = (0, disk', d')) :
    ∃ d₁ disk₁, d₁.heap = d.heap ∧ d₁.table = d.table ∧ d₁.ringStores = d.ringStores ∧
      diskInitQueue d₁ disk₁ = (disk', d') := by
  rw [diskInit] at hres
  simp only at hres
  split at hres
  · exact absurd (Prod.mk.inj hres).1 (by decide)
  · split at hres
    · exact absurd (Prod.mk.inj hres).1 (by decide)
    · split at hres
      · exact absurd (Prod.mk.inj hres).1 (by decide)
      · split at hres
        · exact absurd (Prod.mk.inj hres).1 (by decide)
        · split at hres
          · exact absurd (Prod.mk.inj hres).1 (by decide)
          · refine ⟨_, _, ?_, ?_, ?_, (Prod.mk.inj hres).2⟩ <;> rfl

/-! ## The invariant -/

/-- The driver's regions are live, the device has consumed what was made, and once a request was
    made `avail->idx` counts them. -/
structure VirtioInv (st : VirtioState) : Prop where
  heap : HeapInv st.driver.heap st.driver.table st.live
  descriptors : (st.disk.descriptors, virtqDescSize * queueSize) ∈ st.live
  avail : (st.disk.avail, virtqAvailSize) ∈ st.live
  waiting : ∀ sync, st.waiting = some sync → (sync, syncReadSize) ∈ st.live
  consumed : st.consumed = st.made
  idx : st.made ≠ [] →
    availIdx st.driver.mem st.disk.avail = st.made.length ∧ st.made.length ≤ queueSize
  slots : ∀ i ∈ st.driver.ringStores, i < queueSize

theorem DiskReady.inv (h : DiskReady st) : VirtioInv st := by
  obtain ⟨device, before, disk, offset, live, hheap, hslots, hinit, hd, ha, hu, hlive, hw, hm, hc⟩ :=
    h
  obtain ⟨d₁, disk₁, h1, h2, h3, hqueue⟩ := diskInit_ok hinit
  rw [← h1, ← h2] at hheap
  obtain ⟨hinv, hs⟩ := hheap.diskInitQueue hqueue hd ha hu
  rw [← hlive] at hinv
  refine ⟨hinv, ?_, ?_, ?_, ?_, ?_, ?_⟩
  · rw [hlive]; simp
  · rw [hlive]; simp
  · rw [hw]; exact fun _ hsome => absurd hsome (by simp)
  · rw [hc, hm]
  · exact fun hne => absurd hm hne
  · rw [hs, h3, hslots]
    exact fun _ hi => absurd hi List.not_mem_nil

/-- The condition on the state before a request: the ring has not been filled once yet, and the
    first request finds `avail->idx` at 0. -/
def FirstRound (st : VirtioState) (e : VirtioEvent) (_ : VirtioState) : Prop :=
  ∀ write sector data req, e = .submit write sector data req →
    st.made.length < queueSize ∧ (st.made = [] → availIdx st.driver.mem st.disk.avail = 0)

/-- The protocol of the available ring: the request `k` stores its head descriptor in the slot
    `k mod QUEUE_SIZE` and leaves `idx = (k + 1) mod 2^16`, a device that follows the ring has
    seen every request exactly once and in order, and no store left the ring. -/
def Published (st : VirtioState) (e : VirtioEvent) (st' : VirtioState) : Prop :=
  ∀ write sector data req, e = .submit write sector data req →
    st'.driver.ringStores = st.made.length % queueSize :: st.driver.ringStores ∧
    loadNat st'.driver.mem (st.disk.avail + 4 + 2 * (st.made.length % queueSize)) 2 = 0 ∧
    availIdx st'.driver.mem st.disk.avail = (st.made.length + 1) % 65536 ∧
    st'.consumed = st'.made ∧ ∀ i ∈ st'.driver.ringStores, i < queueSize

namespace VirtioInv

/-- With the condition, `avail->idx` is the number of requests. -/
theorem idx_eq (h : VirtioInv st)
    (hfirst : st.made = [] → availIdx st.driver.mem st.disk.avail = 0) :
    availIdx st.driver.mem st.disk.avail = st.made.length := by
  by_cases hm : st.made = []
  · rw [hfirst hm, hm]
    rfl
  · exact (h.idx hm).1

/-- The descriptors are not in the available ring. -/
theorem descriptors_avail (h : VirtioInv st) :
    st.disk.descriptors + 16384 ≤ st.disk.avail ∨ st.disk.avail + 2054 ≤ st.disk.descriptors :=
  h.heap.disjoint h.descriptors h.avail fun heq =>
    absurd (Prod.mk.inj heq).2 (by decide)

/-- Writing the descriptors leaves `avail->idx` alone. -/
theorem availIdx_writeDescriptors (h : VirtioInv st) (write : BitVec 32) (data req : Word) :
    availIdx (writeDescriptors st.driver.mem st.disk.descriptors write data req) st.disk.avail
      = availIdx st.driver.mem st.disk.avail := by
  have hdis := h.descriptors_avail
  have hsize : virtqAvailSize = 2054 := rfl
  exact availIdx_congr fun x h1 h2 => writeDescriptors_of_disjoint (by omega)

end VirtioInv

/-- What `disk_create_request_sync` has done when it starts to wait. -/
theorem diskSubmit_eq {d d' : DriverState} {disk : Virtioblk} {write sector : BitVec 32}
    {data req : Word} {sync : Nat} {live : List (Nat × Nat)} (h : HeapInv d.heap d.table live)
    (hres : diskSubmit d disk write data sector req = (sync, d')) (hs : sync ≠ 0) :
    HeapInv d'.heap d'.table ((sync, syncReadSize) :: live) ∧
    d'.ringStores = availIdx (writeDescriptors d.mem disk.descriptors write data req) disk.avail ::
      d.ringStores ∧
    d'.mem = storeNat (storeNat (publish (writeDescriptors d.mem disk.descriptors write data req)
      disk.avail 0) sync 8 disk.ptr) (sync + 8) 1 0 := by
  rw [diskSubmit] at hres
  generalize hk : kalloc _ syncReadSize = r at hres
  obtain ⟨p, d₁⟩ := r
  simp only [Prod.mk.injEq] at hres
  obtain ⟨rfl, rfl⟩ := hres
  obtain ⟨h₁, hm₁, hs₁⟩ : HeapInv d₁.heap d₁.table ((p, syncReadSize) :: live) ∧ d₁.mem = _ ∧
    d₁.ringStores = _ := HeapInv.kalloc (by exact h) hk hs
  refine ⟨h₁, hs₁, ?_⟩
  simp only [diskSetReg_mem, hm₁]

/-- The memory at the notification, seen from the device: the slot, `idx` and the descriptors of
    the request. -/
theorem VirtioInv.submitted (h : VirtioInv st) {write sector : BitVec 32} {data req : Word}
    {sync : Nat} {driver : DriverState}
    (hres : diskSubmit st.driver st.disk write data sector req = (sync, driver)) (hs : sync ≠ 0)
    (hk : availIdx st.driver.mem st.disk.avail < queueSize) :
    loadNat driver.mem (st.disk.avail + 4 + 2 * availIdx st.driver.mem st.disk.avail) 2 = 0 ∧
    availIdx driver.mem st.disk.avail = availIdx st.driver.mem st.disk.avail + 1 ∧
    chain driver.mem st.disk.descriptors queueSize 0 = requestBuffers write data req := by
  obtain ⟨hheap, -, hmem⟩ := diskSubmit_eq h.heap hres hs
  have hda := h.descriptors_avail
  have hsync : ∀ a : Nat × Nat, a ∈ st.live → a.2 ≠ syncReadSize →
      sync + 16 ≤ a.1 ∨ a.1 + a.2 ≤ sync := fun a ha hne =>
    hheap.disjoint List.mem_cons_self (List.mem_cons_of_mem _ ha) fun heq =>
      hne (congrArg Prod.snd heq).symm
  have hsa : sync + 16 ≤ st.disk.avail ∨ st.disk.avail + 2054 ≤ sync :=
    hsync _ h.avail (show virtqAvailSize ≠ syncReadSize by decide)
  have hsd : sync + 16 ≤ st.disk.descriptors ∨ st.disk.descriptors + 16384 ≤ sync :=
    hsync _ h.descriptors (show virtqDescSize * queueSize ≠ syncReadSize by decide)
  have hidx := h.availIdx_writeDescriptors write data req
  rw [show queueSize = 1024 from rfl] at hk
  -- the stores to the `Sync_read` are elsewhere
  have hload : ∀ a, st.disk.avail ≤ a → a + 2 ≤ st.disk.avail + 2054 → loadNat driver.mem a 2
      = loadNat (publish (writeDescriptors st.driver.mem st.disk.descriptors write data req)
        st.disk.avail 0) a 2 := by
    intro a h1 h2
    rw [hmem, loadNat_storeNat_disjoint (by omega), loadNat_storeNat_disjoint (by omega)]
  refine ⟨?_, ?_, ?_⟩
  · rw [hload _ (by omega) (by omega), ← hidx]
    exact slot_publish (by decide)
  · rw [availIdx, hload _ (by omega) (by omega), ← availIdx, availIdx_publish, hidx]
    omega
  · refine chain_writeDescriptors (m := st.driver.mem) fun x h1 h2 => ?_
    rw [hmem, storeNat_of_disjoint (by omega), storeNat_of_disjoint (by omega)]
    refine publish_of_disjoint (by omega) ?_
    rw [hidx]
    omega

/-- A device that is up to date finds the new request, and no other. -/
theorem deviceView_of_submitted {m : Mem} {disk : Virtioblk} {k : Nat} {buffers : List Buffer}
    (hk : k < queueSize) (hslot : loadNat m (disk.avail + 4 + 2 * k) 2 = 0)
    (hidx : availIdx m disk.avail = k + 1)
    (hchain : chain m disk.descriptors queueSize 0 = buffers) :
    deviceView m disk k = [buffers] := by
  rw [show queueSize = 1024 from rfl] at hk
  have hcount : (availIdx m disk.avail + 65536 - k % 65536) % 65536 = 1 := by omega
  have hmod : (k + 0) % queueSize = k := by
    rw [Nat.add_zero]
    exact Nat.mod_eq_of_lt hk
  rw [deviceView, pending, hcount]
  show [chain m disk.descriptors queueSize (loadNat m (disk.avail + 4 + 2 * ((k + 0) % queueSize)) 2)]
    = [buffers]
  rw [hmod, hslot, hchain]

/-- **A request** made under the condition is published, and keeps the invariant. -/
theorem VirtioInv.submit (h : VirtioInv st) {write sector : BitVec 32} {data req : Word}
    (hstep : VirtioStep st (.submit write sector data req) st')
    (hlen : st.made.length < queueSize)
    (hfirst : st.made = [] → availIdx st.driver.mem st.disk.avail = 0) :
    Published st (.submit write sector data req) st' ∧ VirtioInv st' := by
  obtain ⟨hw, sync, driver, hres, hs, rfl⟩ := hstep
  obtain ⟨hheap, hslots, -⟩ := diskSubmit_eq h.heap hres hs
  have hidx := h.idx_eq hfirst
  obtain ⟨hslot, hnext, hchain⟩ := h.submitted hres hs (by rw [hidx]; exact hlen)
  rw [hidx] at hslot hnext
  rw [h.availIdx_writeDescriptors, hidx] at hslots
  have hmod : st.made.length % queueSize = st.made.length := Nat.mod_eq_of_lt hlen
  have hconsumed : st.consumed ++ deviceView driver.mem st.disk st.consumed.length
      = st.made ++ [requestBuffers write data req] := by
    rw [h.consumed, deviceView_of_submitted hlen hslot hnext hchain]
  have hall : ∀ i ∈ driver.ringStores, i < queueSize := by
    rw [hslots]
    exact List.forall_mem_cons.mpr ⟨hlen, h.slots⟩
  rw [show queueSize = 1024 from rfl] at hlen
  constructor
  · intro _ _ _ _ _
    refine ⟨?_, ?_, ?_, hconsumed, hall⟩
    · rw [hmod]; exact hslots
    · rw [hmod]; exact hslot
    · rw [hnext]; omega
  · refine ⟨hheap, List.mem_cons_of_mem _ h.descriptors, List.mem_cons_of_mem _ h.avail, ?_,
      hconsumed, fun _ => ?_, hall⟩
    · intro sync' heq
      obtain rfl := Option.some.inj heq
      exact List.mem_cons_self
    · rw [List.length_append, List.length_singleton]
      exact ⟨hnext, by rw [show queueSize = 1024 from rfl]; omega⟩

/-- Every other event keeps the invariant. -/
theorem VirtioInv.other (h : VirtioInv st) {e : VirtioEvent} (hstep : VirtioStep st e st')
    (hother : ∀ write sector data req, e ≠ .submit write sector data req) : VirtioInv st' := by
  cases e with
  | alloc size =>
    obtain ⟨hs, hheap, rfl⟩ := hstep
    have hsub : ∀ a ∈ st.live, a ∈ hs.live := fun a ha => hheap.keeps ha nofun
    exact ⟨HeapInv.step h.heap hheap, hsub _ h.descriptors, hsub _ h.avail,
      fun sync hw => hsub _ (h.waiting sync hw), h.consumed, h.idx, h.slots⟩
  | free p size =>
    obtain ⟨hd, ha, -, hw, hs, hheap, rfl⟩ := hstep
    have hsub : ∀ a ∈ st.live, p ≠ a.1 → a ∈ hs.live := by
      intro a hm hne
      refine hheap.keeps hm fun he => hne ?_
      exact (HeapEvent.free.inj he).1
    refine ⟨HeapInv.step h.heap hheap, hsub _ h.descriptors hd, hsub _ h.avail ha, ?_, h.consumed,
      h.idx, h.slots⟩
    exact fun sync hsync => hsub _ (h.waiting sync hsync) fun heq => hw (heq ▸ hsync)
  | write m =>
    obtain ⟨hkeep, rfl⟩ := hstep
    refine ⟨h.heap, h.descriptors, h.avail, h.waiting, h.consumed, fun hne => ?_, h.slots⟩
    rw [availIdx_congr hkeep]
    exact h.idx hne
  | submit write sector data req => exact absurd rfl (hother write sector data req)
  | interrupt device =>
    obtain ⟨sync, hw, rfl⟩ := hstep
    refine ⟨h.heap, h.descriptors, h.avail, h.waiting, h.consumed, fun hne => ?_, h.slots⟩
    have hdis := h.heap.disjoint (h.waiting sync hw) h.avail fun heq =>
      absurd (Prod.mk.inj heq).2 (by decide)
    have hsize : syncReadSize = 16 ∧ virtqAvailSize = 2054 := ⟨rfl, rfl⟩
    have hidx : availIdx (diskHandleInterruptSync device st.driver st.disk sync).mem st.disk.avail
        = availIdx st.driver.mem st.disk.avail :=
      loadNat_storeNat_disjoint (by simp only at hdis; omega)
    rw [hidx]
    exact h.idx hne
  | finish =>
    obtain ⟨sync, hw, -, rfl⟩ := hstep
    have hheap : HeapStep st.heapState (.free sync syncReadSize)
        ⟨(diskFinish st.driver sync).heap, (diskFinish st.driver sync).table,
          st.live.erase (sync, syncReadSize)⟩ := ⟨h.waiting sync hw, rfl, rfl⟩
    have hsub : ∀ a ∈ st.live, a.2 ≠ syncReadSize → a ∈ st.live.erase (sync, syncReadSize) :=
      fun a hm hne => (List.mem_erase_of_ne fun heq => hne (congrArg Prod.snd heq)).mpr hm
    refine ⟨HeapInv.step h.heap hheap, hsub _ h.descriptors ?_, hsub _ h.avail ?_,
      fun _ hsome => absurd hsome (by simp), h.consumed, h.idx, h.slots⟩
    · show virtqDescSize * queueSize ≠ syncReadSize
      decide
    · show virtqAvailSize ≠ syncReadSize
      decide

/-- One event that meets the condition keeps the invariant. -/
theorem VirtioInv.step (h : VirtioInv st) {e : VirtioEvent} (hstep : VirtioStep st e st')
    (hok : FirstRound st e st') : VirtioInv st' := by
  by_cases he : ∃ write sector data req, e = .submit write sector data req
  · obtain ⟨write, sector, data, req, rfl⟩ := he
    obtain ⟨hlen, hfirst⟩ := hok write sector data req rfl
    exact (h.submit hstep hlen hfirst).2
  · exact h.other hstep fun write sector data req heq => he ⟨write, sector, data, req, heq⟩

/-- One request is published exactly when the condition holds. -/
theorem VirtioInv.published_iff (h : VirtioInv st) {e : VirtioEvent}
    (hstep : VirtioStep st e st') : Published st e st' ↔ FirstRound st e st' := by
  constructor
  · rintro hpub write sector data req rfl
    obtain ⟨hslots, -⟩ := hpub write sector data req rfl
    obtain ⟨-, sync, driver, hres, hs, rfl⟩ := hstep
    obtain ⟨-, hstored, -⟩ := diskSubmit_eq h.heap hres hs
    -- the slot that was stored to is `idx` itself
    have hidx : availIdx st.driver.mem st.disk.avail = st.made.length % queueSize := by
      rw [h.availIdx_writeDescriptors] at hstored
      exact (List.cons.inj (hstored.symm.trans hslots)).1
    have hqueue : queueSize = 1024 := rfl
    by_cases hm : st.made = []
    · rw [hm] at hidx ⊢
      exact ⟨by decide, fun _ => hidx⟩
    · obtain ⟨hlen, hle⟩ := h.idx hm
      rw [hqueue] at hidx hle ⊢
      exact ⟨by omega, fun hnil => absurd hnil hm⟩
  · rintro hok write sector data req rfl
    obtain ⟨hlen, hfirst⟩ := hok write sector data req rfl
    exact (h.submit hstep hlen hfirst).1 write sector data req rfl

/-- **The available ring over whole runs.**  Every request of a run is published as the protocol
    demands if and only if every request is among the first `QUEUE_SIZE` and the first one finds
    `avail->idx` at 0.  `disk_init` does not set `avail->idx`, which is in memory from `kalloc`, and
    `disk_create_request_sync` uses it as an index of the ring as it is, where the device reduces it
    modulo the size of the queue. -/
theorem available_ring_protocol_iff {st st' : VirtioState}
    {tr : List (VirtioState × VirtioEvent × VirtioState)} (h0 : virtioMachine.start st)
    (hr : virtioMachine.Run st tr st') :
    (∀ a e b, (a, e, b) ∈ tr → Published a e b) ↔
      (∀ a e b, (a, e, b) ∈ tr → FirstRound a e b) := by
  refine hr.forall_iff_of_invariant (I := VirtioInv) ?_ ?_ (DiskReady.inv h0)
  · intro a e b h hstep
    exact h.published_iff hstep
  · intro a e b h hstep hok
    exact h.step hstep hok

/-! ## A first request -/

/-- A heap of 16 free blocks. -/
def smallHeap : Heap := ⟨0x40180000, 0x40100000, 16, 16⟩

/-- A driver over memory that is filled with `b`. -/
def freshDriver (b : Byte) : DriverState where
  heap := smallHeap
  table := fun _ => 0
  mem := fun _ => b
  stack := fun _ => 0
  writes := []
  handlerParam := none
  fiqMasked := true
  ringStores := []

/-- A block device in slot 31 that accepts the driver. -/
def blockDevice : DeviceRegs := fun _ reg =>
  if reg = 0xa003e00 then virtioDiskMagicValue else if reg = 0xa003e04 then 2
  else if reg = 0xa003e08 then 2 else if reg = 0xa003e70 then virtioStatusFeaturesOk else 0

/-- `disk_init(&disk, 31)`; irreducible, since only the kernel is to run it. -/
@[irreducible] def initialised (b : Byte) : Int × Virtioblk × DriverState :=
  diskInit blockDevice (freshDriver b) ⟨0x50010000, 0, 0, 0, 0⟩ 31

/-- The driver after it. -/
def readyState (b : Byte) : VirtioState where
  disk := (initialised b).2.1
  driver := (initialised b).2.2
  live := [((initialised b).2.1.used, virtqUsedSize), ((initialised b).2.1.avail, virtqAvailSize),
    ((initialised b).2.1.descriptors, virtqDescSize * queueSize)]
  waiting := none
  made := []
  consumed := []

/-- A first request: sector 5 is to be read to 0x41000000. -/
def firstEvent : VirtioEvent := .submit 0 5 0x41000000 0x50010100

theorem initialised_eq (b : Byte) :
    diskInit blockDevice (freshDriver b) ⟨0x50010000, 0, 0, 0, 0⟩ 31 = initialised b := by
  delta initialised
  with_reducible rfl

/-- What `disk_init` leaves over memory filled with `b`: its result and the rings, the heap, a record
    that is granted for the first request, and the value of `avail->idx`, which it does not set. -/
abbrev InitialisedChecks (b : Byte) (idx : Nat) : Prop :=
  (initialised b).1 = 0 ∧ (initialised b).2.1.descriptors ≠ 0 ∧
    (initialised b).2.1.avail ≠ 0 ∧ (initialised b).2.1.used ≠ 0 ∧
    (initialised b).2.2.heap.heapStartAddress = 0x40180000 ∧
    (initialised b).2.2.heap.blocks = 16 ∧
    (diskSubmit (initialised b).2.2 (initialised b).2.1 0 0x41000000 5 0x50010100).1 ≠ 0 ∧
    (diskSubmit (initialised b).2.2 (initialised b).2.1 0 0x50010200 5 0x50010100).1 ≠ 0 ∧
    availIdx (initialised b).2.2.mem (initialised b).2.1.avail = idx

theorem zeroedMemory_checks : InitialisedChecks 0 0 := by
  decide +kernel

theorem filledMemory_checks : InitialisedChecks 0xff 65535 := by
  decide +kernel

theorem readyState_ready {b : Byte} {idx : Nat} (h : InitialisedChecks b idx) :
    DiskReady (readyState b) := by
  obtain ⟨hcode, hd, ha, hu, -⟩ := h
  have hheap : HeapInv smallHeap (fun _ => 0) [] :=
    HeapInv.start (m := fun _ => 0) ⟨by decide, by decide, by decide, by decide⟩ rfl
      (fun _ _ => by simp only)
  have hinit : initialised b = (0, (readyState b).disk, (readyState b).driver) :=
    Prod.ext hcode rfl
  exact ⟨blockDevice, freshDriver b, ⟨0x50010000, 0, 0, 0, 0⟩, 31, [], hheap, rfl,
    (initialised_eq b).trans hinit, hd, ha, hu, rfl, rfl, rfl, rfl⟩

/-- A request in a state that has made none before. -/
theorem submit_exists (st : VirtioState) (hw : st.waiting = none) {write sector : BitVec 32}
    {data req : Word} (hs : (diskSubmit st.driver st.disk write data sector req).1 ≠ 0) :
    ∃ st', VirtioStep st (.submit write sector data req) st' :=
  ⟨_, hw, _, _, rfl, hs, rfl⟩

/-- Over zeroed memory the first request is published as it should. -/
theorem available_ring_protocol_iff_zeroed : ∃ st,
    virtioMachine.Run (readyState 0) [(readyState 0, firstEvent, st)] st ∧
    Published (readyState 0) firstEvent st := by
  have hready : virtioMachine.start (readyState 0) := readyState_ready zeroedMemory_checks
  obtain ⟨-, -, -, -, -, -, hgranted, -, hidx⟩ := zeroedMemory_checks
  obtain ⟨st, hstep⟩ : ∃ st, virtioMachine.step (readyState 0) firstEvent st :=
    submit_exists (readyState 0) rfl hgranted
  have hrun : virtioMachine.Run (readyState 0) [(readyState 0, firstEvent, st)] st :=
    .cons hstep (.nil _)
  refine ⟨st, hrun, ?_⟩
  refine (available_ring_protocol_iff hready hrun).mpr ?_ _ _ _ List.mem_cons_self
  intro a e b hm write sector data req _
  obtain ⟨rfl, -⟩ := Prod.mk.inj (List.mem_singleton.mp hm)
  exact ⟨by decide, fun _ => hidx⟩

/-- Over memory filled with 0xff the first request goes to slot 65535. -/
theorem available_ring_garbage : virtioMachine.start (readyState 0xff) ∧ ∃ st,
    virtioMachine.Run (readyState 0xff) [(readyState 0xff, firstEvent, st)] st ∧
    ¬ Published (readyState 0xff) firstEvent st := by
  have hready : virtioMachine.start (readyState 0xff) := readyState_ready filledMemory_checks
  obtain ⟨-, -, -, -, -, -, hgranted, -, hidx⟩ := filledMemory_checks
  obtain ⟨st, hstep⟩ : ∃ st, VirtioStep (readyState 0xff) firstEvent st :=
    submit_exists (readyState 0xff) rfl hgranted
  refine ⟨hready, st, .cons hstep (.nil _), fun hpub => ?_⟩
  obtain ⟨-, hzero⟩ := ((DiskReady.inv hready).published_iff hstep).mp hpub _ _ _ _ rfl
  exact absurd (hidx.symm.trans (hzero rfl)) (by decide)

end TinyKernel
