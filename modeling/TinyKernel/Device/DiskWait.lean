/-
  What a synchronous disk request waits for.

  `disk_create_request_sync` waits for `sync->done`, and `disk_handle_interrupt_sync` sets it: on
  EVERY interrupt of line 79.  Neither looks at the used ring or at the status byte that the
  device writes behind the request.

  `diskWaitMachine` starts after a successful `disk_init` and makes requests one at a time.  While
  a request waits, the device may complete it (any status byte, any data) and line 79 may interrupt
  for any reason; between requests the rest of the kernel does what it likes, and stray interrupts
  reach the handler too, with the record of the last request as argument.  The ghost `completed`
  is the status with which the device has completed the request that is waiting.

  The flag and the completion are tied together by one thing only, the moments at which the line
  interrupts, and `disk_request_reports_iff` says so: a request never reports a success that did
  not happen if and only if the line never interrupts a wait before the success.
-/
import TinyKernel.Device.VirtioblkRun

namespace TinyKernel

/-- The driver, the heap regions in use, the `Sync_read` and the request record of the call that
    is waiting, and how the device has completed its request. -/
structure DiskState where
  disk : Virtioblk
  driver : DriverState
  live : List (Nat × Nat)
  waiting : Option (Nat × Word)
  completed : Option Byte

inductive DiskEvent
  /-- The rest of the kernel runs: the heap, and the memory of its blocks. -/
  | kernel (e : HeapEvent) (m : Mem)
  /-- `disk_create_request_sync` is called, by `block_read` with `write` 0 or by `block_write` with
      `write` 1, and reaches its busy wait. -/
  | submit (write sector : BitVec 32) (data req : Word)
  /-- The device completes the request: the status, the bytes it wrote, the stack with the data. -/
  | complete (status : Byte) (len : Nat) (stack : Mem)
  /-- Line 79 interrupts: buffers were used, the configuration changed, or nothing happened. -/
  | interrupt (device : DeviceRegs)
  /-- The busy wait ends and the call returns `result`. -/
  | finish (result : Int)

/-- One event.  `kalloc` is taken to succeed for the driver, which does not check it. -/
def DiskStep (st : DiskState) : DiskEvent → DiskState → Prop
  | .kernel e m, st' => st.waiting = none ∧ (∀ size, e ≠ .free st.disk.used size) ∧
      ∃ h, HeapStep ⟨st.driver.heap, st.driver.table, st.live⟩ e h ∧
        st' = { st with
          driver := { st.driver with heap := h.heap, table := h.mem, mem := m }
          live := h.live }
  | .submit write sector data req, st' => st.waiting = none ∧
      ∃ sync driver, diskSubmit st.driver st.disk write data sector req = (sync, driver) ∧
        sync ≠ 0 ∧ st' =
          { st with
            driver := driver
            live := (sync, syncReadSize) :: st.live
            waiting := some (sync, req)
            completed := none }
  | .complete status len stack, st' => st.completed = none ∧ ∃ sync req,
      st.waiting = some (sync, req) ∧ stack (req + 16).toNat = status ∧
        st' = { st with
          driver := { st.driver with
            stack := stack
            mem := usedPush st.driver.mem st.disk.used 0 len }
          completed := some status }
  | .interrupt device, st' =>
      match st.driver.handlerParam with
      | some sync => st' =
          { st with driver := diskHandleInterruptSync device st.driver st.disk sync }
      | none => st' = st
  | .finish result, st' => ∃ sync req driver, st.waiting = some (sync, req) ∧
      syncDone st.driver sync ∧ diskReturn st.driver sync = (result, driver) ∧
        st' = { st with
          driver := driver
          live := st.live.erase (sync, syncReadSize)
          waiting := none }

/-- Requests after a `disk_init` that returned 0. -/
def diskWaitMachine : Machine DiskState DiskEvent where
  start st := ∃ v, DiskReady v ∧ st = ⟨v.disk, v.driver, v.live, none, none⟩
  step := DiskStep

/-- If the call that is waiting can return 0 now, the device has completed its request with
    status 0. -/
def ReportsTruth (st : DiskState) : Prop :=
  ∀ st', DiskStep st (.finish 0) st' → st.completed = some 0

/-- The line does not interrupt a wait before the device has completed the request with
    status 0. -/
def InterruptsAfterSuccess (st : DiskState) (e : DiskEvent) : Prop :=
  ∀ device, e = .interrupt device → st.waiting ≠ none → st.completed = some 0

/-! ## The invariant -/

/-- The used ring and the record of the wait are live regions, and the handler gets the record. -/
structure DiskInv (st : DiskState) : Prop where
  heap : HeapInv st.driver.heap st.driver.table st.live
  used : (st.disk.used, virtqUsedSize) ∈ st.live
  waiting : ∀ sync req, st.waiting = some (sync, req) →
    (sync, syncReadSize) ∈ st.live ∧ st.driver.handlerParam = some sync

variable {st st' : DiskState}

/-- The call can return exactly when the flag is set. -/
theorem reportsTruth_iff :
    ReportsTruth st ↔ ∀ sync req, st.waiting = some (sync, req) → syncDone st.driver sync →
      st.completed = some 0 := by
  constructor
  · intro h sync req hw hdone
    exact h _ ⟨sync, req, _, hw, hdone, rfl, rfl⟩
  · rintro h st' ⟨sync, req, -, hw, hdone, -, -⟩
    exact h sync req hw hdone

/-- The device writes the used ring and nothing else of the heap. -/
theorem usedPush_of_disjoint {m : Mem} {used id len x : Nat}
    (h : x < used ∨ used + virtqUsedSize ≤ x) : usedPush m used id len x = m x := by
  have hsize : virtqUsedSize = 4 + 8 * 1024 + 2 := rfl
  have hslot : loadNat m (used + 2) 2 % queueSize < 1024 := Nat.mod_lt _ (by decide)
  unfold usedPush
  rw [storeNat_of_disjoint (by omega), storeNat_of_disjoint (by omega),
    storeNat_of_disjoint (by omega)]

theorem DiskInv.start (h : diskWaitMachine.start st) : DiskInv st ∧ ReportsTruth st := by
  obtain ⟨v, hready, rfl⟩ := h
  have hused : (v.disk.used, virtqUsedSize) ∈ v.live := by
    obtain ⟨device, before, disk, offset, live, -, -, -, -, -, -, hlive, -⟩ := hready
    rw [hlive]
    exact List.mem_cons_self
  exact ⟨⟨hready.inv.heap, hused, fun _ _ hw => absurd hw (by simp)⟩,
    reportsTruth_iff.mpr fun _ _ hw => absurd hw (by simp)⟩

namespace DiskInv

/-- A request starts to wait with its flag cleared. -/
theorem submit (h : DiskInv st) {write sector : BitVec 32} {data req : Word}
    (hstep : DiskStep st (.submit write sector data req) st') :
    DiskInv st' ∧ ReportsTruth st' := by
  obtain ⟨-, sync, driver, hres, hs, rfl⟩ := hstep
  obtain ⟨hheap, -, hmem⟩ := diskSubmit_eq h.heap hres hs
  have hparam : driver.handlerParam = some sync := by
    rw [diskSubmit] at hres
    obtain ⟨rfl, rfl⟩ := Prod.mk.inj hres
    rfl
  refine ⟨⟨hheap, List.mem_cons_of_mem _ h.used, ?_⟩, reportsTruth_iff.mpr ?_⟩
  · intro sync' req' hw
    obtain ⟨rfl, -⟩ := Prod.mk.inj (Option.some.inj hw)
    exact ⟨List.mem_cons_self, hparam⟩
  · intro sync' req' hw hdone
    obtain ⟨rfl, -⟩ := Prod.mk.inj (Option.some.inj hw)
    refine absurd ?_ hdone
    show driver.mem (sync + 8) = 0
    rw [hmem, storeNat, if_pos (by omega)]
    simp

/-- The device does not touch the flag. -/
theorem complete (h : DiskInv st) (ht : ReportsTruth st) {status : Byte} {len : Nat} {stack : Mem}
    (hstep : DiskStep st (.complete status len stack) st') : DiskInv st' ∧ ReportsTruth st' := by
  obtain ⟨hopen, sync, req, hw, -, rfl⟩ := hstep
  refine ⟨⟨h.heap, h.used, h.waiting⟩, reportsTruth_iff.mpr ?_⟩
  intro sync' req' hw' hdone
  have hdis := h.heap.disjoint (h.waiting sync' req' hw').1 h.used fun heq =>
    absurd (Prod.mk.inj heq).2 (by decide)
  have hsize : syncReadSize = 16 := rfl
  have hflag : usedPush st.driver.mem st.disk.used 0 len (sync' + 8) = st.driver.mem (sync' + 8) :=
    usedPush_of_disjoint (by simp only at hdis; omega)
  -- before the completion the call could not return
  have hbefore := reportsTruth_iff.mp ht sync' req' hw' (by
    unfold syncDone at hdone ⊢
    rwa [← hflag])
  exact absurd (hopen.symm.trans hbefore) (by simp)

/-- An interrupt lets a call that waits return. -/
theorem interrupt (h : DiskInv st) {device : DeviceRegs}
    (hstep : DiskStep st (.interrupt device) st') :
    DiskInv st' ∧ (ReportsTruth st' ↔ InterruptsAfterSuccess st (.interrupt device)) := by
  have hcases : st'.waiting = st.waiting ∧ st'.completed = st.completed ∧ DiskInv st' ∧
      ∀ sync req, st.waiting = some (sync, req) → syncDone st'.driver sync := by
    unfold DiskStep at hstep
    cases hparam : st.driver.handlerParam with
    | none =>
      rw [hparam] at hstep
      obtain rfl := hstep
      refine ⟨rfl, rfl, h, fun sync req hw => ?_⟩
      rw [(h.waiting sync req hw).2] at hparam
      exact absurd hparam (by simp)
    | some p =>
      rw [hparam] at hstep
      obtain rfl := hstep
      refine ⟨rfl, rfl, ⟨h.heap, h.used, h.waiting⟩, fun sync req hw => ?_⟩
      obtain rfl := Option.some.inj ((h.waiting sync req hw).2.symm.trans hparam)
      unfold syncDone
      show storeNat st.driver.mem (sync + 8) 1 1 (sync + 8) ≠ 0
      rw [storeNat, if_pos (by omega)]
      simp
  obtain ⟨hw', hc', hinv, hdone⟩ := hcases
  refine ⟨hinv, ?_⟩
  rw [reportsTruth_iff, hw', hc']
  constructor
  · intro ht _ _ hwait
    obtain ⟨⟨sync, req⟩, hw⟩ := Option.ne_none_iff_exists'.mp hwait
    exact ht sync req hw (hdone sync req hw)
  · intro hok sync req hw _
    exact hok device rfl (by rw [hw]; simp)

/-- One event, from a state in which the call that waits can only report the truth. -/
theorem step (h : DiskInv st) (ht : ReportsTruth st) {e : DiskEvent} (hstep : DiskStep st e st') :
    DiskInv st' ∧ (ReportsTruth st' ↔ InterruptsAfterSuccess st e) := by
  cases e with
  | kernel e m =>
    obtain ⟨hidle, hkeep, hs, hheap, rfl⟩ := hstep
    refine ⟨⟨HeapInv.step h.heap hheap, ?_, fun sync req hw => ?_⟩,
      fun _ _ he => absurd he (by simp), fun _ => reportsTruth_iff.mpr fun sync req hw => ?_⟩
    · exact hheap.keeps h.used fun he => hkeep _ he
    · exact absurd (hidle.symm.trans hw) (by simp)
    · exact absurd (hidle.symm.trans hw) (by simp)
  | submit write sector data req =>
    obtain ⟨hinv, htruth⟩ := h.submit hstep
    exact ⟨hinv, fun _ _ he => absurd he (by simp), fun _ => htruth⟩
  | complete status len stack =>
    obtain ⟨hinv, htruth⟩ := h.complete ht hstep
    exact ⟨hinv, fun _ _ he => absurd he (by simp), fun _ => htruth⟩
  | interrupt device => exact h.interrupt hstep
  | finish result =>
    obtain ⟨sync, req, driver, hw, -, hret, rfl⟩ := hstep
    obtain ⟨-, rfl⟩ := Prod.mk.inj hret
    have hheap : HeapStep ⟨st.driver.heap, st.driver.table, st.live⟩ (.free sync syncReadSize)
        ⟨(diskFinish st.driver sync).heap, (diskFinish st.driver sync).table,
          st.live.erase (sync, syncReadSize)⟩ := ⟨(h.waiting sync req hw).1, rfl, rfl⟩
    refine ⟨⟨HeapInv.step h.heap hheap, ?_, fun _ _ hnone => absurd hnone (by simp)⟩,
      fun _ _ he => absurd he (by simp),
      fun _ => reportsTruth_iff.mpr fun _ _ hnone => absurd hnone (by simp)⟩
    exact (List.mem_erase_of_ne fun heq => absurd (Prod.mk.inj heq).2 (by decide)).mpr h.used

end DiskInv

/-- **Synchronous requests over whole runs.**  In every state of a run a request that can return 0
    has been completed by the device with status 0, if and only if no interrupt of line 79 meets a
    waiting request that has not.  The handler of line 79 sets `done` without a look at the status
    byte or at the used ring, and `disk_create_request_sync` returns 0 whatever has come of the
    request. -/
theorem disk_request_reports_iff {st st' : DiskState}
    {tr : List (DiskState × DiskEvent × DiskState)} (h0 : diskWaitMachine.start st)
    (hr : diskWaitMachine.Run st tr st') :
    (∀ a e b, (a, e, b) ∈ tr → ReportsTruth b) ↔
      (∀ a e b, (a, e, b) ∈ tr → InterruptsAfterSuccess a e) := by
  refine hr.forall_iff_of_invariant (I := fun st => DiskInv st ∧ ReportsTruth st)
    (P := fun _ _ b => ReportsTruth b) (Q := fun a e _ => InterruptsAfterSuccess a e) ?_ ?_
    (DiskInv.start h0)
  · exact fun a e b h hstep => (h.1.step h.2 hstep).2
  · intro a e b h hstep hok
    obtain ⟨hinv, hiff⟩ := h.1.step h.2 hstep
    exact ⟨hinv, hiff.mpr hok⟩

/-- The driver over zeroed memory, before its first request. -/
def readyDisk : DiskState :=
  ⟨(readyState 0).disk, (readyState 0).driver, (readyState 0).live, none, none⟩

theorem readyDisk_start : diskWaitMachine.start readyDisk :=
  ⟨readyState 0, readyState_ready zeroedMemory_checks, rfl⟩

/-- A first request starts to wait. -/
theorem readyDisk_submit : ∃ st sync, DiskStep readyDisk (.submit 0 5 0x41000000 0x50010100) st ∧
    st.waiting = some (sync, 0x50010100) ∧ st.completed = none := by
  obtain ⟨-, -, -, -, -, -, hgranted, -⟩ := zeroedMemory_checks
  exact ⟨_, _, ⟨rfl, _, _, rfl, hgranted, rfl⟩, rfl, rfl⟩

/-- A request whose success is followed by the interrupt. -/
theorem disk_request_reports_iff_success : ∃ a b c,
    diskWaitMachine.Run readyDisk
      [(readyDisk, .submit 0 5 0x41000000 0x50010100, a), (a, .complete 0 513 fun _ => 0, b),
        (b, .interrupt fun _ _ => 1, c)] c ∧ ReportsTruth c := by
  obtain ⟨a, sync, hsubmit, hw, hopen⟩ := readyDisk_submit
  have hcomplete : ∃ b, DiskStep a (.complete 0 513 fun _ => 0) b ∧ b.completed = some 0 :=
    ⟨_, ⟨hopen, sync, _, hw, rfl, rfl⟩, rfl⟩
  obtain ⟨b, hcomplete, hdone⟩ := hcomplete
  have hinterrupt : ∃ c, DiskStep b (.interrupt fun _ _ => 1) c := by
    unfold DiskStep
    cases b.driver.handlerParam with
    | none => exact ⟨b, rfl⟩
    | some p => exact ⟨_, rfl⟩
  obtain ⟨c, hinterrupt⟩ := hinterrupt
  have hrun : diskWaitMachine.Run readyDisk
      [(readyDisk, .submit 0 5 0x41000000 0x50010100, a), (a, .complete 0 513 fun _ => 0, b),
        (b, .interrupt fun _ _ => 1, c)] c :=
    .cons hsubmit (.cons hcomplete (.cons hinterrupt (.nil _)))
  refine ⟨a, b, c, hrun, (disk_request_reports_iff readyDisk_start hrun).mpr ?_ b
    (.interrupt fun _ _ => 1) c (by simp)⟩
  rintro a' e' b' hm device rfl hwait
  simp only [List.mem_cons, Prod.mk.injEq, List.not_mem_nil, or_false, reduceCtorEq, false_and,
    and_false, false_or] at hm
  rw [hm.1]
  exact hdone

/-- The configuration of the device changes while a request waits: the request returns 0, though
    the device has not touched it. -/
theorem disk_request_reports_early : ∃ a b c,
    diskWaitMachine.Run readyDisk
      [(readyDisk, .submit 0 5 0x41000000 0x50010100, a), (a, .interrupt fun _ _ => 2, b),
        (b, .finish 0, c)] c ∧ b.completed = none := by
  obtain ⟨a, sync, hsubmit, hw, hopen⟩ := readyDisk_submit
  obtain ⟨hinv, -⟩ := (DiskInv.start readyDisk_start).1.submit hsubmit
  have hstep : DiskStep a (.interrupt fun _ _ => 2)
      { a with driver := diskHandleInterruptSync (fun _ _ => 2) a.driver a.disk sync } := by
    unfold DiskStep
    rw [(hinv.waiting sync _ hw).2]
  have hdone : syncDone (diskHandleInterruptSync (fun _ _ => 2) a.driver a.disk sync) sync := by
    unfold syncDone
    show storeNat a.driver.mem (sync + 8) 1 1 (sync + 8) ≠ 0
    rw [storeNat, if_pos (by omega)]
    simp
  exact ⟨a, _, _, .cons hsubmit (.cons hstep
    (.cons ⟨sync, _, _, hw, hdone, rfl, rfl⟩ (.nil _))), hopen⟩

end TinyKernel
