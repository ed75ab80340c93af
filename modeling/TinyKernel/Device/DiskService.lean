/-
  The disk as its callers see it: sectors that are read and written as a whole.

  `DiskSystem` is the driver together with a device that keeps to the rules: it finds the queue at
  the addresses in its registers, serves the requests of the available ring in order and once each,
  moves 512 bytes between the sector and the buffer that the chain names, and interrupts line 79
  from then on until the interrupt is acknowledged.  When it serves a request is up to it.  The
  device sees memory as it is; the heap and the stack are parts of it (`DriverState.bus`).  What an
  interrupt for another reason does is in `Device.DiskWait`.

  A call of `block_read` or `block_write` then takes effect once, between its start and its return:
  the system is the service `cells` of `Lib.Service`, sector by sector (`disk_is_cells`), as long as
  the ring has not been filled once, the first request finds `avail->idx` at 0, and the disk has the
  sectors that are asked for (`CallInRange`).  The reads of the FAT code rest on this: `blockRead` of
  `Fs.Fat` is what a call leaves in its buffer.

  Two things carry the proof: where the caller's buffer and the record of the request are
  (`BufferPlaced`, `RecordPlaced`), so that the device writes to nothing that the driver reads; and
  the phase of the call (`Requested`, then `Served`), which ties the ring, the flag and the line
  together.

  The driver is synchronous: a call submits one request and waits for its interrupt, so at most one
  request is under way, and the ring holds nothing that the device has not served but that one.  This
  is `DiskSystemInv.phase`.  From it a call is at each moment in one of three states of the service:
  not there, requested, or done, and the device's step is the moment at which it takes effect
  (`serviceEvent`).  What the caller gets is then what the device moved: for a read, the bytes of the
  sector at that moment, since nothing stores to the buffer between the device and the return.

  Two facts of the source are in the conditions and not in the proof.  `avail->ring` is indexed by
  `avail->idx` itself, and not by it modulo the size of the queue, so the 1025th request is written
  behind the ring (`Device.VirtioblkRun`); and `sync->done` is set by any interrupt of line 79,
  whatever it was for (`Device.DiskWait`).  A device that interrupts for other reasons, or a timer
  interrupt in the busy wait, is outside of this module: FIQs are unmasked there, and with a second
  RUNNING job the wait is left for good (`Mp.KernelTimer`).
-/
import TinyKernel.Alloc.HeapTable
import TinyKernel.Device.DiskWait
import TinyKernel.Fs.Fat
import TinyKernel.Lib.Service

namespace TinyKernel

/-! ## The device -/

namespace DriverState

/-- The value of a register that the driver wrote last. -/
def register (d : DriverState) (reg : Nat) : Nat := (d.writes.lookup reg).getD 0

/-- Blocks of the heap. -/
def inHeap (d : DriverState) (a : Nat) : Bool :=
  d.heap.heapStartAddress ≤ a ∧ a < d.heap.heapStartAddress + 4096 * d.heap.blocks

/-- Memory, as the device sees it. -/
def bus (d : DriverState) : Mem := fun a => if d.inHeap a then d.mem a else d.stack a

/-- The device has written to memory. -/
def setBus (d : DriverState) (m : Mem) : DriverState :=
  { d with
    mem := fun a => if d.inHeap a then m a else d.mem a
    stack := fun a => if d.inHeap a then d.stack a else m a }

/-- The bytes of a buffer. -/
def bufferBytes (d : DriverState) (ptr : Nat) : List Byte :=
  (List.range sectorSize).map fun i => d.bus (ptr + i)

end DriverState

/-- A pair of registers with an address. -/
def queueAddress (d : DriverState) (disk : Virtioblk) (low high : Nat) : Nat :=
  d.register (disk.mmio + low) + 4294967296 * d.register (disk.mmio + high)

/-- A request for a disk of `sectors` sectors: the disk and memory afterwards.  The last buffer gets
    the status. -/
def serveRequest (sectors : Nat) (image m : Mem) : List Buffer → Mem × Mem
  | [header, data, status] =>
    let type := loadNat m header.addr 4
    let sector := loadNat m (header.addr + 8) 8
    if type = 0 ∧ sector < sectors ∧ data.deviceWrites = true then
      let m := fun a => if data.addr ≤ a ∧ a < data.addr + data.len
        then image (sectorSize * sector + (a - data.addr)) else m a
      (image, storeNat m status.addr 1 0)
    else if type = 1 ∧ sector < sectors ∧ data.deviceWrites = false then
      let image := fun a => if sectorSize * sector ≤ a ∧ a < sectorSize * sector + data.len
        then m (data.addr + (a - sectorSize * sector)) else image a
      (image, storeNat m status.addr 1 0)
    else (image, storeNat m status.addr 1 1)
  | _ => (image, m)

/-! ## The driver with the device -/

/-- A call of `block_read` or `block_write`, and the bytes of its buffer when it was made. -/
structure DiskCall where
  write : Bool
  ptr : Word
  n : Word
  req : Word
  bytes : List Byte

/-- The driver, the call that waits, and the device: its sectors, how many requests it has served,
    and the bit of the interrupt status. -/
structure DiskSystem where
  virtio : VirtioState
  call : Option DiskCall
  image : Mem
  served : Nat
  line : Bool

/-- What happens in a run. -/
inductive DiskSystemEvent
  /-- The rest of the kernel runs: the heap and its blocks, .. -/
  | kernel (e : VirtioEvent)
  /-- .. and other memory. -/
  | stack (m : Mem)
  /-- `block_read(block, ptr, n)` or `block_write(block, ptr, n)`, up to the busy wait. -/
  | call (write : Bool) (ptr n req : Word)
  /-- The device serves a request, and says how many bytes it wrote. -/
  | serve (len : Nat)
  | interrupt
  /-- The busy wait ends and the call returns. -/
  | finish

/-- The record of a request is on the stack, outside of the caller's buffer. -/
structure RecordPlaced (d : DriverState) (ptr req : Word) : Prop where
  buffer_end : ptr.toNat + sectorSize ≤ 2 ^ 64
  record_end : req.toNat + 17 ≤ 2 ^ 64
  record : ∀ i, i < 17 → d.inHeap (req.toNat + i) = false
  apart : ptr.toNat + sectorSize ≤ req.toNat ∨ req.toNat + 17 ≤ ptr.toNat

/-- The caller's buffer is on the stack, or in a region of the heap that is not the driver's. -/
def BufferPlaced (v : VirtioState) (ptr : Word) : Prop :=
  (∀ i, i < sectorSize → v.driver.inHeap (ptr.toNat + i) = false) ∨
  ∃ a ∈ v.live, a.1 ≤ ptr.toNat ∧ ptr.toNat + sectorSize ≤ a.1 + a.2 ∧
    a ≠ (v.disk.descriptors, virtqDescSize * queueSize) ∧ a ≠ (v.disk.avail, virtqAvailSize) ∧
    a ≠ (v.disk.used, virtqUsedSize)

/-- `write`, as `disk_block_read` and `disk_block_write` pass it on. -/
def writeFlag (write : Bool) : BitVec 32 := if write then 1 else 0

/-- What the device answers to a read of its interrupt status. -/
def statusRegister (disk : Virtioblk) (line : Bool) : DeviceRegs := fun _ reg =>
  if reg = disk.mmio + virtioInterruptStatusOffset then line.toNat else 0

/-- The bit of the interrupt status is cleared by the value in the acknowledge register. -/
def acknowledged (d : DriverState) (disk : Virtioblk) : Bool :=
  (d.register (disk.mmio + virtioInterruptAckOffset)).testBit 0

/-- One event. -/
def DiskSystemStep (sectors : Nat) (st : DiskSystem) : DiskSystemEvent → DiskSystem → Prop
  | .kernel e, st' => st.call = none ∧
      ((∃ size, e = .alloc size) ∨ (∃ p size, e = .free p size) ∨ ∃ m, e = .write m) ∧
      ∃ v, VirtioStep st.virtio e v ∧ st' = { st with virtio := v }
  | .stack m, st' => st.call = none ∧
      st' = { st with virtio :=
        { st.virtio with driver := { st.virtio.driver with stack := m } } }
  | .call write ptr n req, st' => st.call = none ∧
      RecordPlaced st.virtio.driver ptr req ∧ BufferPlaced st.virtio ptr ∧
      ∃ v, VirtioStep st.virtio (.submit (writeFlag write) (n.setWidth 32) ptr req) v ∧
        st' = { st with
          virtio := v
          call := some ⟨write, ptr, n, req, st.virtio.driver.bufferBytes ptr.toNat⟩ }
  | .serve len, st' =>
      let d := st.virtio.driver
      let disk := st.virtio.disk
      let descriptors :=
        queueAddress d disk virtioQueueDescriptorLowOffset virtioQueueDescriptorHighOffset
      let avail := queueAddress d disk virtioQueueAvailableLowOffset virtioQueueAvailableHighOffset
      let used := queueAddress d disk virtioQueueUsedLowOffset virtioQueueUsedHighOffset
      let head := loadNat d.bus (avail + 4 + 2 * (st.served % queueSize)) 2
      -- it looks at the ring from the first notification on
      st.virtio.made ≠ [] ∧ d.register (disk.mmio + virtioQueueReadyOffset) = 1 ∧
      availIdx d.bus avail ≠ st.served % 65536 ∧
      ∃ image m,
        serveRequest sectors st.image d.bus (chain d.bus descriptors queueSize head) = (image, m) ∧
        st' = { st with
          virtio := { st.virtio with driver := d.setBus (usedPush m used head len) }
          image := image
          served := st.served + 1
          line := true }
  | .interrupt, st' => st.line = true ∧ st.virtio.driver.fiqMasked = false ∧
      ∃ sync driver, st.virtio.driver.handlerParam = some sync ∧
        driver = diskHandleInterruptSync (statusRegister st.virtio.disk st.line) st.virtio.driver
          st.virtio.disk sync ∧
        st' = { st with
          virtio := { st.virtio with driver := driver }
          line := st.line && !acknowledged driver st.virtio.disk }
  | .finish, st' => st.call ≠ none ∧
      ∃ v, VirtioStep st.virtio .finish v ∧ st' = { st with virtio := v, call := none }

/-- After a `disk_init` that returned 0, with a heap below 4 GiB: the high halves of the addresses
    are 0. -/
def DiskAttached (st : DiskSystem) : Prop :=
  DiskReady st.virtio ∧
  st.virtio.driver.heap.heapStartAddress + 4096 * st.virtio.driver.heap.blocks ≤ 4294967296 ∧
  st.call = none ∧ st.served = 0 ∧ st.line = false

/-- The driver from `disk_init` on, with its device. -/
def diskSystemMachine (sectors : Nat) : Machine DiskSystem DiskSystemEvent where
  start := DiskAttached
  step := DiskSystemStep sectors

/-! ## What the callers see -/

/-- The sector that a buffer is filled with. -/
def sectorBytes (image : Mem) (n : Nat) : List Byte :=
  (List.range sectorSize).map (blockRead image n)

namespace DiskCall

/-- The operation that a call asks for: a sector is read, or written as a whole. -/
def op (c : DiskCall) : CellOp Nat (List Byte) :=
  if c.write then .put c.n.toNat c.bytes else .get c.n.toNat

/-- What the caller of `block_read` has got. -/
def answer (c : DiskCall) (d : DriverState) : Option (List Byte) :=
  if c.write then none else some (d.bufferBytes c.ptr.toNat)

end DiskCall

/-- The disk, as a service. -/
def DiskSystem.service (st : DiskSystem) :
    ServiceState (Nat → List Byte) (CellOp Nat (List Byte)) (Option (List Byte)) where
  value := sectorBytes st.image
  pending := match st.call with
    | none => .nothing
    | some c =>
      if st.served < st.virtio.made.length then .requested c.op
      else .done c.op (c.answer st.virtio.driver)

/-- What an event is to the service: a call is requested, takes effect when the device serves it, and
    is answered when it returns. -/
def serviceEvent (st : DiskSystem) :
    DiskSystemEvent → DiskSystem → ServiceEvent (CellOp Nat (List Byte)) (Option (List Byte))
  | .call .., st' => match st'.call with
    | some c => .request c.op
    | none => .idle
  | .serve _, _ => .effect
  | .finish, _ => match st.call with
    | some c => .answer c.op (c.answer st.virtio.driver)
    | none => .idle
  | _, _ => .idle

/-- The condition on a call: it is one of the first 1024, so the ring has not been filled once yet;
    the first one finds `avail->idx` at 0, which the driver never writes before it; the disk has the
    sector, and its number is an `int` (`block_read` takes one).  Two more conditions are part of the
    machine itself: the `kalloc` of the request is granted, and while the call waits no other
    interrupt is taken than that of the device.  Without them a call need not return at all. -/
def CallInRange (sectors : Nat) (st : DiskSystem) (e : DiskSystemEvent) (_ : DiskSystem) : Prop :=
  ∀ write ptr n req, e = .call write ptr n req →
    st.virtio.made.length < queueSize ∧
    (st.virtio.made = [] → availIdx st.virtio.driver.mem st.virtio.disk.avail = 0) ∧
    n.toNat < sectors ∧ n.toNat < 2 ^ 31

/-- The calls of a run that have returned, in order, each with what its caller got. -/
def diskHistory (tr : List (DiskSystem × DiskSystemEvent × DiskSystem)) :
    List (CellOp Nat (List Byte) × Option (List Byte)) :=
  answers (tr.map fun (a, e, b) => (a.service, serviceEvent a e b, b.service))

/-- The events that go on while a call waits. -/
def DiskSystemEvent.ofWait : DiskSystemEvent → Bool
  | .serve _ | .interrupt | .finish => true
  | _ => false

/-- The call that waits, if any, can return. -/
inductive DiskReturns (sectors : Nat) : DiskSystem → Prop
  | idle {st : DiskSystem} (h : st.call = none) : DiskReturns sectors st
  | step {st st' : DiskSystem} {e : DiskSystemEvent} (hevent : e.ofWait = true)
      (hstep : DiskSystemStep sectors st e st') (hrest : DiskReturns sectors st') :
      DiskReturns sectors st

/-! ## Registers and memory -/

section Bus

variable {d : DriverState} {disk : Virtioblk}

/-- A register of the device after a store to one. -/
theorem register_diskSetReg (d : DriverState) (disk : Virtioblk) (offset value reg : Nat) :
    (diskSetReg d disk offset value).register reg
      = if reg = disk.mmio + offset then value % 4294967296 else d.register reg := by
  simp only [DriverState.register, diskSetReg, List.lookup_cons]
  by_cases h : reg = disk.mmio + offset
  · rw [if_pos h, beq_iff_eq.mpr h]
    rfl
  · rw [if_neg h, beq_eq_false_iff_ne.mpr h]

/-- The addresses of the queue, and its ready bit, are in the registers. -/
structure QueueSet (d : DriverState) (disk : Virtioblk) : Prop where
  ready : d.register (disk.mmio + virtioQueueReadyOffset) = 1
  descriptors : queueAddress d disk virtioQueueDescriptorLowOffset virtioQueueDescriptorHighOffset
    = disk.descriptors
  avail : queueAddress d disk virtioQueueAvailableLowOffset virtioQueueAvailableHighOffset
    = disk.avail
  used : queueAddress d disk virtioQueueUsedLowOffset virtioQueueUsedHighOffset = disk.used

/-- Only these registers count. -/
theorem QueueSet.congr {d' : DriverState} (h : QueueSet d disk)
    (hsame : ∀ offset, offset ≠ virtioQueueNotifyOffset → offset ≠ virtioInterruptAckOffset →
      d'.register (disk.mmio + offset) = d.register (disk.mmio + offset)) : QueueSet d' disk := by
  refine ⟨?_, ?_, ?_, ?_⟩
  · rw [hsame _ (by decide) (by decide)]
    exact h.ready
  · rw [queueAddress, hsame _ (by decide) (by decide), hsame _ (by decide) (by decide)]
    exact h.descriptors
  · rw [queueAddress, hsame _ (by decide) (by decide), hsame _ (by decide) (by decide)]
    exact h.avail
  · rw [queueAddress, hsame _ (by decide) (by decide), hsame _ (by decide) (by decide)]
    exact h.used

/-- The heap does not touch the registers, .. -/
theorem kalloc_register {size p : Nat} {d' : DriverState} (hres : kalloc d size = (p, d'))
    (reg : Nat) : d'.register reg = d.register reg := by
  rw [kalloc] at hres
  generalize heapAlloc d.heap d.table size = r at hres
  obtain ⟨q, heap, table⟩ := r
  obtain ⟨-, rfl⟩ := Prod.mk.inj hres
  rfl

/-- .. and nor does the end of a call. -/
theorem diskFinish_register (d : DriverState) (sync reg : Nat) :
    (diskFinish d sync).register reg = d.register reg := by
  rw [diskFinish, kfree]
  generalize heapFree _ _ sync = r
  obtain ⟨heap, table⟩ := r
  rfl

/-- `disk_init` sets the queue. -/
theorem diskInitQueue_set {d' : DriverState} {disk' : Virtioblk}
    (hres : diskInitQueue d disk = (disk', d')) (hdescriptors : disk'.descriptors < 4294967296)
    (havail : disk'.avail < 4294967296) (hused : disk'.used < 4294967296) : QueueSet d' disk' := by
  rw [diskInitQueue] at hres
  generalize hk₁ : kalloc (diskSetReg d disk virtioQueueSizeOffset queueSize)
    (virtqDescSize * queueSize) = r₁ at hres
  obtain ⟨descriptors, d₁⟩ := r₁
  simp only at hres
  generalize hk₂ : kalloc d₁ virtqAvailSize = r₂ at hres
  obtain ⟨avail, d₂⟩ := r₂
  simp only at hres
  generalize hk₃ : kalloc d₂ virtqUsedSize = r₃ at hres
  obtain ⟨used, d₃⟩ := r₃
  simp only [Prod.mk.injEq] at hres
  obtain ⟨rfl, rfl⟩ := hres
  simp only at hdescriptors havail hused
  refine ⟨?_, ?_, ?_, ?_⟩
  · simp [register_diskSetReg, virtioDeviceStatusOffset, virtioQueueReadyOffset]
  · simp [queueAddress, register_diskSetReg, virtioDeviceStatusOffset, virtioQueueReadyOffset,
      virtioQueueUsedHighOffset, virtioQueueUsedLowOffset, virtioQueueAvailableHighOffset,
      virtioQueueAvailableLowOffset, virtioQueueDescriptorHighOffset,
      virtioQueueDescriptorLowOffset, Nat.mod_eq_of_lt hdescriptors]
  · simp [queueAddress, register_diskSetReg, virtioDeviceStatusOffset, virtioQueueReadyOffset,
      virtioQueueUsedHighOffset, virtioQueueUsedLowOffset, virtioQueueAvailableHighOffset,
      virtioQueueAvailableLowOffset, Nat.mod_eq_of_lt havail]
  · simp [queueAddress, register_diskSetReg, virtioDeviceStatusOffset, virtioQueueReadyOffset,
      virtioQueueUsedHighOffset, virtioQueueUsedLowOffset, Nat.mod_eq_of_lt hused]

@[simp] theorem bus_setBus (d : DriverState) (m : Mem) : (d.setBus m).bus = m := by
  funext a
  show (if d.inHeap a then if d.inHeap a then m a else d.mem a
    else if d.inHeap a then d.stack a else m a) = m a
  split <;> rfl

/-- The device sees the heap, .. -/
theorem bus_heap {a : Nat} (h : d.inHeap a = true) : d.bus a = d.mem a := if_pos h

/-- .. and the rest of memory. -/
theorem bus_stack {a : Nat} (h : d.inHeap a = false) : d.bus a = d.stack a :=
  if_neg (by rw [h]; exact Bool.false_ne_true)

/-- The device has written where it wanted. -/
theorem setBus_mem {m : Mem} {a : Nat} (h : m a = d.bus a) : (d.setBus m).mem a = d.mem a := by
  show (if d.inHeap a then m a else d.mem a) = d.mem a
  split
  · rename_i hin
    rw [h, bus_heap hin]
  · rfl

/-- The heap has the same blocks. -/
def SameBlocks (d d' : DriverState) : Prop := ∃ n, d'.heap = d.heap.setFreeBlocks n

/-- What is in the heap depends on where the heap is only. -/
theorem SameBlocks.inHeap {d' : DriverState} (h : SameBlocks d d') (a : Nat) :
    d'.inHeap a = d.inHeap a := by
  obtain ⟨n, h⟩ := h
  rw [DriverState.inHeap, DriverState.inHeap, h]
  rfl

/-- What a request has done outside of the heap when it starts to wait. -/
structure Submitted (d d' : DriverState) (disk : Virtioblk) (write sector : BitVec 32) (req : Word)
    (sync : Nat) : Prop where
  stack : d'.stack = storeNat (storeNat d.stack (req.toNat + 8) 8 (sector.signExtend 64).toNat)
    req.toNat 4 write.toNat
  handler : d'.handlerParam = some sync
  unmasked : d'.fiqMasked = false
  blocks : SameBlocks d d'
  registers : ∀ offset, offset ≠ virtioQueueNotifyOffset →
    d'.register (disk.mmio + offset) = d.register (disk.mmio + offset)

/-- A call, up to its wait. -/
theorem diskSubmit_submitted {d' : DriverState} {write sector : BitVec 32} {data req : Word}
    {sync : Nat} (hres : diskSubmit d disk write data sector req = (sync, d')) :
    Submitted d d' disk write sector req sync := by
  rw [diskSubmit] at hres
  generalize hk : kalloc _ syncReadSize = r at hres
  obtain ⟨p, d₁⟩ := r
  simp only [Prod.mk.injEq] at hres
  obtain ⟨rfl, rfl⟩ := hres
  have hreg := kalloc_register hk
  rw [kalloc] at hk
  have hlayout := heapAlloc_layout d.heap d.table syncReadSize
  generalize heapAlloc d.heap d.table syncReadSize = r at hk hlayout
  obtain ⟨q, heap, table⟩ := r
  obtain ⟨rfl, rfl⟩ := Prod.mk.inj hk
  refine ⟨rfl, rfl, rfl, ⟨_, hlayout⟩, fun offset hne => ?_⟩
  rw [register_diskSetReg, if_neg (by omega)]
  exact hreg _

/-- Where things are does not change with what they hold. -/
theorem RecordPlaced.congr {d' : DriverState} {ptr req : Word} (h : RecordPlaced d ptr req)
    (hsame : SameBlocks d d') : RecordPlaced d' ptr req :=
  ⟨h.buffer_end, h.record_end, fun i hi => (hsame.inHeap _).trans (h.record i hi), h.apart⟩

/-- The device writes the status behind the record. -/
theorem RecordPlaced.status {ptr req : Word} (h : RecordPlaced d ptr req) :
    (req + 16).toNat = req.toNat + 16 := by
  have hend := h.record_end
  rw [BitVec.toNat_add]
  exact Nat.mod_eq_of_lt (by show req.toNat + 16 < 2 ^ 64; omega)

/-- The device finds the record of the request. -/
theorem Submitted.record {d' : DriverState} {write sector : BitVec 32} {ptr req : Word} {sync : Nat}
    (h : Submitted d d' disk write sector req sync) (hplaced : RecordPlaced d ptr req) :
    loadNat d'.bus req.toNat 4 = write.toNat ∧
    loadNat d'.bus (req.toNat + 8) 8 = (sector.signExtend 64).toNat := by
  have hbus : ∀ i, i < 17 → d'.bus (req.toNat + i) = d'.stack (req.toNat + i) :=
    fun i hi => bus_stack ((h.blocks.inHeap _).trans (hplaced.record i hi))
  have hload : ∀ a n, a + n ≤ 17 →
      loadNat d'.bus (req.toNat + a) n = loadNat d'.stack (req.toNat + a) n := by
    intro a n ha
    refine loadNat_congr fun i hi => ?_
    rw [Nat.add_assoc]
    exact hbus (a + i) (by omega)
  constructor
  · have htype := hload 0 4 (by decide)
    rw [Nat.add_zero] at htype
    rw [htype, h.stack, loadNat_storeNat_same]
    exact Nat.mod_eq_of_lt write.isLt
  · rw [hload 8 8 (by decide), h.stack, loadNat_storeNat_disjoint (by omega), loadNat_storeNat_same]
    exact Nat.mod_eq_of_lt (sector.signExtend 64).isLt

/-- The handler sets the flag, .. -/
theorem interrupt_done (device : DeviceRegs) (d : DriverState) (disk : Virtioblk) (sync : Nat) :
    syncDone (diskHandleInterruptSync device d disk sync) sync := by
  unfold syncDone
  show storeNat d.mem (sync + 8) 1 1 (sync + 8) ≠ 0
  rw [storeNat, if_pos (by omega)]
  simp

/-- .. acknowledges the interrupt that it reads, .. -/
theorem interrupt_acknowledged (d : DriverState) (disk : Virtioblk) (sync : Nat) :
    acknowledged (diskHandleInterruptSync (statusRegister disk true) d disk sync) disk = true := by
  show ((diskSetReg _ _ virtioInterruptAckOffset _).register _).testBit 0 = true
  rw [register_diskSetReg, if_pos rfl, diskReadReg, statusRegister, if_pos rfl]
  decide

/-- .. and leaves the other registers alone. -/
theorem interrupt_register {device : DeviceRegs} {sync offset : Nat}
    (h : offset ≠ virtioInterruptAckOffset) :
    (diskHandleInterruptSync device d disk sync).register (disk.mmio + offset)
      = d.register (disk.mmio + offset) := by
  show (diskSetReg _ _ virtioInterruptAckOffset _).register _ = _
  rw [register_diskSetReg, if_neg (by omega)]

end Bus

/-! ## What the device does -/

section Serve

variable {sectors : Nat} {image image' m m' : Mem} {write : Bool} {ptr req : Word}

/-- A request for a sector that the disk does not have, or of another type, moves nothing; any other
    writes its buffer and the status. -/
theorem serveRequest_of_ne {w : BitVec 32}
    (h : serveRequest sectors image m (requestBuffers w ptr req) = (image', m')) {x : Nat}
    (hbuffer : x < ptr.toNat ∨ ptr.toNat + sectorSize ≤ x) (hstatus : x ≠ (req + 16).toNat) :
    m' x = m x := by
  have hsize : sectorSize = 512 := rfl
  simp only [serveRequest, requestBuffers] at h
  split at h
  · obtain ⟨-, rfl⟩ := Prod.mk.inj h
    rw [storeNat_of_disjoint (by omega), if_neg (by omega)]
  · split at h
    · obtain ⟨-, rfl⟩ := Prod.mk.inj h
      rw [storeNat_of_disjoint (by omega)]
    · obtain ⟨-, rfl⟩ := Prod.mk.inj h
      rw [storeNat_of_disjoint (by omega)]

/-- A read. -/
theorem serveRequest_read
    (h : serveRequest sectors image m (requestBuffers (writeFlag false) ptr req) = (image', m'))
    (htype : loadNat m req.toNat 4 = 0) (hsector : loadNat m (req.toNat + 8) 8 < sectors) :
    image' = image ∧ ∀ i, i < sectorSize → ptr.toNat + i ≠ (req + 16).toNat →
      m' (ptr.toNat + i) = image (sectorSize * loadNat m (req.toNat + 8) 8 + i) := by
  simp only [serveRequest, requestBuffers, writeFlag] at h
  rw [if_pos ⟨htype, hsector, by decide⟩] at h
  obtain ⟨rfl, rfl⟩ := Prod.mk.inj h
  have hsize : sectorSize = 512 := rfl
  refine ⟨rfl, fun i hi hne => ?_⟩
  rw [storeNat_of_disjoint (by omega), if_pos (by omega), Nat.add_sub_cancel_left]

/-- A write. -/
theorem serveRequest_write
    (h : serveRequest sectors image m (requestBuffers (writeFlag true) ptr req) = (image', m'))
    (htype : loadNat m req.toNat 4 = 1) (hsector : loadNat m (req.toNat + 8) 8 < sectors) :
    ∀ x, image' x = if sectorSize * loadNat m (req.toNat + 8) 8 ≤ x ∧
        x < sectorSize * loadNat m (req.toNat + 8) 8 + sectorSize
      then m (ptr.toNat + (x - sectorSize * loadNat m (req.toNat + 8) 8)) else image x := by
  simp only [serveRequest, requestBuffers, writeFlag] at h
  rw [if_neg (by rw [htype]; exact fun hn => absurd hn.1 (by decide)),
    if_pos ⟨htype, hsector, by decide⟩] at h
  obtain ⟨rfl, -⟩ := Prod.mk.inj h
  exact fun x => rfl

/-- The sectors after a read or a write. -/
theorem sectorBytes_write {n : Nat} (h : ∀ x, image' x =
      if sectorSize * n ≤ x ∧ x < sectorSize * n + sectorSize
      then m (ptr.toNat + (x - sectorSize * n)) else image x) :
    sectorBytes image' = Function.update (sectorBytes image) n
      ((List.range sectorSize).map fun i => m (ptr.toNat + i)) := by
  funext k
  by_cases hk : k = n
  · subst hk
    rw [Function.update_self]
    refine List.map_congr_left fun i hi => ?_
    have hi := List.mem_range.mp hi
    show image' (sectorSize * k + i) = _
    rw [h, if_pos (by omega), Nat.add_sub_cancel_left]
  · rw [Function.update_of_ne hk]
    refine List.map_congr_left fun i hi => ?_
    have hi := List.mem_range.mp hi
    show image' (sectorSize * k + i) = image (sectorSize * k + i)
    rw [h, if_neg]
    have hsize : sectorSize = 512 := rfl
    rw [hsize] at hi ⊢
    omega

end Serve


/-! ## The invariant -/

section Invariant

variable {v v' : VirtioState} {sectors : Nat}

/-- The regions of the heap that the driver and the device use. -/
def DriverByte (v : VirtioState) (sync x : Nat) : Prop :=
  (v.disk.descriptors ≤ x ∧ x < v.disk.descriptors + virtqDescSize * queueSize) ∨
  (v.disk.avail ≤ x ∧ x < v.disk.avail + virtqAvailSize) ∨
  (v.disk.used ≤ x ∧ x < v.disk.used + virtqUsedSize) ∨ (sync ≤ x ∧ x < sync + syncReadSize)

/-- A call waits. -/
structure Waits (v : VirtioState) (c : DiskCall) (sync : Nat) : Prop where
  waiting : v.waiting = some sync
  handler : v.driver.handlerParam = some sync
  unmasked : v.driver.fiqMasked = false
  buffer : ∀ i, i < sectorSize → v.driver.inHeap (c.ptr.toNat + i) = true →
    ¬ DriverByte v sync (c.ptr.toNat + i)

/-- The device finds the request and has not served it. -/
structure Requested (sectors : Nat) (st : DiskSystem) (c : DiskCall) (sync : Nat) : Prop where
  served : st.served + 1 = st.virtio.made.length
  few : st.served < queueSize
  line : st.line = false
  done : ¬ syncDone st.virtio.driver sync
  head : loadNat st.virtio.driver.bus (st.virtio.disk.avail + 4 + 2 * st.served) 2 = 0
  idx : availIdx st.virtio.driver.bus st.virtio.disk.avail = st.served + 1
  chain : chain st.virtio.driver.bus st.virtio.disk.descriptors queueSize 0
    = requestBuffers (writeFlag c.write) c.ptr c.req
  type : loadNat st.virtio.driver.bus c.req.toNat 4 = (writeFlag c.write).toNat
  sector : loadNat st.virtio.driver.bus (c.req.toNat + 8) 8 = c.n.toNat
  inRange : c.n.toNat < sectors
  placed : RecordPlaced st.virtio.driver c.ptr c.req
  bytes : st.virtio.driver.bufferBytes c.ptr.toNat = c.bytes

/-- The device has served the request; the flag is set by the interrupt that follows. -/
structure Served (st : DiskSystem) (sync : Nat) : Prop where
  served : st.served = st.virtio.made.length
  flag : syncDone st.virtio.driver sync ↔ st.line = false

/-- The invariant: that of the driver, where the queue is, and which phase the call is in. -/
structure DiskSystemInv (sectors : Nat) (st : DiskSystem) : Prop where
  virtio : VirtioInv st.virtio
  used : (st.virtio.disk.used, virtqUsedSize) ∈ st.virtio.live
  queue : QueueSet st.virtio.driver st.virtio.disk
  phase : match st.call with
    | none => st.virtio.waiting = none ∧ st.served = st.virtio.made.length ∧ st.line = false
    | some c => ∃ sync, Waits st.virtio c sync ∧ (Requested sectors st c sync ∨ Served st sync)

/-- The regions of the heap. -/
theorem VirtioInv.inHeap (h : VirtioInv v) {a : Nat × Nat} (ha : a ∈ v.live) {x : Nat}
    (hlow : a.1 ≤ x) (hhigh : x < a.1 + a.2) : v.driver.inHeap x = true := by
  have hrep : HeapRepresentation v.heapState := HeapInv.representation h.heap
  obtain ⟨hstart, hend⟩ := hrep.inside a ha
  have hsize : a.2 ≤ regionBytes a.2 := by
    unfold regionBytes
    omega
  have hzone : v.heapState.heap = v.driver.heap := rfl
  rw [hzone] at hstart hend
  exact decide_eq_true ⟨by omega, by omega⟩

/-- Memory when a request starts to wait, outside of the available ring and the `Sync_read`. -/
theorem VirtioInv.submit_mem (h : VirtioInv v) {write sector : BitVec 32} {data req : Word}
    {sync : Nat} {driver : DriverState}
    (hres : diskSubmit v.driver v.disk write data sector req = (sync, driver)) (hs : sync ≠ 0)
    (hk : availIdx v.driver.mem v.disk.avail < queueSize) {x : Nat}
    (havail : x < v.disk.avail ∨ v.disk.avail + virtqAvailSize ≤ x)
    (hsync : x < sync ∨ sync + syncReadSize ≤ x) :
    driver.mem x = writeDescriptors v.driver.mem v.disk.descriptors write data req x := by
  obtain ⟨-, -, hmem⟩ := diskSubmit_eq h.heap hres hs
  have hidx := h.availIdx_writeDescriptors write data req
  have hsizes : virtqAvailSize = 2054 ∧ syncReadSize = 16 ∧ queueSize = 1024 := ⟨rfl, rfl, rfl⟩
  rw [hmem, storeNat_of_disjoint (by omega), storeNat_of_disjoint (by omega)]
  exact publish_of_disjoint (by omega) (by rw [hidx]; omega)

/-- A new region does not overlap the others. -/
theorem HeapInv.disjoint_new {h : Heap} {m : Mem} {live : List (Nat × Nat)} {a : Nat × Nat}
    (hi : HeapInv h m (a :: live)) {b : Nat × Nat} (hb : b ∈ live) :
    a.1 + a.2 ≤ b.1 ∨ b.1 + b.2 ≤ a.1 := by
  have hrep : HeapRepresentation ⟨h, m, a :: live⟩ := HeapInv.representation hi
  have hdis := (List.pairwise_cons.mp hrep.disjoint).1 b hb
  have hsize : ∀ n, n ≤ regionBytes n := fun n => by unfold regionBytes; omega
  have h1 := hsize a.2
  have h2 := hsize b.2
  omega

/-- The sector number, as it reaches the record. -/
theorem sector_signExtend {n : Word} (h : n.toNat < 2 ^ 31) :
    ((n.setWidth 32).signExtend 64).toNat = n.toNat := by
  have hmsb : (n.setWidth 32).msb = false := by
    rw [BitVec.msb_eq_decide, BitVec.toNat_setWidth]
    simp only [decide_eq_false_iff_not]
    omega
  rw [BitVec.toNat_signExtend, hmsb, BitVec.toNat_setWidth, BitVec.toNat_setWidth]
  simp only [Bool.false_eq_true, if_false]
  omega

section Submit

variable {write sector : BitVec 32} {ptr req : Word} {sync : Nat} {driver : DriverState}

/-- The caller's buffer is none of the driver's. -/
theorem VirtioInv.buffer_apart (h : VirtioInv v) (hused : (v.disk.used, virtqUsedSize) ∈ v.live)
    (hres : diskSubmit v.driver v.disk write ptr sector req = (sync, driver)) (hs : sync ≠ 0)
    (hbuffer : BufferPlaced v ptr) {i : Nat} (hi : i < sectorSize)
    (hin : v.driver.inHeap (ptr.toNat + i) = true) : ¬ DriverByte v sync (ptr.toNat + i) := by
  rcases hbuffer with hout | ⟨a, ha, hlow, hhigh, hne₁, hne₂, hne₃⟩
  · rw [hout i hi] at hin
    exact absurd hin Bool.false_ne_true
  · have hsync := (diskSubmit_eq h.heap hres hs).1.disjoint_new ha
    have h₁ := h.heap.disjoint ha h.descriptors hne₁
    have h₂ := h.heap.disjoint ha h.avail hne₂
    have h₃ := h.heap.disjoint ha hused hne₃
    simp only at h₁ h₂ h₃ hsync
    unfold DriverByte
    omega

/-- What the device sees of memory that is not the driver's. -/
theorem VirtioInv.submit_bus (h : VirtioInv v)
    (hres : diskSubmit v.driver v.disk write ptr sector req = (sync, driver)) (hs : sync ≠ 0)
    (hk : availIdx v.driver.mem v.disk.avail < queueSize) {x : Nat}
    (hheap : v.driver.inHeap x = true → ¬ DriverByte v sync x)
    (hrecord : x < req.toNat ∨ req.toNat + 17 ≤ x) : driver.bus x = v.driver.bus x := by
  have hsub := diskSubmit_submitted hres
  have hin := hsub.blocks.inHeap x
  cases hx : v.driver.inHeap x with
  | true =>
    have hnot := hheap hx
    unfold DriverByte at hnot
    rw [bus_heap (hin.trans hx), bus_heap hx, h.submit_mem hres hs hk (by omega) (by omega)]
    have hsize : 48 ≤ virtqDescSize * queueSize := by decide
    exact writeDescriptors_of_disjoint (by omega)
  | false =>
    rw [bus_stack (hin.trans hx), bus_stack hx, hsub.stack, storeNat_of_disjoint (by omega),
      storeNat_of_disjoint (by omega)]

/-- The device finds the head of the request in the ring, and behind it its buffers. -/
theorem VirtioInv.submit_ring (h : VirtioInv v)
    (hinv : VirtioInv v') (hdisk : v'.disk = v.disk) (hdriver : v'.driver = driver)
    (hres : diskSubmit v.driver v.disk write ptr sector req = (sync, driver)) (hs : sync ≠ 0)
    (hk : availIdx v.driver.mem v.disk.avail < queueSize) :
    loadNat driver.bus (v.disk.avail + 4 + 2 * availIdx v.driver.mem v.disk.avail) 2 = 0 ∧
    availIdx driver.bus v.disk.avail = availIdx v.driver.mem v.disk.avail + 1 ∧
    chain driver.bus v.disk.descriptors queueSize 0 = requestBuffers write ptr req := by
  obtain ⟨hslot, hnext, -⟩ := h.submitted hres hs hk
  obtain ⟨hheap, -, -⟩ := diskSubmit_eq h.heap hres hs
  have hsizes : virtqAvailSize = 2054 ∧ virtqDescSize * queueSize = 16384 ∧ queueSize = 1024 ∧
      syncReadSize = 16 := ⟨rfl, rfl, rfl, rfl⟩
  have havail : ∀ x, v.disk.avail ≤ x → x < v.disk.avail + virtqAvailSize →
      driver.bus x = driver.mem x := by
    intro x h₁ h₂
    rw [← hdisk] at h₁ h₂
    rw [← hdriver]
    exact bus_heap (hinv.inHeap hinv.avail h₁ h₂)
  have hdesc : ∀ x, v.disk.descriptors ≤ x → x < v.disk.descriptors + virtqDescSize * queueSize →
      driver.bus x = driver.mem x := by
    intro x h₁ h₂
    rw [← hdisk] at h₁ h₂
    rw [← hdriver]
    exact bus_heap (hinv.inHeap hinv.descriptors h₁ h₂)
  have hda := h.descriptors_avail
  have hsd := hheap.disjoint_new h.descriptors
  refine ⟨(loadNat_congr fun i hi => ?_).trans hslot, (availIdx_congr havail).trans hnext, ?_⟩
  · exact havail _ (by omega) (by omega)
  · refine chain_writeDescriptors (m := v.driver.mem) fun x h₁ h₂ => ?_
    simp only at hsd
    rw [hdesc x h₁ (by omega)]
    exact h.submit_mem hres hs hk (by omega) (by omega)

end Submit

variable {st st' : DiskSystem}

/-- Without a call the service has nothing to do. -/
theorem DiskSystem.service_nothing (h : st.call = none) :
    st.service = ⟨sectorBytes st.image, .nothing⟩ := by
  simp only [DiskSystem.service, h]

/-- A call that the device has not served. -/
theorem DiskSystem.service_requested {c : DiskCall} (h : st.call = some c)
    (hserved : st.served < st.virtio.made.length) :
    st.service = ⟨sectorBytes st.image, .requested c.op⟩ := by
  simp only [DiskSystem.service, h, if_pos hserved]

/-- A call that it has served. -/
theorem DiskSystem.service_done {c : DiskCall} (h : st.call = some c)
    (hserved : st.virtio.made.length ≤ st.served) :
    st.service = ⟨sectorBytes st.image, .done c.op (c.answer st.virtio.driver)⟩ := by
  simp only [DiskSystem.service, h, if_neg (Nat.not_lt.mpr hserved)]

namespace DiskSystemInv

/-- After `disk_init` no call is under way. -/
theorem start (h : DiskAttached st) : DiskSystemInv sectors st := by
  obtain ⟨hready, hbelow, hcall, hserved, hline⟩ := h
  have hinv := hready.inv
  have hrep : HeapRepresentation st.virtio.heapState := HeapInv.representation hinv.heap
  have haddr : ∀ a ∈ st.virtio.live, a.2 ≠ 0 → a.1 < 4294967296 := by
    intro a ha hsize
    have hend : a.1 + regionBytes a.2 ≤ st.virtio.driver.heap.heapStartAddress
        + 4096 * st.virtio.driver.heap.blocks := (hrep.inside a ha).2
    unfold regionBytes at hend
    omega
  obtain ⟨device, before, disk, offset, live, -, -, hinit, -, -, -, hlive, hwaiting, hmade, -⟩ :=
    hready
  have hused : (st.virtio.disk.used, virtqUsedSize) ∈ st.virtio.live := by
    rw [hlive]
    exact List.mem_cons_self
  obtain ⟨d₁, disk₁, -, -, -, hqueue⟩ := diskInit_ok hinit
  refine ⟨hinv, hused, diskInitQueue_set hqueue
    (haddr _ hinv.descriptors (show virtqDescSize * queueSize ≠ 0 by decide))
    (haddr _ hinv.avail (show virtqAvailSize ≠ 0 by decide))
    (haddr _ hused (show virtqUsedSize ≠ 0 by decide)), ?_⟩
  rw [hcall]
  refine ⟨hwaiting, ?_, hline⟩
  rw [hserved, hmade]
  rfl

/-- The rest of the kernel stores to its own blocks, none of which is the queue or the record of a
    request: between calls there is none. -/
theorem kernel (h : DiskSystemInv sectors st) {e : VirtioEvent}
    (hstep : DiskSystemStep sectors st (.kernel e) st') : DiskSystemInv sectors st' := by
  obtain ⟨hcall, hkind, v, hv, rfl⟩ := hstep
  have hphase := h.phase
  rw [hcall] at hphase
  have hother : ∀ write sector data req, e ≠ .submit write sector data req := by
    rintro _ _ _ _ rfl
    rcases hkind with ⟨_, he⟩ | ⟨_, _, he⟩ | ⟨_, he⟩ <;> cases he
  have hinv := h.virtio.other hv hother
  rcases hkind with ⟨size, rfl⟩ | ⟨p, size, rfl⟩ | ⟨m, rfl⟩
  · obtain ⟨heap, hheap, rfl⟩ := hv
    refine ⟨hinv, hheap.keeps h.used nofun, h.queue.congr fun _ _ _ => rfl, ?_⟩
    simp only [hcall]
    exact hphase
  · obtain ⟨-, -, hused, -, heap, hheap, rfl⟩ := hv
    refine ⟨hinv, hheap.keeps h.used fun he => ?_, h.queue.congr fun _ _ _ => rfl, ?_⟩
    · exact hused (HeapEvent.free.inj he).1
    · simp only [hcall]
      exact hphase
  · obtain ⟨-, rfl⟩ := hv
    refine ⟨hinv, h.used, h.queue.congr fun _ _ _ => rfl, ?_⟩
    simp only [hcall]
    exact hphase

/-- Nor is other memory. -/
theorem stack (h : DiskSystemInv sectors st) {m : Mem}
    (hstep : DiskSystemStep sectors st (.stack m) st') : DiskSystemInv sectors st' := by
  obtain ⟨hcall, rfl⟩ := hstep
  have hinv := h.virtio
  refine ⟨⟨hinv.heap, hinv.descriptors, hinv.avail, hinv.waiting, hinv.consumed, hinv.idx,
    hinv.slots⟩, h.used, h.queue.congr fun _ _ _ => rfl, ?_⟩
  have hphase := h.phase
  simp only [hcall] at hphase ⊢
  exact hphase

/-- A call starts to wait, and the device finds its request. -/
theorem call (h : DiskSystemInv sectors st) {write : Bool} {ptr n req : Word}
    (hstep : DiskSystemStep sectors st (.call write ptr n req) st')
    (hok : CallInRange sectors st (.call write ptr n req) st') : DiskSystemInv sectors st' := by
  obtain ⟨hcall, hplaced, hbuffer, v, hsubmit, rfl⟩ := hstep
  obtain ⟨hlen, hfirst, hsectors, hn⟩ := hok write ptr n req rfl
  have hphase := h.phase
  rw [hcall] at hphase
  obtain ⟨-, hserved, hline⟩ := hphase
  have hinv := (h.virtio.submit hsubmit hlen hfirst).2
  obtain ⟨-, sync, driver, hres, hs, rfl⟩ := hsubmit
  have hsub := diskSubmit_submitted hres
  have hidx := h.virtio.idx_eq hfirst
  have hk : availIdx st.virtio.driver.mem st.virtio.disk.avail < queueSize := by
    rw [hidx]
    exact hlen
  obtain ⟨hhead, hnext, hchain⟩ := h.virtio.submit_ring hinv rfl rfl hres hs hk
  obtain ⟨htype, hsector⟩ := hsub.record hplaced
  rw [sector_signExtend hn] at hsector
  rw [hidx, ← hserved] at hhead hnext
  have hapart : ∀ i, i < sectorSize → st.virtio.driver.inHeap (ptr.toNat + i) = true →
      ¬ DriverByte st.virtio sync (ptr.toNat + i) :=
    fun i hi hin => h.virtio.buffer_apart h.used hres hs hbuffer hi hin
  have hbytes : driver.bufferBytes ptr.toNat = st.virtio.driver.bufferBytes ptr.toNat := by
    refine List.map_congr_left fun i hi => ?_
    have hi := List.mem_range.mp hi
    have hrecord := hplaced.apart
    exact h.virtio.submit_bus hres hs hk (hapart i hi) (by omega)
  have hrequested : st.served + 1
      = (st.virtio.made ++ [requestBuffers (writeFlag write) ptr req]).length := by
    rw [hserved, List.length_append, List.length_singleton]
  refine ⟨hinv, List.mem_cons_of_mem _ h.used,
    h.queue.congr fun offset hne _ => hsub.registers offset hne, sync,
    ⟨rfl, hsub.handler, hsub.unmasked, ?_⟩, .inl ⟨hrequested, ?_, hline, ?_, hhead, hnext, hchain,
      htype, hsector, hsectors, hplaced.congr hsub.blocks, ?_⟩⟩
  · intro i hi hin
    exact hapart i hi ((hsub.blocks.inHeap _).symm.trans hin)
  · rw [hserved]
    exact hlen
  · -- the flag is cleared last
    obtain ⟨-, -, hmem⟩ := diskSubmit_eq h.virtio.heap hres hs
    show ¬ driver.mem (sync + 8) ≠ 0
    rw [hmem, storeNat, if_pos (by omega)]
    simp
  · simp only
    exact hbytes

/-- The device serves what a call waits for. -/
theorem serves (h : DiskSystemInv sectors st) {len : Nat}
    (hstep : DiskSystemStep sectors st (.serve len) st') :
    ∃ c sync image m, st.call = some c ∧ Waits st.virtio c sync ∧ Requested sectors st c sync ∧
      serveRequest sectors st.image st.virtio.driver.bus
        (requestBuffers (writeFlag c.write) c.ptr c.req) = (image, m) ∧
      st' = { st with
        virtio := { st.virtio with
          driver := st.virtio.driver.setBus (usedPush m st.virtio.disk.used 0 len) }
        image := image
        served := st.served + 1
        line := true } := by
  obtain ⟨hmade, -, hidx, image, m, hserve, rfl⟩ := hstep
  rw [h.queue.avail] at hidx
  rw [h.queue.avail, h.queue.descriptors] at hserve
  -- without a call there is nothing in the ring
  have hnothing : st.served ≠ st.virtio.made.length := by
    intro hserved
    obtain ⟨hcount, hle⟩ := h.virtio.idx hmade
    have hbus : availIdx st.virtio.driver.bus st.virtio.disk.avail = st.virtio.made.length :=
      (availIdx_congr fun x h₁ h₂ => bus_heap (h.virtio.inHeap h.virtio.avail h₁ h₂)).trans hcount
    rw [show queueSize = 1024 from rfl] at hle
    omega
  have hphase := h.phase
  cases hcall : st.call with
  | none =>
    rw [hcall] at hphase
    exact absurd hphase.2.1 hnothing
  | some c =>
    rw [hcall] at hphase
    obtain ⟨sync, hwaits, hrequested | hserved⟩ := hphase
    · have hmod : st.served % queueSize = st.served := Nat.mod_eq_of_lt hrequested.few
      rw [hmod, hrequested.head, hrequested.chain] at hserve
      refine ⟨c, sync, image, m, rfl, hwaits, hrequested, hserve, ?_⟩
      rw [h.queue.avail, h.queue.used, hmod, hrequested.head]
    · exact absurd hserved.served hnothing

/-- Serving a request touches nothing else that is the driver's. -/
theorem serve_mem {c : DiskCall} {sync : Nat} (hwaits : Waits st.virtio c sync)
    (hrequested : Requested sectors st c sync) {image m : Mem} {len : Nat}
    (hserve : serveRequest sectors st.image st.virtio.driver.bus
      (requestBuffers (writeFlag c.write) c.ptr c.req) = (image, m)) {x : Nat}
    (hin : st.virtio.driver.inHeap x = true) (hdriver : DriverByte st.virtio sync x)
    (hused : x < st.virtio.disk.used ∨ st.virtio.disk.used + virtqUsedSize ≤ x) :
    (st.virtio.driver.setBus (usedPush m st.virtio.disk.used 0 len)).mem x
      = st.virtio.driver.mem x := by
  refine setBus_mem ?_
  rw [usedPush_of_disjoint hused]
  refine serveRequest_of_ne hserve ?_ ?_
  · by_contra hbuffer
    obtain ⟨i, hi, rfl⟩ : ∃ i, i < sectorSize ∧ c.ptr.toNat + i = x :=
      ⟨x - c.ptr.toNat, by omega, by omega⟩
    exact hwaits.buffer i hi hin hdriver
  · rintro rfl
    have hrecord := hrequested.placed.record 16 (by decide)
    rw [hrequested.placed.status] at hin
    exact absurd (hin.symm.trans hrecord) (by decide)

/-- The device serves the request of the call.  It stores to the caller's buffer, to the status byte and
    to the used ring, and none of these is what the driver looks at while it waits. -/
theorem serve (h : DiskSystemInv sectors st) {len : Nat}
    (hstep : DiskSystemStep sectors st (.serve len) st') : DiskSystemInv sectors st' := by
  obtain ⟨c, sync, image, m, hcall, hwaits, hrequested, hserve, rfl⟩ := h.serves hstep
  have hinv := h.virtio
  have hlive := hinv.waiting sync hwaits.waiting
  have hsizes : virtqAvailSize = 2054 ∧ syncReadSize = 16 := ⟨rfl, rfl⟩
  have hau := hinv.heap.disjoint hinv.avail h.used fun heq =>
    absurd (Prod.mk.inj heq).2 (by decide)
  have hsu := hinv.heap.disjoint hlive h.used fun heq => absurd (Prod.mk.inj heq).2 (by decide)
  simp only at hau hsu
  have havail : ∀ x, st.virtio.disk.avail ≤ x → x < st.virtio.disk.avail + virtqAvailSize →
      (st.virtio.driver.setBus (usedPush m st.virtio.disk.used 0 len)).mem x
        = st.virtio.driver.mem x := fun x h₁ h₂ =>
    serve_mem hwaits hrequested hserve (hinv.inHeap hinv.avail h₁ h₂) (.inr (.inl ⟨h₁, h₂⟩))
      (by omega)
  have hflag : (st.virtio.driver.setBus (usedPush m st.virtio.disk.used 0 len)).mem (sync + 8)
      = st.virtio.driver.mem (sync + 8) :=
    serve_mem hwaits hrequested hserve (hinv.inHeap hlive (by omega) (by omega))
      (.inr (.inr (.inr ⟨by omega, by omega⟩))) (by omega)
  refine ⟨⟨hinv.heap, hinv.descriptors, hinv.avail, hinv.waiting, hinv.consumed, ?_, hinv.slots⟩,
    h.used, h.queue.congr fun _ _ _ => rfl, ?_⟩
  · intro hmade
    exact ⟨(availIdx_congr havail).trans (hinv.idx hmade).1, (hinv.idx hmade).2⟩
  · rw [hcall]
    refine ⟨sync, ⟨hwaits.waiting, hwaits.handler, hwaits.unmasked, hwaits.buffer⟩,
      .inr ⟨hrequested.served, ?_⟩⟩
    have hopen := hrequested.done
    unfold syncDone at hopen ⊢
    rw [hflag]
    exact ⟨fun hdone => absurd hdone hopen,
      fun hline => absurd (show true = false from hline) (by decide)⟩

/-- The used ring is not in the caller's buffer. -/
theorem serve_buffer (h : DiskSystemInv sectors st) {c : DiskCall} {sync : Nat}
    (hwaits : Waits st.virtio c sync) {m : Mem} {len i : Nat} (hi : i < sectorSize) :
    (st.virtio.driver.setBus (usedPush m st.virtio.disk.used 0 len)).bus (c.ptr.toNat + i)
      = m (c.ptr.toNat + i) := by
  rw [bus_setBus]
  refine usedPush_of_disjoint ?_
  by_contra hused
  have hin : st.virtio.driver.inHeap (c.ptr.toNat + i) = true :=
    h.virtio.inHeap h.used (by simp only; omega) (by simp only; omega)
  exact hwaits.buffer i hi hin (.inr (.inr (.inl ⟨by omega, by omega⟩)))

/-- Serving a request is the moment at which the call takes effect. -/
theorem serve_service (h : DiskSystemInv sectors st) {len : Nat}
    (hstep : DiskSystemStep sectors st (.serve len) st') :
    ServiceStep (cells Nat (List Byte)) st.service .effect st'.service := by
  obtain ⟨c, sync, image, m, hcall, hwaits, hrequested, hserve, rfl⟩ := h.serves hstep
  have hserved := hrequested.served
  refine ⟨c.op, congrArg ServiceState.pending (DiskSystem.service_requested hcall (by omega)), ?_⟩
  rw [DiskSystem.service_requested hcall (by omega), DiskSystem.service_done (by exact hcall)
    (show st.virtio.made.length ≤ st.served + 1 by omega)]
  have hplaced := hrequested.placed
  have hapart := hplaced.apart
  have hstatus := hplaced.status
  have htype := hrequested.type
  have hsector := hrequested.sector
  have hrange : loadNat st.virtio.driver.bus (c.req.toNat + 8) 8 < sectors := by
    rw [hsector]
    exact hrequested.inRange
  cases hwrite : c.write with
  | false =>
    rw [hwrite] at hserve htype
    obtain ⟨rfl, hread⟩ := serveRequest_read hserve htype hrange
    rw [hsector] at hread
    have hbytes : (st.virtio.driver.setBus (usedPush m st.virtio.disk.used 0 len)).bufferBytes
        c.ptr.toNat = sectorBytes st.image c.n.toNat := by
      refine List.map_congr_left fun i hi => ?_
      have hi := List.mem_range.mp hi
      rw [h.serve_buffer hwaits hi]
      exact hread i hi (by omega)
    rw [DiskCall.op, DiskCall.answer, hwrite, if_neg (by decide), if_neg (by decide), hbytes]
    simp only [cells]
  | true =>
    rw [hwrite] at hserve htype
    have himage := sectorBytes_write (hsector ▸ serveRequest_write hserve htype hrange)
    have hbytes : ((List.range sectorSize).map fun i => st.virtio.driver.bus (c.ptr.toNat + i))
        = c.bytes := hrequested.bytes
    rw [hbytes] at himage
    rw [DiskCall.op, DiskCall.answer, hwrite, if_pos rfl, if_pos rfl, himage]
    simp only [cells]

/-- The handler writes to the `Sync_read` only. -/
theorem interrupt_bus {device : DeviceRegs} {d : DriverState} {sync x : Nat}
    (hx : d.inHeap x = true → ¬ DriverByte v sync x) :
    (diskHandleInterruptSync device d v.disk sync).bus x = d.bus x := by
  cases hin : d.inHeap x with
  | true =>
    have hnot := hx hin
    have hsize : syncReadSize = 16 := rfl
    unfold DriverByte at hnot
    rw [bus_heap (by exact hin), bus_heap hin]
    exact storeNat_of_disjoint (by omega)
  | false =>
    rw [bus_stack (by exact hin), bus_stack hin]
    rfl

/-- The line interrupts after the request was served: the flag is set, the line acknowledged. -/
theorem interrupt (h : DiskSystemInv sectors st)
    (hstep : DiskSystemStep sectors st .interrupt st') :
    DiskSystemInv sectors st' ∧ st'.service = st.service ∧
      ∃ c sync, st'.call = some c ∧ Waits st'.virtio c sync ∧ syncDone st'.virtio.driver sync := by
  obtain ⟨hline, -, p, driver, hparam, hdriver, rfl⟩ := hstep
  have hinv := h.virtio
  have hphase := h.phase
  cases hcall : st.call with
  | none =>
    rw [hcall] at hphase
    exact absurd (hphase.2.2.symm.trans hline) (by decide)
  | some c =>
    rw [hcall] at hphase
    obtain ⟨sync, hwaits, hrequested | hserved⟩ := hphase
    · exact absurd (hrequested.line.symm.trans hline) (by decide)
    · obtain rfl := Option.some.inj (hwaits.handler.symm.trans hparam)
      have hdone : syncDone driver sync := by
        rw [hdriver]
        exact interrupt_done _ _ _ _
      have hack : acknowledged driver st.virtio.disk = true := by
        rw [hdriver, hline]
        exact interrupt_acknowledged _ _ _
      have hinv' : VirtioInv { st.virtio with driver := driver } :=
        hinv.other (e := .interrupt (statusRegister st.virtio.disk st.line))
          ⟨sync, hwaits.waiting, by rw [hdriver]⟩ fun _ _ _ _ heq => absurd heq (by simp)
      have hwaits' : Waits { st.virtio with driver := driver } c sync := by
        rw [hdriver]
        exact ⟨hwaits.waiting, hwaits.handler, hwaits.unmasked, hwaits.buffer⟩
      have hregisters : ∀ offset, offset ≠ virtioInterruptAckOffset →
          driver.register (st.virtio.disk.mmio + offset)
            = st.virtio.driver.register (st.virtio.disk.mmio + offset) := by
        intro offset hne
        rw [hdriver]
        exact interrupt_register hne
      have hbytes : driver.bufferBytes c.ptr.toNat = st.virtio.driver.bufferBytes c.ptr.toNat := by
        refine List.map_congr_left fun i hi => ?_
        rw [hdriver]
        exact interrupt_bus (hwaits.buffer i (List.mem_range.mp hi))
      refine ⟨⟨hinv', h.used, h.queue.congr fun offset _ hne => hregisters offset hne, ?_⟩, ?_,
        c, sync, rfl, hwaits', hdone⟩
      · simp only
        refine ⟨sync, hwaits', .inr ⟨hserved.served, fun _ => ?_, fun _ => hdone⟩⟩
        simp only [hack, Bool.not_true, Bool.and_false]
      · have hle : st.virtio.made.length ≤ st.served := Nat.le_of_eq hserved.served.symm
        rw [DiskSystem.service_done hcall hle, DiskSystem.service_done rfl (by exact hle),
          DiskCall.answer, DiskCall.answer, hbytes]

/-- A call that returns has been served. -/
theorem finish (h : DiskSystemInv sectors st) (hstep : DiskSystemStep sectors st .finish st') :
    DiskSystemInv sectors st' ∧ ∃ c, st.call = some c ∧
      st.service = ⟨sectorBytes st.image, .done c.op (c.answer st.virtio.driver)⟩ ∧
      st'.service = ⟨sectorBytes st.image, .nothing⟩ := by
  obtain ⟨hcall, v, hfinish, rfl⟩ := hstep
  obtain ⟨c, hcall⟩ := Option.ne_none_iff_exists'.mp hcall
  have hinv := h.virtio.other hfinish nofun
  obtain ⟨sync, hwaiting, hdone, rfl⟩ := hfinish
  have hphase := h.phase
  rw [hcall] at hphase
  obtain ⟨sync', hwaits, hcase⟩ := hphase
  obtain rfl := Option.some.inj (hwaits.waiting.symm.trans hwaiting)
  rcases hcase with hrequested | hserved
  · exact absurd hdone hrequested.done
  · refine ⟨⟨hinv, ?_, h.queue.congr fun _ _ _ => diskFinish_register _ _ _, rfl, hserved.served,
      hserved.flag.mp hdone⟩, c, hcall,
      DiskSystem.service_done hcall (Nat.le_of_eq hserved.served.symm),
      DiskSystem.service_nothing rfl⟩
    exact (List.mem_erase_of_ne fun heq => absurd (Prod.mk.inj heq).2 (by decide)).mpr h.used

/-- **One event**, seen as an event of the service. -/
theorem step (h : DiskSystemInv sectors st) {e : DiskSystemEvent}
    (hstep : DiskSystemStep sectors st e st') (hok : CallInRange sectors st e st') :
    DiskSystemInv sectors st' ∧
      ServiceStep (cells Nat (List Byte)) st.service (serviceEvent st e st') st'.service := by
  cases e with
  | kernel e =>
    have hinv := h.kernel hstep
    obtain ⟨hcall, -, v, -, rfl⟩ := hstep
    refine ⟨hinv, Eq.trans ?_ (DiskSystem.service_nothing hcall).symm⟩
    exact DiskSystem.service_nothing (by exact hcall)
  | stack m =>
    have hinv := h.stack hstep
    obtain ⟨hcall, rfl⟩ := hstep
    refine ⟨hinv, Eq.trans ?_ (DiskSystem.service_nothing hcall).symm⟩
    exact DiskSystem.service_nothing (by exact hcall)
  | call write ptr n req =>
    have hinv := h.call hstep hok
    obtain ⟨hcall, -, -, v, hsubmit, rfl⟩ := hstep
    have hphase := h.phase
    rw [hcall] at hphase
    obtain ⟨-, sync, driver, -, -, rfl⟩ := hsubmit
    refine ⟨hinv, congrArg ServiceState.pending (DiskSystem.service_nothing hcall), ?_⟩
    rw [DiskSystem.service_requested rfl, DiskSystem.service_nothing hcall]
    show st.served < (st.virtio.made ++ [_]).length
    rw [hphase.2.1, List.length_append]
    exact Nat.lt_succ_self _
  | serve len => exact ⟨h.serve hstep, h.serve_service hstep⟩
  | interrupt =>
    obtain ⟨hinv, hservice, -⟩ := h.interrupt hstep
    exact ⟨hinv, hservice⟩
  | finish =>
    obtain ⟨hinv, c, hcall, hbefore, hafter⟩ := h.finish hstep
    refine ⟨hinv, ?_⟩
    simp only [serviceEvent, hcall]
    refine ⟨congrArg ServiceState.pending hbefore, ?_⟩
    rw [hbefore, hafter]

/-- The flag is set: the busy wait ends. -/
theorem returns_done {c : DiskCall} {sync : Nat} (hcall : st.call = some c)
    (hwaits : Waits st.virtio c sync) (hdone : syncDone st.virtio.driver sync) :
    DiskReturns sectors st := by
  have hopen : st.call ≠ none := by
    rw [hcall]
    exact Option.some_ne_none c
  exact .step (e := .finish) rfl ⟨hopen, _, ⟨sync, hwaits.waiting, hdone, rfl⟩, rfl⟩ (.idle rfl)

/-- The request was served: the line interrupts, unless the flag is set already. -/
theorem returns_served (h : DiskSystemInv sectors st) {c : DiskCall} {sync : Nat}
    (hcall : st.call = some c) (hwaits : Waits st.virtio c sync) (hserved : Served st sync) :
    DiskReturns sectors st := by
  cases hline : st.line with
  | false => exact returns_done hcall hwaits (hserved.flag.mpr hline)
  | true =>
    have hstep : ∃ st₁, DiskSystemStep sectors st .interrupt st₁ :=
      ⟨_, hline, hwaits.unmasked, sync, _, hwaits.handler, rfl, rfl⟩
    obtain ⟨st₁, hstep⟩ := hstep
    obtain ⟨-, -, c₁, sync₁, hcall₁, hwaits₁, hdone⟩ := h.interrupt hstep
    exact .step rfl hstep (returns_done hcall₁ hwaits₁ hdone)

/-- Whatever a call waits for can happen. -/
theorem returns (h : DiskSystemInv sectors st) : DiskReturns sectors st := by
  have hphase := h.phase
  cases hcall : st.call with
  | none => exact .idle hcall
  | some c =>
    rw [hcall] at hphase
    obtain ⟨sync, hwaits, hrequested | hserved⟩ := hphase
    · have hmade : st.virtio.made ≠ [] := by
        intro hnil
        have hcount := hrequested.served
        rw [hnil] at hcount
        exact absurd hcount (Nat.succ_ne_zero _)
      have hidx : availIdx st.virtio.driver.bus (queueAddress st.virtio.driver st.virtio.disk
          virtioQueueAvailableLowOffset virtioQueueAvailableHighOffset) ≠ st.served % 65536 := by
        rw [h.queue.avail, hrequested.idx]
        have hfew := hrequested.few
        rw [show queueSize = 1024 from rfl] at hfew
        omega
      have hstep : ∃ st₁, DiskSystemStep sectors st (.serve 0) st₁ :=
        ⟨_, hmade, h.queue.ready, hidx, _, _, rfl, rfl⟩
      obtain ⟨st₁, hstep⟩ := hstep
      have hinv₁ := h.serve hstep
      obtain ⟨c₁, -, image, m, hcall', -, -, -, heq⟩ := h.serves hstep
      have hcall₁ : st₁.call = some c₁ := by
        rw [heq]
        exact hcall'
      have hline₁ : st₁.line = true := by
        rw [heq]
      have hphase₁ := hinv₁.phase
      rw [hcall₁] at hphase₁
      obtain ⟨sync₁, hwaits₁, hrequested₁ | hserved₁⟩ := hphase₁
      · exact absurd (hrequested₁.line.symm.trans hline₁) (by decide)
      · exact .step rfl hstep (hinv₁.returns_served hcall₁ hwaits₁ hserved₁)
    · exact h.returns_served hcall hwaits hserved

end DiskSystemInv

end Invariant

/-- A run of the system is a run of the service, and its history can be replayed on the sectors. -/
theorem disk_replay {sectors : Nat} {st st' : DiskSystem}
    {tr : List (DiskSystem × DiskSystemEvent × DiskSystem)}
    (h0 : (diskSystemMachine sectors).start st)
    (hr : (diskSystemMachine sectors).Run st tr st')
    (hok : ∀ a e b, (a, e, b) ∈ tr → CallInRange sectors a e b) :
    DiskSystemInv sectors st' ∧
    (serviceMachine (cells Nat (List Byte))).Run st.service
      (tr.map fun (a, e, b) => (a.service, serviceEvent a e b, b.service)) st'.service ∧
    ∃ values, (cells Nat (List Byte)).Replay (sectorBytes st.image) (diskHistory tr) values ∧
      (st'.call = none → sectorBytes st'.image = values) := by
  obtain ⟨hinv, hrun⟩ := hr.simulate_of (N := serviceMachine (cells Nat (List Byte)))
    (I := DiskSystemInv sectors) DiskSystem.service serviceEvent
    (fun a e b ha hstep hq => ha.step hstep hq) (DiskSystemInv.start h0) hok
  have hstart : Answered (cells Nat (List Byte)) st.service (sectorBytes st.image) := by
    rw [DiskSystem.service_nothing h0.2.2.1]
    exact answered_nothing.mpr rfl
  obtain ⟨values, hreplay, hafter⟩ := serviceMachine_replay hrun hstart
  refine ⟨hinv, hrun, values, hreplay, fun hcall => ?_⟩
  rw [DiskSystem.service_nothing hcall] at hafter
  exact answered_nothing.mp hafter

/-- **The disk is a store of sectors.**  A run of the driver and the device is one in which every
    call takes effect once, between its start and its return: a read that returns has the bytes that
    were written to the sector last, or those that were there at first, and between calls the
    sectors hold these bytes.  A call that waits can always return.  The runs are those of the
    driver on its own: the record of a call is granted by `kalloc`, the calls are in range
    (`CallInRange`), and no other interrupt than that of the disk comes in the wait. -/
theorem disk_is_cells {sectors : Nat} {st st' : DiskSystem}
    {tr : List (DiskSystem × DiskSystemEvent × DiskSystem)}
    (h0 : (diskSystemMachine sectors).start st)
    (hr : (diskSystemMachine sectors).Run st tr st')
    (hok : ∀ a e b, (a, e, b) ∈ tr → CallInRange sectors a e b) :
    (serviceMachine (cells Nat (List Byte))).Run st.service
      (tr.map fun (a, e, b) => (a.service, serviceEvent a e b, b.service)) st'.service ∧
    (∀ i n r, (diskHistory tr)[i]? = some (.get n, r) →
      r = some ((lastPut n ((diskHistory tr).take i)).getD (sectorBytes st.image n))) ∧
    (st'.call = none → ∀ n,
      sectorBytes st'.image n = (lastPut n (diskHistory tr)).getD (sectorBytes st.image n)) ∧
    DiskReturns sectors st' := by
  obtain ⟨hinv, hrun, values, hreplay, hafter⟩ := disk_replay h0 hr hok
  refine ⟨hrun, fun i n r hi => replay_get hreplay hi, fun hcall n => ?_, hinv.returns⟩
  rw [hafter hcall]
  exact replay_cell hreplay n

/-- A call that can return has a run to its return, and is the only one in it. -/
theorem DiskReturns.run {sectors : Nat} {st : DiskSystem} (h : DiskReturns sectors st) :
    ∀ {c : DiskCall}, st.call = some c → ∃ tr st' r, (diskSystemMachine sectors).Run st tr st' ∧
      st'.call = none ∧ diskHistory tr = [(c.op, r)] ∧
      ∀ a e b, (a, e, b) ∈ tr → e.ofWait = true := by
  induction h with
  | idle hidle => exact fun hcall => absurd (hidle.symm.trans hcall) (by simp)
  | @step st st₁ e hevent hstep _ ih =>
    intro c hcall
    by_cases hfinish : e = .finish
    · subst hfinish
      have hcalled : st₁.call = none := by
        obtain ⟨-, v, -, rfl⟩ := hstep
        rfl
      refine ⟨[(st, .finish, st₁)], st₁, c.answer st.virtio.driver, .cons hstep (.nil _), hcalled,
        ?_, ?_⟩
      · simp only [diskHistory, answers, serviceEvent, hcall, List.map_cons, List.map_nil]
      · intro a e b hm
        obtain ⟨-, hrest⟩ := Prod.mk.inj (List.mem_singleton.mp hm)
        rw [(Prod.mk.inj hrest).1]
        rfl
    · have hquiet : st₁.call = st.call ∧
          ∀ tr, diskHistory ((st, e, st₁) :: tr) = diskHistory tr := by
        cases e with
        | serve len =>
          obtain ⟨-, -, -, image, m, -, rfl⟩ := hstep
          exact ⟨rfl, fun _ => rfl⟩
        | interrupt =>
          obtain ⟨-, -, sync, driver, -, -, rfl⟩ := hstep
          exact ⟨rfl, fun _ => rfl⟩
        | finish => exact absurd rfl hfinish
        | _ => cases hevent
      obtain ⟨tr, st', r, hrun, hidle, hhistory, hwait⟩ := ih (hquiet.1.trans hcall)
      refine ⟨_ :: tr, st', r, .cons hstep hrun, hidle, (hquiet.2 tr).trans hhistory, ?_⟩
      intro a e' b hm
      rcases List.mem_cons.mp hm with heq | hm
      · obtain ⟨-, hrest⟩ := Prod.mk.inj heq
        rw [(Prod.mk.inj hrest).1]
        exact hevent
      · exact hwait a e' b hm

/-- The driver over zeroed memory with a disk. -/
def readyDiskSystem (image : Mem) : DiskSystem := ⟨readyState 0, none, image, 0, false⟩

theorem readyDiskSystem_image (image : Mem) : (readyDiskSystem image).image = image := rfl

theorem readyDiskSystem_heap : (readyState 0).driver.heap.heapStartAddress = 0x40180000 ∧
    (readyState 0).driver.heap.blocks = 16 := by
  obtain ⟨-, -, -, -, hheap, hblocks, -⟩ := zeroedMemory_checks
  exact ⟨hheap, hblocks⟩

theorem readyDiskSystem_inHeap {a : Nat} (h : 0x40190000 ≤ a) :
    (readyState 0).driver.inHeap a = false := by
  rw [DriverState.inHeap, readyDiskSystem_heap.1, readyDiskSystem_heap.2]
  exact decide_eq_false (by omega)

theorem readyDiskSystem_start (sectors : Nat) (image : Mem) :
    (diskSystemMachine sectors).start (readyDiskSystem image) := by
  refine ⟨readyState_ready zeroedMemory_checks, ?_, rfl, rfl, rfl⟩
  show (readyState 0).driver.heap.heapStartAddress + 4096 * (readyState 0).driver.heap.blocks ≤ _
  rw [readyDiskSystem_heap.1, readyDiskSystem_heap.2]
  decide

/-- A first call, for sector 5, with its buffer and its record on the stack. -/
def firstCall : DiskSystemEvent := .call false 0x50010200 5 0x50010100

theorem readyDiskSystem_call (image : Mem) : ∃ st bytes,
    DiskSystemStep 8 (readyDiskSystem image) firstCall st ∧
    CallInRange 8 (readyDiskSystem image) firstCall st ∧
    st.call = some ⟨false, 0x50010200, 5, 0x50010100, bytes⟩ := by
  obtain ⟨-, -, -, -, -, -, -, hgranted, hidx⟩ := zeroedMemory_checks
  obtain ⟨v, hsubmit⟩ : ∃ v, VirtioStep (readyState 0) (.submit 0 5 0x50010200 0x50010100) v :=
    submit_exists (readyState 0) rfl hgranted
  have hplaced : RecordPlaced (readyState 0).driver 0x50010200 0x50010100 :=
    ⟨by decide, by decide, fun i _ => readyDiskSystem_inHeap (by simp; omega), .inr (by decide)⟩
  have hbuffer : BufferPlaced (readyState 0) 0x50010200 :=
    .inl fun i _ => readyDiskSystem_inHeap (by simp; omega)
  refine ⟨_, _, ⟨rfl, hplaced, hbuffer, v, hsubmit, rfl⟩, ?_, rfl⟩
  intro write ptr n req he
  cases he
  exact ⟨show 0 < queueSize by decide, fun _ => hidx, by decide, by decide⟩

/-- The first call runs to its return, with nothing but what the driver waits for in between. -/
theorem readyDiskSystem_read (image : Mem) : ∃ tr st r,
    (diskSystemMachine 8).Run (readyDiskSystem image) tr st ∧ st.call = none ∧
    diskHistory tr = [(.get 5, r)] ∧ ∀ a e b, (a, e, b) ∈ tr → CallInRange 8 a e b := by
  obtain ⟨st₁, bytes, hstep, hok, hcall⟩ := readyDiskSystem_call image
  have hinv := (DiskSystemInv.start (readyDiskSystem_start 8 image)).call hstep hok
  obtain ⟨tr, st, r, hrest, hidle, hhistory, hwait⟩ := hinv.returns.run hcall
  refine ⟨(readyDiskSystem image, firstCall, st₁) :: tr, st, r, .cons hstep hrest, hidle, ?_, ?_⟩
  · have hfirst : diskHistory ((readyDiskSystem image, firstCall, st₁) :: tr) = diskHistory tr := by
      simp only [diskHistory, List.map_cons, firstCall, serviceEvent, hcall, answers]
    rw [hfirst, hhistory]
    rfl
  · intro a e b hm
    rcases List.mem_cons.mp hm with heq | hm
    · obtain ⟨rfl, hrest⟩ := Prod.mk.inj heq
      obtain ⟨rfl, rfl⟩ := Prod.mk.inj hrest
      exact hok
    · rintro write ptr n req rfl
      exact absurd (hwait _ _ _ hm) Bool.false_ne_true

/-- On a disk whose sector `n` is full of the byte `n + 7`, a read of sector 5 returns 512 times the
    byte 12. -/
theorem disk_is_cells_first : ∃ tr st,
    (diskSystemMachine 8).Run (readyDiskSystem fun a => BitVec.ofNat 8 (a / 512 + 7)) tr st ∧
    st.call = none ∧ diskHistory tr = [(.get 5, some (List.replicate 512 12))] := by
  obtain ⟨tr, st, r, hrun, hidle, hhistory, hrange⟩ :=
    readyDiskSystem_read fun a => BitVec.ofNat 8 (a / 512 + 7)
  have hread := (disk_is_cells (readyDiskSystem_start 8 _) hrun hrange).2.1
  rw [hhistory] at hread
  have hr := hread 0 5 r rfl
  simp only [List.take_zero, lastPut, Option.getD_none, readyDiskSystem_image] at hr
  have hsector : sectorBytes (fun a => BitVec.ofNat 8 (a / 512 + 7)) 5 = List.replicate 512 12 := by
    decide +kernel
  rw [hsector] at hr
  exact ⟨tr, st, hrun, hidle, by rw [hhistory, hr]⟩

end TinyKernel
