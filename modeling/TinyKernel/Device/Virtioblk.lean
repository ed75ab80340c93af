/-
  The virtio block driver, `kernel/device/virtioblk.c`.

  The driver and the device share three structures in heap memory: the descriptor table, the
  available ring (`flags`, `idx`, then `QUEUE_SIZE` slots) and the used ring.  They are modelled
  in raw memory, at the offsets of the packed structures, so that a store through `avail->ring`
  beyond its end lands where it does in C.  The table of the heap and the stack with the request
  records are other objects and have memories of their own.

  The registers of the device answer as they like: `device` gives the value of a register from the
  history of writes.  The call `disk_create_request_sync` is split at its busy wait into
  `diskSubmit` and `diskFinish`; what happens during the wait is up to the machine of
  `Device.VirtioblkRun`.

  `chain` and `pending` are the device's side: the buffers of the chain that starts at a
  descriptor, and the heads it finds when it has consumed `seen` requests.
-/
import TinyKernel.Alloc.HeapRun

namespace TinyKernel

/-! ## The source -/

/-- `struct virtioblk`, with its own address. -/
structure Virtioblk where
  ptr : Nat
  mmio : Nat
  descriptors : Nat
  avail : Nat
  used : Nat

/-- What the driver works on. -/
structure DriverState where
  heap : Heap
  /-- The memory of the heap's table. -/
  table : Mem
  /-- The memory of the heap's blocks. -/
  mem : Mem
  stack : Mem
  /-- The writes to registers of the device, newest first. -/
  writes : List (Nat × Nat)
  /-- The argument with which the handler of interrupt 79 is registered. -/
  handlerParam : Option Nat
  fiqMasked : Bool
  /-- Ghost: the indices at which `avail->ring` was stored to, newest first. -/
  ringStores : List Nat

/-- The registers of a device: the answer to a read, from the writes so far. -/
abbrev DeviceRegs := List (Nat × Nat) → Nat → Nat

/-- `QUEUE_SIZE`. -/
def queueSize : Nat := 1024

/-- `VIRTIO_DISK_BASE_ADDRESS`. -/
def virtioDiskBaseAddress : Nat := 0xa000000
/-- `VIRTIO_DISK_SIZE`. -/
def virtioDiskSize : Nat := 0x200
/-- `VIRTIO_DISK_MAGIC_VALUE`. -/
def virtioDiskMagicValue : Nat := 0x74726976

/-! The memory mapped registers and the values of the status register. -/

def virtioMagicOffset : Nat := 0x0
def virtioVersionOffset : Nat := 0x4
def virtioDeviceidOffset : Nat := 0x8
def virtioDevFeaturesOffset : Nat := 0x10
def virtioDevFeaturesselectOffset : Nat := 0x14
def virtioQueueIndexOffset : Nat := 0x30
def virtioQueueSizeOffset : Nat := 0x38
def virtioQueueReadyOffset : Nat := 0x44
def virtioQueueNotifyOffset : Nat := 0x50
def virtioInterruptStatusOffset : Nat := 0x60
def virtioInterruptAckOffset : Nat := 0x64
def virtioDeviceStatusOffset : Nat := 0x70
def virtioQueueDescriptorLowOffset : Nat := 0x80
def virtioQueueDescriptorHighOffset : Nat := 0x84
def virtioQueueAvailableLowOffset : Nat := 0x90
def virtioQueueAvailableHighOffset : Nat := 0x94
def virtioQueueUsedLowOffset : Nat := 0xa0
def virtioQueueUsedHighOffset : Nat := 0xa4
def virtioStatusAck : Nat := 1
def virtioStatusDriver : Nat := 2
def virtioStatusFeaturesOk : Nat := 8
def virtioStatusDriverOk : Nat := 4

/-- `sizeof(Virtq_desc)`. -/
def virtqDescSize : Nat := 16
/-- `sizeof(Virtq_avail)`. -/
def virtqAvailSize : Nat := 4 + 2 * queueSize + 2
/-- `sizeof(Virtq_used)`. -/
def virtqUsedSize : Nat := 4 + 8 * queueSize + 2
/-- `sizeof(Sync_read)`. -/
def syncReadSize : Nat := 16

/-- `VIRTQ_DESC_F_NEXT`. -/
def virtqDescFNext : Nat := 1
/-- `VIRTQ_DESC_F_WRITE`. -/
def virtqDescFWrite : Nat := 2

/-- `kalloc`. -/
def kalloc (st : DriverState) (size : Nat) : Nat × DriverState :=
  let (p, heap, table) := heapAlloc st.heap st.table size
  (p, { st with heap := heap, table := table })

/-- `kfree`. -/
def kfree (st : DriverState) (p : Nat) : DriverState :=
  let (heap, table) := heapFree st.heap st.table p
  { st with heap := heap, table := table }

/-- `disk_read_reg`. -/
def diskReadReg (device : DeviceRegs) (st : DriverState) (disk : Virtioblk) (offset : Nat) : Nat :=
  device st.writes (disk.mmio + offset) % 4294967296

/-- `disk_set_reg`. -/
def diskSetReg (st : DriverState) (disk : Virtioblk) (offset value : Nat) : DriverState :=
  { st with writes := (disk.mmio + offset, value % 4294967296) :: st.writes }

@[simp] theorem diskSetReg_heap (st : DriverState) (disk : Virtioblk) (offset value : Nat) :
    (diskSetReg st disk offset value).heap = st.heap := rfl
@[simp] theorem diskSetReg_table (st : DriverState) (disk : Virtioblk) (offset value : Nat) :
    (diskSetReg st disk offset value).table = st.table := rfl
@[simp] theorem diskSetReg_mem (st : DriverState) (disk : Virtioblk) (offset value : Nat) :
    (diskSetReg st disk offset value).mem = st.mem := rfl
@[simp] theorem diskSetReg_ringStores (st : DriverState) (disk : Virtioblk) (offset value : Nat) :
    (diskSetReg st disk offset value).ringStores = st.ringStores := rfl

/-- The queue setup at the end of `disk_init`. -/
def diskInitQueue (st : DriverState) (disk : Virtioblk) : Virtioblk × DriverState :=
  let st := diskSetReg st disk virtioQueueSizeOffset queueSize
  let (descriptors, st) := kalloc st (virtqDescSize * queueSize)
  let (avail, st) := kalloc st virtqAvailSize
  let (used, st) := kalloc st virtqUsedSize
  let disk := { disk with descriptors := descriptors, avail := avail, used := used }
  let st := diskSetReg st disk virtioQueueDescriptorLowOffset descriptors
  let st := diskSetReg st disk virtioQueueDescriptorHighOffset 0
  let st := diskSetReg st disk virtioQueueAvailableLowOffset avail
  let st := diskSetReg st disk virtioQueueAvailableHighOffset 0
  let st := diskSetReg st disk virtioQueueUsedLowOffset used
  let st := diskSetReg st disk virtioQueueUsedHighOffset 0
  let st := diskSetReg st disk virtioQueueReadyOffset 1
  let st := diskSetReg st disk virtioDeviceStatusOffset virtioStatusDriverOk
  (disk, st)

/-- `disk_init`: the result, the structure and the state. -/
def diskInit (device : DeviceRegs) (st : DriverState) (disk : Virtioblk) (offset : Nat) :
    Int × Virtioblk × DriverState :=
  let disk := { disk with mmio := virtioDiskBaseAddress + offset * virtioDiskSize }
  if diskReadReg device st disk virtioMagicOffset ≠ virtioDiskMagicValue then (-1, disk, st)
  else if diskReadReg device st disk virtioVersionOffset ≠ 2 then (-2, disk, st)
  else if diskReadReg device st disk virtioDeviceidOffset = 0 then (-3, disk, st)
  else
    let st := diskSetReg st disk virtioDeviceStatusOffset 0
    let st := diskSetReg st disk virtioDeviceStatusOffset virtioStatusAck
    let st := diskSetReg st disk virtioDeviceStatusOffset virtioStatusDriver
    let feat := diskReadReg device st disk virtioDevFeaturesOffset
    let st := diskSetReg st disk virtioDevFeaturesselectOffset feat
    let st := diskSetReg st disk virtioDeviceStatusOffset virtioStatusFeaturesOk
    if diskReadReg device st disk virtioDeviceStatusOffset ≠ virtioStatusFeaturesOk then (-4, disk, st)
    else
      let st := diskSetReg st disk virtioQueueIndexOffset 0
      if diskReadReg device st disk virtioQueueReadyOffset ≠ 0 then (-5, disk, st)
      else
        let (disk, st) := diskInitQueue st disk
        (0, disk, st)

/-- `descriptors[i]`: `addr`, `len` and `flags`. -/
def setDesc (m : Mem) (descriptors i addr len flags : Nat) : Mem :=
  let m := storeNat m (descriptors + 16 * i) 8 addr
  let m := storeNat m (descriptors + 16 * i + 8) 4 len
  storeNat m (descriptors + 16 * i + 12) 2 flags

/-- `descriptors[i].next`. -/
def setNext (m : Mem) (descriptors i next : Nat) : Mem :=
  storeNat m (descriptors + 16 * i + 14) 2 next

/-- The flags of the data descriptor. -/
def dataFlags (write : BitVec 32) : Nat :=
  if write = 0 then virtqDescFNext ||| virtqDescFWrite else virtqDescFNext

/-- The three descriptors of a request. -/
def writeDescriptors (m : Mem) (descriptors : Nat) (write : BitVec 32) (data req : Word) : Mem :=
  let m := setDesc m descriptors 0 req.toNat 16 virtqDescFNext
  let m := setNext m descriptors 0 1
  let m := setDesc m descriptors 1 data.toNat 512 (dataFlags write)
  let m := setNext m descriptors 1 2
  setDesc m descriptors 2 (req + 16).toNat 1 virtqDescFWrite

/-- `avail->idx`. -/
def availIdx (m : Mem) (avail : Nat) : Nat := loadNat m (avail + 2) 2

/-- `ring[idx] = head`, `idx += 1`, `flags = 0`. -/
def publish (m : Mem) (avail head : Nat) : Mem :=
  let m := storeNat m (avail + 4 + 2 * availIdx m avail) 2 head
  let m := storeNat m (avail + 2) 2 (availIdx m avail + 1)
  storeNat m avail 2 0

/-- `disk_create_request_sync` up to its busy wait, with the request record at `req` on the stack:
    the `Sync_read` it waits on, and the state. -/
def diskSubmit (st : DriverState) (disk : Virtioblk) (write : BitVec 32) (data : Word)
    (sector : BitVec 32) (req : Word) : Nat × DriverState :=
  let stack := storeNat st.stack (req.toNat + 8) 8 (sector.signExtend 64).toNat
  let stack := storeNat stack req.toNat 4 write.toNat
  let m := writeDescriptors st.mem disk.descriptors write data req
  let st := { st with stack := stack, mem := publish m disk.avail 0,
                      ringStores := availIdx m disk.avail :: st.ringStores }
  let (sync, st) := kalloc st syncReadSize
  let m := storeNat st.mem sync 8 disk.ptr
  let m := storeNat m (sync + 8) 1 0
  let st := { st with mem := m, handlerParam := some sync, fiqMasked := false }
  (sync, diskSetReg st disk virtioQueueNotifyOffset 0)

/-- `disk_create_request_sync` after its busy wait. -/
def diskFinish (st : DriverState) (sync : Nat) : DriverState :=
  kfree { st with fiqMasked := true } sync

/-- What `disk_create_request_sync` returns, and the state it leaves.  `disk_block_read`,
    `disk_block_write`, `block_read` and `block_write` pass the result on. -/
def diskReturn (st : DriverState) (sync : Nat) : Int × DriverState := (0, diskFinish st sync)

/-- `sync->done`. -/
def syncDone (st : DriverState) (sync : Nat) : Prop := st.mem (sync + 8) ≠ 0

/-- `disk_handle_interrupt_sync`. -/
def diskHandleInterruptSync (device : DeviceRegs) (st : DriverState) (disk : Virtioblk)
    (sync : Nat) : DriverState :=
  let interrupt := diskReadReg device st disk virtioInterruptStatusOffset
  let st := diskSetReg st disk virtioInterruptAckOffset interrupt
  { st with mem := storeNat st.mem (sync + 8) 1 1 }

/-! ## The device's side -/

/-- A buffer of a request, as the device sees it. -/
structure Buffer where
  addr : Nat
  len : Nat
  deviceWrites : Bool
  deriving Repr, DecidableEq

/-- A descriptor: `addr`, `len`, `flags` and `next`. -/
def descAt (m : Mem) (descriptors i : Nat) : Nat × Nat × Nat × Nat :=
  (loadNat m (descriptors + 16 * i) 8, loadNat m (descriptors + 16 * i + 8) 4,
    loadNat m (descriptors + 16 * i + 12) 2, loadNat m (descriptors + 16 * i + 14) 2)

/-- The chain of buffers from descriptor `i` on. -/
def chain (m : Mem) (descriptors : Nat) : Nat → Nat → List Buffer
  | 0, _ => []
  | n + 1, i =>
    let (addr, len, flags, next) := descAt m descriptors i
    ⟨addr, len, flags / virtqDescFWrite % 2 = 1⟩ ::
      if flags / virtqDescFNext % 2 = 1 then chain m descriptors n next else []

/-- The heads in the slots `ring[i mod QUEUE_SIZE]`, for `i` from `seen` up to `avail->idx`. -/
def pending (m : Mem) (avail seen : Nat) : List Nat :=
  (List.range ((availIdx m avail + 65536 - seen % 65536) % 65536)).map fun j =>
    loadNat m (avail + 4 + 2 * ((seen + j) % queueSize)) 2

/-- The device puts the chain that starts at descriptor `id` on the used ring, with the number of
    bytes it wrote. -/
def usedPush (m : Mem) (used id len : Nat) : Mem :=
  let idx := loadNat m (used + 2) 2
  let m := storeNat m (used + 4 + 8 * (idx % queueSize)) 4 id
  let m := storeNat m (used + 4 + 8 * (idx % queueSize) + 4) 4 len
  storeNat m (used + 2) 2 (idx + 1)

/-- The requests that a device which has seen `seen` of them finds. -/
def deviceView (m : Mem) (disk : Virtioblk) (seen : Nat) : List (List Buffer) :=
  (pending m disk.avail seen).map (chain m disk.descriptors queueSize)

/-- The buffers of a request: its header, its data, and its status byte. -/
def requestBuffers (write : BitVec 32) (data req : Word) : List Buffer :=
  [⟨req.toNat, 16, false⟩, ⟨data.toNat, 512, write = 0⟩, ⟨(req + 16).toNat, 1, true⟩]

/-! ## What a request stores -/

variable {m m' : Mem} {descriptors avail head : Nat} {write : BitVec 32} {data req : Word}

/-- The descriptors of a request are the first three. -/
theorem writeDescriptors_of_disjoint {x : Nat} (h : x < descriptors ∨ descriptors + 48 ≤ x) :
    writeDescriptors m descriptors write data req x = m x := by
  unfold writeDescriptors setDesc setNext
  simp (disch := omega) only [storeNat_of_disjoint]

/-- A store leaves the descriptors alone that it does not overlap. -/
theorem descAt_congr {i : Nat}
    (h : ∀ x, descriptors + 16 * i ≤ x → x < descriptors + 16 * i + 16 → m x = m' x) :
    descAt m descriptors i = descAt m' descriptors i := by
  have hload : ∀ a n, descriptors + 16 * i ≤ a → a + n ≤ descriptors + 16 * i + 16 →
      loadNat m a n = loadNat m' a n :=
    fun a n h1 h2 => loadNat_congr fun j hj => h (a + j) (by omega) (by omega)
  unfold descAt
  rw [hload _ 8 (by omega) (by omega), hload _ 4 (by omega) (by omega),
    hload _ 2 (by omega) (by omega), hload _ 2 (by omega) (by omega)]

/-- The three descriptors of a request; the last one keeps its `next`. -/
theorem descAt_writeDescriptors (m : Mem) (descriptors : Nat) (write : BitVec 32)
    (data req : Word) :
    descAt (writeDescriptors m descriptors write data req) descriptors 0 = (req.toNat, 16, 1, 1) ∧
    descAt (writeDescriptors m descriptors write data req) descriptors 1
      = (data.toNat, 512, dataFlags write, 2) ∧
    descAt (writeDescriptors m descriptors write data req) descriptors 2
      = ((req + 16).toNat, 1, 2, loadNat m (descriptors + 16 * 2 + 14) 2) := by
  have hflags : dataFlags write % 256 ^ 2 = dataFlags write := by
    unfold dataFlags
    split <;> decide
  have hword : ∀ w : Word, w.toNat % 256 ^ 8 = w.toNat := fun w => Nat.mod_eq_of_lt w.isLt
  unfold descAt writeDescriptors setDesc setNext
  simp (disch := omega) only [loadNat_storeNat_disjoint, loadNat_storeNat_same]
  rw [hflags, hword, hword, hword]
  exact ⟨rfl, rfl, rfl⟩

/-- The device finds the buffers of the request behind its head descriptor. -/
theorem chain_writeDescriptors (hm : ∀ x, descriptors ≤ x → x < descriptors + 48 →
      m' x = writeDescriptors m descriptors write data req x) :
    chain m' descriptors queueSize 0 = requestBuffers write data req := by
  have hdesc : ∀ i, i < 3 → descAt m' descriptors i
      = descAt (writeDescriptors m descriptors write data req) descriptors i := fun i hi =>
    descAt_congr fun x h1 h2 => hm x (by omega) (by omega)
  obtain ⟨h0, h1, h2⟩ := descAt_writeDescriptors m descriptors write data req
  rw [← hdesc 0 (by omega)] at h0
  rw [← hdesc 1 (by omega)] at h1
  rw [← hdesc 2 (by omega)] at h2
  have hnext : dataFlags write / virtqDescFNext % 2 = 1 := by
    unfold dataFlags
    split <;> rfl
  have hdir : (dataFlags write / virtqDescFWrite % 2 = 1) = (write = 0) := by
    unfold dataFlags
    by_cases hw : write = 0
    · rw [if_pos hw]
      exact propext ⟨fun _ => hw, fun _ => rfl⟩
    · rw [if_neg hw]
      exact propext ⟨fun h => absurd h (by decide), fun h => absurd h hw⟩
  rw [show queueSize = 1021 + 1 + 1 + 1 from rfl, chain, h0]
  show _ :: chain m' descriptors (1021 + 1 + 1) 1 = _
  rw [chain, h1]
  simp only [hnext, hdir, if_true]
  rw [chain, h2]
  rfl

/-! ## What it publishes -/

/-- Where publishing a request stores: its slot of the ring, `idx` and `flags`. -/
theorem publish_of_disjoint {x : Nat} (h : x < avail ∨ avail + 4 ≤ x)
    (hslot : x < avail + 4 + 2 * availIdx m avail ∨ avail + 6 + 2 * availIdx m avail ≤ x) :
    publish m avail head x = m x := by
  unfold publish
  rw [storeNat_of_disjoint (by omega), storeNat_of_disjoint (by omega),
    storeNat_of_disjoint (by omega)]

/-- `idx` is one more, as a 16-bit number. -/
theorem availIdx_publish : availIdx (publish m avail head) avail
    = (availIdx m avail + 1) % 65536 := by
  unfold publish
  rw [availIdx, loadNat_storeNat_disjoint (by omega), loadNat_storeNat_same, availIdx,
    loadNat_storeNat_disjoint (by omega)]
  rfl

/-- The slot holds the head. -/
theorem slot_publish (hhead : head < 65536) :
    loadNat (publish m avail head) (avail + 4 + 2 * availIdx m avail) 2 = head := by
  unfold publish
  rw [loadNat_storeNat_disjoint (by omega), loadNat_storeNat_disjoint (by omega),
    loadNat_storeNat_same]
  exact Nat.mod_eq_of_lt hhead

theorem availIdx_congr (h : ∀ x, avail ≤ x → x < avail + virtqAvailSize → m x = m' x) :
    availIdx m avail = availIdx m' avail :=
  loadNat_congr fun j hj => h (avail + 2 + j) (by omega)
    (by rw [show virtqAvailSize = 2054 from rfl]; omega)

end TinyKernel
