/-
  The slab allocator, `kernel/alloc/slab.c`.

  A slab is a zone of memory: first a bitmap (bit = 1: the slot is in use), rounded up to a
  multiple of the object size, then `maxStore` objects of `objectSize` bytes.  The functions are
  transcribed with the source's mixed `int` / `size_t` / `uint32_t` arithmetic (`Lib.CInt`) and
  act on raw memory, so the bitmap and the objects share one address space.

  Two loops of the source can leave defined behaviour, and the model says so instead of
  choosing a value:

  * `slab_get_next_slot` counts a `size_t` down with the test `count >= 0`, which never fails;
    after slot 0 the counter wraps, reaches `slab_get_header_bit` as the `int` -1 and shifts by
    -1 (`Fault.negativeShift`);
  * `slab_free` counts subtractions in an `int`; past `2^31 - 1` of them it overflows
    (`Fault.signedOverflow`).

  The second half proves one specification per operation, for a slab that is `Placed` (which
  every slab made by `slab_create` is, `slabCreate_placed`): the bitmap bytes come before the
  objects, nothing overflows, and the operations are exactly `setBit` on the slot's bit.
-/
import TinyKernel.Lib.Bitmap
import TinyKernel.Lib.Extents
import TinyKernel.Str

namespace TinyKernel

/-- `struct slab`. -/
structure Slab where
  startingAddress : Nat
  maxStore : Nat
  objectSize : Nat
  headerSize : Nat
  deriving Repr, DecidableEq

/-! ## The source -/

/-- `slab_align_to_object`: `size` rounded up to a multiple of `object_size`, as an `int`. -/
def slabAlignToObject (objectSize size : Nat) : Int :=
  let count := toInt32 ((size / objectSize : Nat) + (if size % objectSize = 0 then 0 else 1))
  toInt32 (objectSize * count)

/-- `slab_get_header_size`: the bytes the bitmap takes, rounded up to whole objects. -/
def slabGetHeaderSize (objectSize maxStore : Nat) : Nat :=
  let offset := toInt32 (maxStore % 8 : Nat)
  let quot := toInt32 (maxStore / 8 : Nat)
  let headerBytes := if offset = 0 then quot else quot + 1
  toSize (slabAlignToObject objectSize (toSize headerBytes))

/-- `slab_get_needed_size`: header and objects together. -/
def slabGetNeededSize (objectSize maxStore : Nat) : Nat :=
  toSize (slabGetHeaderSize objectSize maxStore + objectSize * maxStore : Nat)

/-- `slab_header_reset_value`. -/
def slabHeaderResetValue : Int := 0

/-- `slab_create`: fill in the structure and reset the header bytes. -/
def slabCreate (objectSize maxStore startingAddress : Nat) (m : Mem) : Slab × Mem :=
  let headerSize := slabGetHeaderSize objectSize maxStore
  (⟨startingAddress, maxStore, objectSize, headerSize⟩,
    memset m startingAddress slabHeaderResetValue headerSize)

/-- `slab_get_header_bit`.  The bit number is a C `int`: for a negative one `n % 8` is negative,
    and shifting by it is undefined. -/
def slabGetHeaderBit (s : Slab) (m : Mem) (n : Int) : Except Fault Int :=
  let offset := n.tmod 8
  let quot := n.tdiv 8
  if offset < 0 then .error .negativeShift
  else
    .ok (if m (toSize (s.startingAddress + quot)) &&& ((1 : Byte) <<< offset.toNat) ≠ 0
      then 1 else 0)

/-- `slab_set_header_bit`, for the two values 0 and 1 the source passes. -/
def slabSetHeaderBit (s : Slab) (m : Mem) (n : Int) (v : Bool) : Except Fault Mem :=
  let offset := n.tmod 8
  let byte := toSize (s.startingAddress + n.tdiv 8)
  if offset < 0 then .error .negativeShift
  else .ok (Function.update m byte (maskByte (m byte) offset.toNat v))

/-- The loop of `slab_get_next_slot`, entered with `count`.  After slot 0 the `size_t` counter
    wraps around and the next bit asked for is `(int)count = -1`. -/
def slabNextSlotLoop (s : Slab) (m : Mem) : Nat → Except Fault Nat
  | 0 => do
    let bit ← slabGetHeaderBit s m 0
    if bit = 0 then return 0
    let _ ← slabGetHeaderBit s m (-1)
    throw .negativeShift
  | count + 1 => do
    let bit ← slabGetHeaderBit s m (toInt32 (count + 1 : Nat))
    if bit = 0 then return (count + 1)
    slabNextSlotLoop s m count

/-- `slab_get_next_slot`: the highest slot whose bit is 0. -/
def slabGetNextSlot (s : Slab) (m : Mem) : Except Fault Nat :=
  slabNextSlotLoop s m (toSize ((s.maxStore : Int) - 1))

/-- `slab_allocate`: the address of a slot and the memory with its bit set; 0 is `NULL`. -/
def slabAllocate (s : Slab) (m : Mem) : Except Fault (Nat × Mem) := do
  let next ← slabGetNextSlot s m
  let slot := toInt32 next
  if slot = -1 then return (0, m)
  let m' ← slabSetHeaderBit s m slot true
  -- `uint32_t slot_position`
  let slotPosition := ((s.headerSize : Int) + s.objectSize * slot) % 4294967296
  return (toSize (s.startingAddress + slotPosition), m')

/-- The subtraction loop of `slab_free`.  `room` is how often `slot` can still be incremented
    before it overflows `int`; the result is the rest of `offset` and the slot. -/
def slabFreeLoop (objectSize : Nat) : Nat → Nat → Nat → Except Fault (Nat × Nat)
  | 0, offset, slot => if objectSize ≤ offset then .error .signedOverflow else .ok (offset, slot)
  | room + 1, offset, slot =>
    if objectSize ≤ offset then slabFreeLoop objectSize room (offset - objectSize) (slot + 1)
    else .ok (offset, slot)

/-- `slab_free`: 1 and the bit cleared, or 0 and nothing changed. -/
def slabFree (s : Slab) (m : Mem) (ptr : Nat) : Except Fault (Int × Mem) := do
  let offset := toSize ((ptr : Int) - s.startingAddress - s.headerSize)
  let (rest, slot) ← slabFreeLoop s.objectSize 2147483647 offset 0
  if rest ≠ 0 then return (0, m)
  let bit ← slabGetHeaderBit s m slot
  if bit = 1 then
    let m' ← slabSetHeaderBit s m slot false
    return (1, m')
  return (0, m)

/-! ## Placement: what `slab_create` guarantees about the layout -/

/-- The address of slot `k`. -/
def Slab.slotAddr (s : Slab) (k : Nat) : Nat := s.startingAddress + s.headerSize + s.objectSize * k

/-- Whether slot `k` is marked used in the header. -/
def Slab.used (s : Slab) (m : Mem) (k : Nat) : Bool := bitAt m s.startingAddress k

/-- A slab whose header holds a bit for every slot and whose zone fits both the address space
    and the `int` arithmetic of the allocator. -/
structure Slab.Placed (s : Slab) : Prop where
  object_pos : 1 ≤ s.objectSize
  store_pos : 1 ≤ s.maxStore
  /-- The header holds one bit per slot. -/
  bitmap_fits : s.maxStore ≤ 8 * s.headerSize
  small : s.headerSize + s.objectSize * s.maxStore < 2147483648
  in_space : s.startingAddress + (s.headerSize + s.objectSize * s.maxStore) ≤ 18446744073709551616

/-- `size` rounded up to whole objects, without the conversions to `int`. -/
def wholeObjects (objectSize size : Nat) : Nat :=
  size / objectSize + (if size % objectSize = 0 then 0 else 1)

theorem le_mul_wholeObjects {objectSize : Nat} (ho : 1 ≤ objectSize) (size : Nat) :
    size ≤ objectSize * wholeObjects objectSize size := by
  have hdiv := Nat.div_add_mod size objectSize
  have hlt := Nat.mod_lt size (show 0 < objectSize by omega)
  unfold wholeObjects
  split <;> rw [Nat.mul_add] <;> omega

theorem mul_wholeObjects_lt {objectSize : Nat} (ho : 1 ≤ objectSize) (size : Nat) :
    objectSize * wholeObjects objectSize size < size + objectSize := by
  have hdiv := Nat.div_add_mod size objectSize
  unfold wholeObjects
  split <;> rw [Nat.mul_add] <;> omega

/-- The rounded header stays below `2^31` whenever the objects do: it is at most one object, or
    less than twice the bitmap. -/
theorem mul_wholeObjects_header_lt {objectSize maxStore : Nat} (ho : 1 ≤ objectSize)
    (hs : 1 ≤ maxStore) (hfit : objectSize * maxStore < 2147483648) :
    objectSize * wholeObjects objectSize ((maxStore + 7) / 8) < 2147483648 := by
  have hms : maxStore ≤ objectSize * maxStore := Nat.le_mul_of_pos_left maxStore ho
  have hos : objectSize ≤ objectSize * maxStore := Nat.le_mul_of_pos_right objectSize hs
  have hub := mul_wholeObjects_lt ho ((maxStore + 7) / 8)
  rcases Nat.lt_or_ge objectSize ((maxStore + 7) / 8) with hlt | hge
  · omega
  · have hone : wholeObjects objectSize ((maxStore + 7) / 8) ≤ 1 := by
      have : objectSize * wholeObjects objectSize ((maxStore + 7) / 8) < objectSize * 2 := by omega
      have := Nat.lt_of_mul_lt_mul_left this
      omega
    have := Nat.mul_le_mul_left objectSize hone
    omega

/-- The header size without the conversions: for objects below `2^31` bytes nothing is cut, and
    the header is the bitmap rounded up to whole objects. -/
theorem slabGetHeaderSize_eq {objectSize maxStore : Nat} (ho : 1 ≤ objectSize)
    (hs : 1 ≤ maxStore) (hfit : objectSize * maxStore < 2147483648) :
    slabGetHeaderSize objectSize maxStore
      = objectSize * wholeObjects objectSize ((maxStore + 7) / 8) := by
  have hms : maxStore ≤ objectSize * maxStore := Nat.le_mul_of_pos_left maxStore ho
  have hbytes : (if toInt32 (maxStore % 8 : Nat) = 0 then toInt32 (maxStore / 8 : Nat)
      else toInt32 (maxStore / 8 : Nat) + 1) = ((maxStore + 7) / 8 : Nat) := by
    rw [toInt32_of_range (x := (maxStore % 8 : Nat)) (by omega) (by omega),
      toInt32_of_range (x := (maxStore / 8 : Nat)) (by omega) (by omega)]
    split <;> omega
  have hsize : toSize (((maxStore + 7) / 8 : Nat) : Int) = (maxStore + 7) / 8 :=
    toSize_natCast (by omega)
  have hprod := mul_wholeObjects_header_lt ho hs hfit
  have hcount : wholeObjects objectSize ((maxStore + 7) / 8) < 2147483648 :=
    Nat.lt_of_le_of_lt (Nat.le_mul_of_pos_left _ ho) hprod
  simp only [slabGetHeaderSize, hbytes, hsize]
  generalize (maxStore + 7) / 8 = b at *
  have hcast : ((b / objectSize : Nat) : Int) + (if b % objectSize = 0 then 0 else 1)
      = (wholeObjects objectSize b : Nat) := by
    unfold wholeObjects
    split <;> push_cast <;> rfl
  have halign : slabAlignToObject objectSize b
      = ((objectSize * wholeObjects objectSize b : Nat) : Int) := by
    simp only [slabAlignToObject]
    rw [hcast, toInt32_of_range (x := (wholeObjects objectSize b : Nat)) (by omega) (by omega),
      ← Nat.cast_mul, toInt32_of_range (by omega) (by omega)]
  rw [halign]
  exact toSize_natCast (by omega)

theorem slabGetNeededSize_eq {objectSize maxStore : Nat}
    (hfit : slabGetHeaderSize objectSize maxStore + objectSize * maxStore < 2147483648) :
    slabGetNeededSize objectSize maxStore
      = slabGetHeaderSize objectSize maxStore + objectSize * maxStore :=
  toSize_natCast (by omega)

/-- The structure `slab_create` returns. -/
theorem slabCreate_fst (objectSize maxStore start : Nat) (m : Mem) :
    (slabCreate objectSize maxStore start m).1
      = ⟨start, maxStore, objectSize, slabGetHeaderSize objectSize maxStore⟩ := rfl

/-- **Every created slab is placed.** -/
theorem slabCreate_placed {objectSize maxStore start : Nat} (m : Mem) (ho : 1 ≤ objectSize)
    (hs : 1 ≤ maxStore)
    (hfit : slabGetHeaderSize objectSize maxStore + objectSize * maxStore < 2147483648)
    (hspace : start + slabGetNeededSize objectSize maxStore ≤ 18446744073709551616) :
    (slabCreate objectSize maxStore start m).1.Placed := by
  have hbits : maxStore ≤ 8 * slabGetHeaderSize objectSize maxStore := by
    rw [slabGetHeaderSize_eq ho hs (by omega)]
    have := le_mul_wholeObjects ho ((maxStore + 7) / 8)
    omega
  rw [slabGetNeededSize_eq hfit] at hspace
  rw [slabCreate_fst]
  generalize slabGetHeaderSize objectSize maxStore = header at *
  exact ⟨ho, hs, hbits, hfit, hspace⟩

/-- The header of a created slab is clear, and no byte outside the header was written. -/
theorem slabCreate_mem {objectSize maxStore start : Nat} (m : Mem)
    (hp : (slabCreate objectSize maxStore start m).1.Placed) (x : Nat) :
    (slabCreate objectSize maxStore start m).2 x
      = if start ≤ x ∧ x < start + slabGetHeaderSize objectSize maxStore then 0 else m x := by
  rw [slabCreate_fst] at hp
  have h1 := hp.small
  have h2 := hp.in_space
  have h3 : 1 ≤ objectSize * maxStore := Nat.mul_pos hp.object_pos hp.store_pos
  simp only at h1 h2
  simp only [slabCreate, slabHeaderResetValue]
  exact memset_zero_apply m (by omega) (by omega) x

namespace Slab

variable {s : Slab} {m : Mem}

/-! ## Where things are in a placed slab -/

theorem slot_end_le {k : Nat} (hk : k < s.maxStore) :
    s.slotAddr k + s.objectSize
      ≤ s.startingAddress + (s.headerSize + s.objectSize * s.maxStore) := by
  have h1 : s.objectSize * (k + 1) ≤ s.objectSize * s.maxStore := Nat.mul_le_mul_left _ hk
  have h2 : s.objectSize * (k + 1) = s.objectSize * k + s.objectSize := by ring
  unfold slotAddr
  omega

theorem header_le_slotAddr (k : Nat) : s.startingAddress + s.headerSize ≤ s.slotAddr k :=
  Nat.le_add_right _ _

/-- The header byte that holds the bit of slot `k` lies in the header. -/
theorem Placed.header_byte_lt (hp : s.Placed) {k : Nat} (hk : k < s.maxStore) :
    s.startingAddress + k / 8 < s.startingAddress + s.headerSize := by
  have := hp.bitmap_fits
  omega

theorem slotAddr_lt_slotAddr {j k : Nat} (h : j < k) :
    s.slotAddr j + s.objectSize ≤ s.slotAddr k := by
  have h1 : s.objectSize * (j + 1) ≤ s.objectSize * k := Nat.mul_le_mul_left _ h
  have h2 : s.objectSize * (j + 1) = s.objectSize * j + s.objectSize := by ring
  unfold slotAddr
  omega

theorem Placed.slotAddr_inj (hp : s.Placed) {j k : Nat} (h : s.slotAddr j = s.slotAddr k) :
    j = k := by
  have := hp.object_pos
  rcases Nat.lt_trichotomy j k with hlt | heq | hgt
  · have := slotAddr_lt_slotAddr (s := s) hlt; omega
  · exact heq
  · have := slotAddr_lt_slotAddr (s := s) hgt; omega

theorem Placed.slotAddr_pos (hp : s.Placed) (k : Nat) : 0 < s.slotAddr k := by
  have h1 := hp.bitmap_fits
  have h2 := hp.store_pos
  unfold slotAddr
  omega

/-- The header byte of a slot, at the address the source computes. -/
theorem Placed.headerByte_addr (hp : s.Placed) {k : Nat} (hk : k < s.maxStore) :
    toSize ((s.startingAddress : Int) + (k : Int).tdiv 8) = s.startingAddress + k / 8 := by
  have h1 := hp.header_byte_lt hk
  have h2 := hp.in_space
  have htdiv : (k : Int).tdiv 8 = (k / 8 : Nat) := rfl
  rw [htdiv]
  unfold toSize
  omega

/-- The slots of a placed slab are counted in an `int`. -/
theorem Placed.toInt32_slot (hp : s.Placed) {k : Nat} (hk : k < s.maxStore) :
    toInt32 (k : Int) = (k : Int) := by
  have hsmall := hp.small
  have hms : s.maxStore ≤ s.objectSize * s.maxStore := Nat.le_mul_of_pos_left _ hp.object_pos
  exact toInt32_of_range (by omega) (by omega)

/-! ## The operations on a placed slab -/

/-- `slab_get_header_bit` on a slot of the slab reads the slot's bit. -/
theorem Placed.getHeaderBit (hp : s.Placed) (m : Mem) {k : Nat} (hk : k < s.maxStore) :
    slabGetHeaderBit s m (k : Int) = .ok (if s.used m k then 1 else 0) := by
  have htmod : (k : Int).tmod 8 = (k % 8 : Nat) := rfl
  have hmask := and_one_shiftLeft_ne_zero (m (s.startingAddress + k / 8)) (k % 8) (by omega)
  simp only [slabGetHeaderBit, htmod, hp.headerByte_addr hk, Int.toNat_natCast]
  rw [if_neg (by omega)]
  by_cases hbit : s.used m k = true
  · rw [if_pos (hmask.mpr hbit), if_pos hbit]
  · rw [if_neg (fun hne => hbit (hmask.mp hne)), if_neg hbit]

/-- `slab_set_header_bit` on a slot of the slab is `setBit`. -/
theorem Placed.setHeaderBit (hp : s.Placed) (m : Mem) {k : Nat} (hk : k < s.maxStore)
    (v : Bool) : slabSetHeaderBit s m (k : Int) v = .ok (setBit m s.startingAddress k v) := by
  have htmod : (k : Int).tmod 8 = (k % 8 : Nat) := rfl
  simp only [slabSetHeaderBit, htmod, hp.headerByte_addr hk, Int.toNat_natCast]
  rw [if_neg (by omega)]
  rfl

/-- The scan from `count` down finds the highest free slot at or below it. -/
theorem Placed.nextSlotLoop (hp : s.Placed) (m : Mem) : ∀ (count : Nat), count < s.maxStore →
    (∃ k, k ≤ count ∧ s.used m k = false) →
    ∃ k, k ≤ count ∧ s.used m k = false ∧ (∀ j, k < j → j ≤ count → s.used m j = true) ∧
      slabNextSlotLoop s m count = .ok k := by
  intro count
  induction count with
  | zero =>
    intro hc hfree
    obtain ⟨k, hk, hbit⟩ := hfree
    obtain rfl : k = 0 := by omega
    refine ⟨0, by omega, hbit, fun j h1 h2 => by omega, ?_⟩
    have hget := hp.getHeaderBit m hc
    rw [hbit] at hget
    simp only [slabNextSlotLoop]
    rw [show slabGetHeaderBit s m 0 = .ok 0 from hget]
    rfl
  | succ count ih =>
    intro hc hfree
    have hint := hp.toInt32_slot hc
    have hget := hp.getHeaderBit m hc
    simp only [slabNextSlotLoop]
    rw [hint, hget]
    by_cases hbit : s.used m (count + 1) = true
    · -- in use: the free slot is further down
      obtain ⟨k, hk, hkb⟩ := hfree
      have hk' : k ≤ count := by
        rcases Nat.lt_or_ge count k with h | h
        · obtain rfl : k = count + 1 := by omega
          rw [hkb] at hbit; exact absurd hbit (by decide)
        · exact h
      obtain ⟨r, hr, hrb, hmax, hres⟩ := ih (by omega) ⟨k, hk', hkb⟩
      refine ⟨r, by omega, hrb, fun j h1 h2 => ?_, ?_⟩
      · rcases Nat.lt_or_ge count j with h | h
        · obtain rfl : j = count + 1 := by omega
          exact hbit
        · exact hmax j h1 h
      · rw [if_pos hbit]
        exact hres
    · refine ⟨count + 1, Nat.le_refl _, Bool.eq_false_iff.mpr hbit, fun j h1 h2 => by omega, ?_⟩
      rw [if_neg hbit]
      rfl

/-- **`slab_allocate`** on a slab with a free slot returns the highest free slot and sets its
    bit; nothing else changes. -/
theorem Placed.allocate (hp : s.Placed) (m : Mem)
    (hfree : ∃ k, k < s.maxStore ∧ s.used m k = false) :
    ∃ k, k < s.maxStore ∧ s.used m k = false ∧
      (∀ j, k < j → j < s.maxStore → s.used m j = true) ∧
      slabAllocate s m = .ok (s.slotAddr k, setBit m s.startingAddress k true) := by
  have hpos := hp.store_pos
  have hsmall := hp.small
  have hspace := hp.in_space
  have hms : s.maxStore ≤ s.objectSize * s.maxStore := Nat.le_mul_of_pos_left _ hp.object_pos
  have hcount : toSize ((s.maxStore : Int) - 1) = s.maxStore - 1 := by
    unfold toSize; omega
  obtain ⟨k0, hk0, hb0⟩ := hfree
  obtain ⟨k, hk, hbit, hmax, hres⟩ :=
    hp.nextSlotLoop m (s.maxStore - 1) (by omega) ⟨k0, by omega, hb0⟩
  have hklt : k < s.maxStore := by omega
  have hend := slot_end_le hklt
  refine ⟨k, hklt, hbit, fun j h1 h2 => hmax j h1 (by omega), ?_⟩
  have hint := hp.toInt32_slot hklt
  have hpos32 : ((s.headerSize : Int) + s.objectSize * (k : Int)) % 4294967296
      = ((s.headerSize + s.objectSize * k : Nat) : Int) := by
    have hcast : (s.objectSize : Int) * (k : Int) = ((s.objectSize * k : Nat) : Int) := by
      push_cast; rfl
    unfold slotAddr at hend
    rw [hcast]
    omega
  have haddr : toSize ((s.startingAddress : Int) + ((s.headerSize + s.objectSize * k : Nat) : Int))
      = s.slotAddr k := by
    have := hp.object_pos
    unfold slotAddr at hend ⊢
    unfold toSize; omega
  have hne : ¬ (k : Int) = -1 := fun h => absurd (h ▸ Int.natCast_nonneg k) (by decide)
  rw [slabAllocate, slabGetNextSlot, hcount, hres, ok_bind, hint, if_neg hne,
    hp.setHeaderBit m hklt true, ok_bind, hpos32]
  simp only [haddr]
  rfl

/-- The scan of slots that are all in use runs past slot 0 into the negative shift. -/
theorem Placed.nextSlotLoop_full (hp : s.Placed) (m : Mem) : ∀ (count : Nat), count < s.maxStore →
    (∀ k, k ≤ count → s.used m k = true) → slabNextSlotLoop s m count = .error .negativeShift := by
  intro count
  induction count with
  | zero =>
    intro hc hfull
    have hget := hp.getHeaderBit m hc
    rw [if_pos (hfull 0 (Nat.le_refl 0))] at hget
    simp only [slabNextSlotLoop]
    rw [show slabGetHeaderBit s m 0 = .ok 1 from hget]
    rfl
  | succ count ih =>
    intro hc hfull
    have hint := hp.toInt32_slot hc
    have hget := hp.getHeaderBit m hc
    rw [if_pos (hfull _ (Nat.le_refl _))] at hget
    simp only [slabNextSlotLoop]
    rw [hint, hget]
    exact ih (by omega) (fun k hk => hfull k (by omega))

/-- The number of free slots. -/
def freeSlots (s : Slab) (m : Mem) : Nat :=
  ((Finset.range s.maxStore).filter fun k => s.used m k = false).card

/-- The count of free slots depends on the header only. -/
theorem freeSlots_congr (s : Slab) {m m' : Mem}
    (h : ∀ k, k < s.maxStore → s.used m' k = s.used m k) : s.freeSlots m' = s.freeSlots m := by
  refine congrArg Finset.card (Finset.filter_congr fun k hk => ?_)
  rw [h k (Finset.mem_range.mp hk)]

theorem freeSlots_of_clear (s : Slab) {m : Mem} (h : ∀ k, k < s.maxStore → s.used m k = false) :
    s.freeSlots m = s.maxStore := by
  rw [freeSlots, Finset.filter_true_of_mem (fun k hk => h k (Finset.mem_range.mp hk)),
    Finset.card_range]

theorem freeSlots_pos_iff (s : Slab) (m : Mem) :
    0 < s.freeSlots m ↔ ∃ k, k < s.maxStore ∧ s.used m k = false := by
  simp only [freeSlots, Finset.card_pos, Finset.Nonempty, Finset.mem_filter, Finset.mem_range]

/-- **`slab_allocate`**, whatever the state of the slab: with no free slot it leaves defined
    behaviour, and otherwise it takes a free slot. -/
theorem Placed.allocate_cases (hp : s.Placed) (m : Mem) :
    (s.freeSlots m = 0 ∧ slabAllocate s m = .error .negativeShift) ∨
    ∃ k, k < s.maxStore ∧ s.used m k = false ∧
      slabAllocate s m = .ok (s.slotAddr k, setBit m s.startingAddress k true) ∧
      s.freeSlots m = s.freeSlots (setBit m s.startingAddress k true) + 1 := by
  by_cases hfree : ∃ k, k < s.maxStore ∧ s.used m k = false
  · obtain ⟨k, hk, hbit, -, hres⟩ := hp.allocate m hfree
    refine Or.inr ⟨k, hk, hbit, hres, ?_⟩
    refine card_filter_flip (i := k) (k := 1) (by omega) ?_ ?_ ?_
    · intro j h1 h2
      obtain rfl : j = k := by omega
      exact hbit
    · intro j h1 h2
      obtain rfl : j = k := by omega
      rw [used, bitAt_setBit_same]
      decide
    · intro j _ hj
      rw [used, bitAt_setBit_ne (by omega)]
      rfl
  · refine Or.inl ⟨?_, ?_⟩
    · exact Nat.eq_zero_of_not_pos (fun h => hfree ((freeSlots_pos_iff s m).mp h))
    · have hpos := hp.store_pos
      have hsmall := hp.small
      have hms : s.maxStore ≤ s.objectSize * s.maxStore := Nat.le_mul_of_pos_left _ hp.object_pos
      have hcount : toSize ((s.maxStore : Int) - 1) = s.maxStore - 1 := by
        unfold toSize; omega
      have hfull := hp.nextSlotLoop_full m (s.maxStore - 1) (by omega) (fun k hk => by
        by_contra hb
        exact hfree ⟨k, by omega, Bool.eq_false_iff.mpr hb⟩)
      rw [slabAllocate, slabGetNextSlot, hcount, hfull]
      rfl

/-- The subtraction loop divides: from a multiple of the object size it counts the slot. -/
theorem freeLoop_mul {objectSize : Nat} (ho : 1 ≤ objectSize) : ∀ (k room slot : Nat),
    k ≤ room → slabFreeLoop objectSize room (objectSize * k) slot = .ok (0, slot + k) := by
  intro k
  induction k with
  | zero =>
    intro room slot _
    cases room with
    | zero => rw [slabFreeLoop, if_neg (by omega)]; rfl
    | succ r => rw [slabFreeLoop, if_neg (by omega)]; rfl
  | succ k ih =>
    intro room slot h
    obtain ⟨room, rfl⟩ : ∃ n, room = n + 1 := Nat.exists_eq_add_one.mpr (by omega)
    have hmul : objectSize * (k + 1) = objectSize * k + objectSize := by ring
    rw [slabFreeLoop, if_pos (by omega), show objectSize * (k + 1) - objectSize = objectSize * k by
      omega, ih room (slot + 1) (by omega)]
    rw [show slot + 1 + k = slot + (k + 1) by omega]

/-- **`slab_free`** of a slot's address clears the slot's bit and returns 1 if it was set, and
    returns 0 otherwise. -/
theorem Placed.free (hp : s.Placed) (m : Mem) {k : Nat} (hk : k < s.maxStore) :
    slabFree s m (s.slotAddr k)
      = .ok (if s.used m k then (1, setBit m s.startingAddress k false) else (0, m)) := by
  have hsmall := hp.small
  have hspace := hp.in_space
  have hms : s.maxStore ≤ s.objectSize * s.maxStore := Nat.le_mul_of_pos_left _ hp.object_pos
  have hend := slot_end_le hk
  have hoff : toSize ((s.slotAddr k : Int) - s.startingAddress - s.headerSize)
      = s.objectSize * k := by
    unfold slotAddr at hend ⊢
    unfold toSize; omega
  have hloop := freeLoop_mul hp.object_pos k 2147483647 0 (by omega)
  rw [slabFree, hoff, hloop, ok_bind, Nat.zero_add]
  simp only [ne_eq, not_true_eq_false, if_false, hp.getHeaderBit m hk, ok_bind,
    hp.setHeaderBit m hk false]
  by_cases hbit : s.used m k = true
  · simp only [if_pos hbit]; rfl
  · simp only [if_neg hbit]; rfl

end Slab

end TinyKernel
