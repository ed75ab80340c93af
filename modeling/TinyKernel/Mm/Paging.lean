/-
  Translation tables, `kernel/mm/paging.c`, and the hardware's reading of them.

  The source side is transcribed on raw memory: a table is 512 little-endian 64-bit entries, a
  pointer to the next table is recovered by masking an entry, new tables come from a slab.  The
  recursion of `paging_insert_or_alloc` goes from level 1 to level 3; the model recurses on the
  number of levels BELOW the current one, which is the same recursion read from the other end.

  The hardware side is the ARMv8 walk with 4 KiB granule and 39-bit addresses (three levels):
  `armFormat` says how a descriptor is read, `Radix.walk` descends, and `translate` turns the leaf
  into an output address and its access bits.  It does not mention any constant of the source.

  The last part proves that the two sides agree on descriptors: an entry made by one of the
  constructors is read by the hardware as what it was made for.
-/
import TinyKernel.Lib.Radix
import TinyKernel.Alloc.Slab

namespace TinyKernel

/-! ## The entry constructors -/

def pagingL012Valid : Word := 1 <<< 0
def pagingL012Table : Word := 1 <<< 1
def pagingL1BlockAddressMask : Word := 0x3ffff <<< 30
def pagingL2BlockAddressMask : Word := 0x7ffffff <<< 21
def pagingL012TableAddressMask : Word := 0xfffffffff <<< 12
def pagingL3Valid : Word := 0b11 <<< 0
def pagingL3AddressMask : Word := 0xfffffffff <<< 12
def pagingAp2 : Word := 1 <<< 7
def pagingAp1 : Word := 1 <<< 6
def pagingAf : Word := 1 <<< 10

/-- `PAGING_ENTRIES_PER_TABLE`. -/
def pagingEntriesPerTable : Nat := 512

/-- `if (flag) entry |= bits`. -/
def orIf (flag : Bool) (bits entry : Word) : Word := if flag then entry ||| bits else entry

/-- `paging_l012_create_entry_block`. -/
def pagingL012CreateEntryBlock (blockAddress : Word) (level : Int)
    (unprivilegedAccess readOnly : Bool) : Word :=
  if level ≤ 0 ∨ 2 < level then 0
  else
    let entry := pagingL012Valid
    let entry := orIf unprivilegedAccess pagingAp1 entry
    let entry := orIf readOnly pagingAp2 entry
    let entry :=
      if level = 1 then entry ||| (blockAddress &&& pagingL1BlockAddressMask)
      else if level = 2 then entry ||| (blockAddress &&& pagingL2BlockAddressMask)
      else entry
    entry ||| pagingAf

/-- `paging_l012_create_entry_table`. -/
def pagingL012CreateEntryTable (tableAddress : Word) : Word :=
  (pagingL012Valid ||| pagingL012Table) ||| (tableAddress &&& pagingL012TableAddressMask)

/-- `paging_l3_create_entry_block`. -/
def pagingL3CreateEntryBlock (blockAddress : Word) (unprivilegedAccess readOnly : Bool) : Word :=
  let entry := pagingL3Valid
  let entry := entry ||| (blockAddress &&& pagingL3AddressMask)
  let entry := orIf unprivilegedAccess pagingAp1 entry
  let entry := orIf readOnly pagingAp2 entry
  entry ||| pagingAf

/-- `paging_create_entry_invalid`. -/
def pagingCreateEntryInvalid : Word := 0

/-! ## The operations -/

/-- `struct paging_manager`. -/
structure PagingManager where
  l1 : Nat
  pagesAllocator : Slab
  deriving Repr, DecidableEq

/-- `for (i = 0; i < PAGING_ENTRIES_PER_TABLE; i++) table->block[i] = 0`, the loop that both
    `paging_manager_init` and `paging_allocate_table` run on a new table. -/
def pagingClearTable (table : Nat) (m : Mem) : Mem :=
  memsetBig table pagingCreateEntryInvalid pagingEntriesPerTable m

/-- `paging_manager_init`. -/
def pagingManagerInit (pagesAllocator : Slab) (m : Mem) : Except Fault (PagingManager × Mem) := do
  let (l1, m) ← slabAllocate pagesAllocator m
  return (⟨l1, pagesAllocator⟩, pagingClearTable l1 m)

/-- `paging_manager_map_1gb`.  The table index is an `int`. -/
def pagingManagerMap1gb (pm : PagingManager) (va : Nat) (pa : Word)
    (unprivilegedAccess readOnly : Bool) (m : Mem) : Mem :=
  let gbOffset := toInt32 (va / 0x40000000 : Nat)
  store64 m (toSize (pm.l1 + 8 * gbOffset))
    (pagingL012CreateEntryBlock pa 1 unprivilegedAccess readOnly)

/-- `paging_manager_map_kernel`. -/
def pagingManagerMapKernel (pm : PagingManager) (m : Mem) : Mem :=
  let m := pagingManagerMap1gb pm 0x0 0x0 false false m
  pagingManagerMap1gb pm 0x40000000 0x40000000 false false m

/-- `paging_split_address`: the three table indices and the offset in the page. -/
def pagingSplitAddress (address : Nat) : Nat × Nat × Nat × Nat :=
  let l1 := address / 0x40000000
  let address := address % 0x40000000
  let l2 := address / 0x200000
  let address := address % 0x200000
  let l3 := address / 0x1000
  (l1, l2, l3, address % 0x1000)

/-- `paging_allocate_table`. -/
def pagingAllocateTable (pm : PagingManager) (m : Mem) : Except Fault (Nat × Mem) := do
  let (allocated, m) ← slabAllocate pm.pagesAllocator m
  return (allocated, pagingClearTable allocated m)

/-- The body of `paging_insert_or_alloc` at a level with `below` levels under it: level 3 has
    none, level 2 has one, level 1 has two. -/
def pagingInsertBelow (pm : PagingManager) (va : Nat) (pa : Word)
    (unprivilegedAccess readOnly : Bool) : Nat → Nat → Mem → Except Fault (Int × Mem)
  | 0, pageTableStore, m =>
    let (_, _, l3Offset, _) := pagingSplitAddress va
    let oldValue := load64 m (pageTableStore + 8 * l3Offset)
    let newValue := pagingL3CreateEntryBlock pa unprivilegedAccess readOnly
    if oldValue = newValue then .ok (0, m)
    else if oldValue &&& 0b1 = 1 then .ok (-1, m)
    else .ok (0, store64 m (pageTableStore + 8 * l3Offset) newValue)
  | below + 1, pageTableStore, m =>
    let (l1Offset, l2Offset, _, _) := pagingSplitAddress va
    -- `level == 1`
    let offset := if below = 1 then l1Offset else l2Offset
    let oldValue := load64 m (pageTableStore + 8 * offset)
    if oldValue &&& 0b11 = 0b01 then .ok (-1, m)
    else if oldValue &&& 0b1 = 0 then do
      let (pts, m) ← pagingAllocateTable pm m
      let newValue := pagingL012CreateEntryTable (BitVec.ofNat 64 pts)
      let m := store64 m (pageTableStore + 8 * offset) newValue
      pagingInsertBelow pm va pa unprivilegedAccess readOnly below pts m
    else
      let pts := (oldValue &&& pagingL012TableAddressMask).toNat
      pagingInsertBelow pm va pa unprivilegedAccess readOnly below pts m

/-- `paging_insert_or_alloc`. -/
def pagingInsertOrAlloc (pm : PagingManager) (pageTableStore : Nat) (level : Int) (va : Nat)
    (pa : Word) (unprivilegedAccess readOnly : Bool) (m : Mem) : Except Fault (Int × Mem) :=
  if level < 1 then .ok (-1, m)
  else pagingInsertBelow pm va pa unprivilegedAccess readOnly (3 - level).toNat pageTableStore m

/-- `paging_manager_map_page`, without the TLB maintenance after a success. -/
def pagingManagerMapPage (pm : PagingManager) (va : Nat) (pa : Word)
    (unprivilegedAccess readOnly : Bool) (m : Mem) : Except Fault (Int × Mem) :=
  pagingInsertOrAlloc pm pm.l1 1 va pa unprivilegedAccess readOnly m

/-! ## The hardware walk -/

/-- How the hardware reads a descriptor: bit 0 is valid, bit 1 tells a table from a block (and
    must be set in a page descriptor), bits 47..12 are the address of the next table. -/
def armFormat : Radix.Format Nat Word where
  inner d :=
    if d.getLsbD 0 = false then .invalid
    else if d.getLsbD 1 = false then .block
    else .next (d.toNat % 2 ^ 48 / 2 ^ 12 * 2 ^ 12)
  last d := d.getLsbD 0 && d.getLsbD 1
  occupied d := d.getLsbD 0
  occupied_of_last := fun _ h => (Bool.and_eq_true _ _ ▸ h).1

/-- The entries of the tables in memory. -/
def tableView (m : Mem) (table : Nat) (k : Fin 512) : Word := load64 m (table + 8 * k.val)

/-- The index of `va` in the table that has `below` levels under it. -/
def vaIndex (va below : Nat) : Fin 512 := ⟨va / 2 ^ (12 + 9 * below) % 512, Nat.mod_lt _ (by decide)⟩

/-- The indices of `va` from the table with `below` levels under it down to the page. -/
def vaPath (va : Nat) : Nat → List (Fin 512)
  | 0 => [vaIndex va 0]
  | below + 1 => vaIndex va (below + 1) :: vaPath va below

/-- The leaf descriptor of `va` in the tree at `l1`, with the number of levels it skips. -/
def leaf (m : Mem) (l1 va : Nat) : Option (Nat × Word) :=
  Radix.walk armFormat (tableView m) l1 (vaPath va 2)

/-- What a walk that finds a leaf yields. -/
structure Translation where
  pa : Nat
  /-- AP[1]: accessible from EL0. -/
  ap1 : Bool
  /-- AP[2]: read-only. -/
  ap2 : Bool
  deriving Repr, DecidableEq

/-- The translation by a leaf that skips `skip` levels, and so covers `12 + 9 * skip` bits. -/
def leafTranslation (va : Nat) (skip : Nat) (d : Word) : Translation where
  pa := d.toNat % 2 ^ 48 / 2 ^ (12 + 9 * skip) * 2 ^ (12 + 9 * skip) + va % 2 ^ (12 + 9 * skip)
  ap1 := d.getLsbD 6
  ap2 := d.getLsbD 7

/-- **The walk** of `va` in the tree at `l1`: a translation, or a fault. -/
def translate (m : Mem) (l1 va : Nat) : Option Translation :=
  if va < 2 ^ 39 then (leaf m l1 va).map fun d => leafTranslation va d.1 d.2 else none

/-! ## Descriptors made by the source, read by the hardware -/

/-- A masked address field, as arithmetic. -/
theorem and_field_toNat (d : Word) (lo len : Nat) (h : lo + len ≤ 64) :
    (d &&& (BitVec.ofNat 64 (2 ^ len - 1) <<< lo)).toNat
      = d.toNat % 2 ^ (lo + len) / 2 ^ lo * 2 ^ lo := by
  apply Nat.eq_of_testBit_eq
  intro i
  rw [Nat.testBit_mul_two_pow, Nat.testBit_div_two_pow, Nat.testBit_mod_two_pow,
    BitVec.testBit_toNat, BitVec.testBit_toNat, BitVec.getLsbD_and, BitVec.getLsbD_shiftLeft,
    BitVec.getLsbD_ofNat, Nat.testBit_two_pow_sub_one]
  by_cases hlo : lo ≤ i
  · rw [Nat.sub_add_cancel hlo]
    by_cases hi : i < lo + len
    · have h1 : i < 64 := by omega
      have h2 : i - lo < 64 := by omega
      have h3 : i - lo < len := by omega
      have h4 : ¬ i < lo := by omega
      simp [hlo, hi, h1, h2, h3, h4]
    · have h3 : ¬ i - lo < len := by omega
      simp [hi, h3]
  · have h4 : i < lo := by omega
    simp [hlo, h4]

/-- The bits that the source and the hardware test, as arithmetic. -/
theorem getLsbD_zero_eq (d : Word) : d.getLsbD 0 = decide (d.toNat % 2 = 1) := by
  rw [← BitVec.testBit_toNat, Nat.testBit_zero]

theorem getLsbD_one_eq (d : Word) : d.getLsbD 1 = decide (d.toNat / 2 % 2 = 1) := by
  rw [← BitVec.testBit_toNat, Nat.testBit_succ, Nat.testBit_zero]

theorem and_one_eq_zero_iff (d : Word) : d &&& 0b1 = 0 ↔ d.getLsbD 0 = false := by
  have hand : (d &&& 0b1).toNat = d.toNat % 2 := by
    rw [BitVec.toNat_and]
    exact Nat.and_two_pow_sub_one_eq_mod d.toNat 1
  rw [getLsbD_zero_eq, ← BitVec.toNat_inj, hand, decide_eq_false_iff_not]
  show _ = 0 ↔ _
  omega

theorem and_one_eq_one_iff (d : Word) : d &&& 0b1 = 1 ↔ d.getLsbD 0 = true := by
  have hand : (d &&& 0b1).toNat = d.toNat % 2 := by
    rw [BitVec.toNat_and]
    exact Nat.and_two_pow_sub_one_eq_mod d.toNat 1
  rw [getLsbD_zero_eq, ← BitVec.toNat_inj, hand, decide_eq_true_iff]
  exact Iff.rfl

theorem and_three_eq_one_iff (d : Word) :
    d &&& 0b11 = 0b01 ↔ d.getLsbD 0 = true ∧ d.getLsbD 1 = false := by
  have hand : (d &&& 0b11).toNat = d.toNat % 4 := by
    rw [BitVec.toNat_and]
    exact Nat.and_two_pow_sub_one_eq_mod d.toNat 2
  rw [getLsbD_zero_eq, getLsbD_one_eq, ← BitVec.toNat_inj, hand, decide_eq_true_iff,
    decide_eq_false_iff_not]
  show _ = 1 ↔ _
  omega

/-- The pointer that the source recovers from an entry is the one the hardware follows. -/
theorem and_tableAddressMask_toNat (d : Word) :
    (d &&& pagingL012TableAddressMask).toNat = d.toNat % 2 ^ 48 / 2 ^ 12 * 2 ^ 12 :=
  and_field_toNat d 12 36 (by decide)

theorem getLsbD_orIf (flag : Bool) (bits entry : Word) (i : Nat) :
    (orIf flag bits entry).getLsbD i = (entry.getLsbD i || (flag && bits.getLsbD i)) := by
  cases flag <;> simp [orIf]

/-- A flag outside a mask does not show under it. -/
theorem orIf_and {flag : Bool} {bits entry mask : Word} (h : bits &&& mask = 0#64) :
    orIf flag bits entry &&& mask = entry &&& mask := by
  cases flag with
  | false => rfl
  | true =>
    show (entry ||| bits) &&& mask = _
    rw [BitVec.and_or_distrib_right, h, BitVec.or_zero]

/-- The three ways the hardware reads an entry above the last level, as the source tests it. -/
theorem armFormat_inner_invalid {d : Word} (h : d &&& 0b1 = 0) :
    armFormat.inner d = .invalid := by
  simp only [armFormat, (and_one_eq_zero_iff d).mp h, if_true]

theorem armFormat_inner_block {d : Word} (h : d &&& 0b11 = 0b01) :
    armFormat.inner d = .block := by
  obtain ⟨h0, h1⟩ := (and_three_eq_one_iff d).mp h
  simp only [armFormat, h0, h1]
  rfl

theorem armFormat_inner_next {d : Word} (hb : ¬ d &&& 0b11 = 0b01) (hi : ¬ d &&& 0b1 = 0) :
    armFormat.inner d = .next (d &&& pagingL012TableAddressMask).toNat := by
  have h0 : d.getLsbD 0 = true := by
    cases h : d.getLsbD 0 with
    | false => exact absurd ((and_one_eq_zero_iff d).mpr h) hi
    | true => rfl
  have h1 : d.getLsbD 1 = true := by
    cases h : d.getLsbD 1 with
    | false => exact absurd ((and_three_eq_one_iff d).mpr ⟨h0, h⟩) hb
    | true => rfl
  rw [and_tableAddressMask_toNat]
  simp only [armFormat, h0, h1]
  rfl

/-- A table entry leads to the table it was made for. -/
theorem armFormat_inner_tableEntry {table : Nat} (halign : table % 4096 = 0)
    (hlt : table < 2 ^ 48) :
    armFormat.inner (pagingL012CreateEntryTable (BitVec.ofNat 64 table)) = .next table := by
  have hfield : pagingL012CreateEntryTable (BitVec.ofNat 64 table) &&& pagingL012TableAddressMask
      = BitVec.ofNat 64 table &&& pagingL012TableAddressMask := by
    rw [pagingL012CreateEntryTable, BitVec.and_or_distrib_right, BitVec.and_assoc,
      BitVec.and_self, show (pagingL012Valid ||| pagingL012Table) &&& pagingL012TableAddressMask = 0#64
        by decide, BitVec.zero_or]
  have hbits : ∀ i, i < 2 →
      (pagingL012CreateEntryTable (BitVec.ofNat 64 table)).getLsbD i = true := by
    intro i hi
    rw [pagingL012CreateEntryTable, BitVec.getLsbD_or]
    obtain rfl | rfl : i = 0 ∨ i = 1 := by omega
    · rw [show (pagingL012Valid ||| pagingL012Table).getLsbD 0 = true by decide, Bool.true_or]
    · rw [show (pagingL012Valid ||| pagingL012Table).getLsbD 1 = true by decide, Bool.true_or]
  have hto : (BitVec.ofNat 64 table &&& pagingL012TableAddressMask).toNat = table := by
    rw [and_tableAddressMask_toNat, BitVec.toNat_ofNat, Nat.mod_eq_of_lt (by omega)]
    omega
  rw [armFormat_inner_next, hfield, hto]
  · rw [and_three_eq_one_iff, hbits 1 (by decide)]
    simp
  · rw [and_one_eq_zero_iff, hbits 0 (by decide)]
    simp

/-- A page entry, bit by bit. -/
theorem getLsbD_pageEntry (pa : Word) (u ro : Bool) (i : Nat) :
    (pagingL3CreateEntryBlock pa u ro).getLsbD i =
      ((((pagingL3Valid.getLsbD i || (pa.getLsbD i && pagingL3AddressMask.getLsbD i)) ||
        (u && pagingAp1.getLsbD i)) || (ro && pagingAp2.getLsbD i)) || pagingAf.getLsbD i) := by
  simp only [pagingL3CreateEntryBlock, BitVec.getLsbD_or, getLsbD_orIf, BitVec.getLsbD_and]

/-- A page entry is a leaf of the last level. -/
theorem armFormat_last_pageEntry (pa : Word) (u ro : Bool) :
    armFormat.last (pagingL3CreateEntryBlock pa u ro) = true := by
  have hbits : ∀ i, pagingL3Valid.getLsbD i = true →
      (pagingL3CreateEntryBlock pa u ro).getLsbD i = true := by
    intro i hi
    rw [getLsbD_pageEntry, hi]
    simp
  show (_ && _) = true
  rw [hbits 0 (by decide), hbits 1 (by decide)]
  rfl

/-- **A page entry translates as it was asked to**: to its frame, with its two access bits. -/
theorem leafTranslation_pageEntry (va : Nat) (pa : Word) (u ro : Bool) :
    leafTranslation va 0 (pagingL3CreateEntryBlock pa u ro)
      = ⟨pa.toNat % 2 ^ 48 / 2 ^ 12 * 2 ^ 12 + va % 2 ^ 12, u, ro⟩ := by
  have hfield : pagingL3CreateEntryBlock pa u ro &&& pagingL012TableAddressMask
      = pa &&& pagingL012TableAddressMask := by
    simp only [pagingL3CreateEntryBlock]
    rw [BitVec.and_or_distrib_right, orIf_and (by decide), orIf_and (by decide),
      BitVec.and_or_distrib_right, BitVec.and_assoc,
      show pagingL3AddressMask &&& pagingL012TableAddressMask = pagingL012TableAddressMask by decide,
      show pagingL3Valid &&& pagingL012TableAddressMask = 0#64 by decide,
      show pagingAf &&& pagingL012TableAddressMask = 0#64 by decide, BitVec.zero_or,
      BitVec.or_zero]
  have hpa := and_tableAddressMask_toNat (pagingL3CreateEntryBlock pa u ro)
  rw [hfield, and_tableAddressMask_toNat] at hpa
  simp only [leafTranslation, Nat.mul_zero, Nat.add_zero, ← hpa, getLsbD_pageEntry]
  congr 1
  · rw [show pagingL3Valid.getLsbD 6 = false by decide,
      show pagingL3AddressMask.getLsbD 6 = false by decide,
      show pagingAp1.getLsbD 6 = true by decide, show pagingAp2.getLsbD 6 = false by decide,
      show pagingAf.getLsbD 6 = false by decide]
    simp
  · rw [show pagingL3Valid.getLsbD 7 = false by decide,
      show pagingL3AddressMask.getLsbD 7 = false by decide,
      show pagingAp1.getLsbD 7 = false by decide, show pagingAp2.getLsbD 7 = true by decide,
      show pagingAf.getLsbD 7 = false by decide]
    simp

/-- A level-1 block entry, opened up. -/
theorem blockEntry_eq (pa : Word) (u ro : Bool) :
    pagingL012CreateEntryBlock pa 1 u ro
      = (orIf ro pagingAp2 (orIf u pagingAp1 pagingL012Valid) |||
          (pa &&& pagingL1BlockAddressMask)) ||| pagingAf := rfl

theorem getLsbD_blockEntry (pa : Word) (u ro : Bool) (i : Nat) :
    (pagingL012CreateEntryBlock pa 1 u ro).getLsbD i =
      ((((pagingL012Valid.getLsbD i || (u && pagingAp1.getLsbD i)) ||
        (ro && pagingAp2.getLsbD i)) || (pa.getLsbD i && pagingL1BlockAddressMask.getLsbD i)) ||
        pagingAf.getLsbD i) := by
  rw [blockEntry_eq]
  simp only [BitVec.getLsbD_or, getLsbD_orIf, BitVec.getLsbD_and]

/-- A level-1 block entry is a block. -/
theorem armFormat_inner_blockEntry (pa : Word) (u ro : Bool) :
    armFormat.inner (pagingL012CreateEntryBlock pa 1 u ro) = .block := by
  refine armFormat_inner_block ((and_three_eq_one_iff _).mpr ⟨?_, ?_⟩)
  · rw [getLsbD_blockEntry, show pagingL012Valid.getLsbD 0 = true by decide]
    simp
  · rw [getLsbD_blockEntry, show pagingL012Valid.getLsbD 1 = false by decide,
      show pagingAp1.getLsbD 1 = false by decide, show pagingAp2.getLsbD 1 = false by decide,
      show pagingL1BlockAddressMask.getLsbD 1 = false by decide,
      show pagingAf.getLsbD 1 = false by decide]
    simp

/-- **A level-1 block entry translates as it was asked to.** -/
theorem leafTranslation_blockEntry (va : Nat) (pa : Word) (u ro : Bool) :
    leafTranslation va 2 (pagingL012CreateEntryBlock pa 1 u ro)
      = ⟨pa.toNat % 2 ^ 48 / 2 ^ 30 * 2 ^ 30 + va % 2 ^ 30, u, ro⟩ := by
  have hfield : pagingL012CreateEntryBlock pa 1 u ro &&& pagingL1BlockAddressMask
      = pa &&& pagingL1BlockAddressMask := by
    rw [blockEntry_eq, BitVec.and_or_distrib_right, BitVec.and_or_distrib_right,
      orIf_and (by decide), orIf_and (by decide), BitVec.and_assoc, BitVec.and_self,
      show pagingL012Valid &&& pagingL1BlockAddressMask = 0#64 by decide,
      show pagingAf &&& pagingL1BlockAddressMask = 0#64 by decide, BitVec.zero_or,
      BitVec.or_zero]
  have hmask : ∀ d : Word, (d &&& pagingL1BlockAddressMask).toNat
      = d.toNat % 2 ^ 48 / 2 ^ 30 * 2 ^ 30 := fun d =>
    and_field_toNat d 30 18 (by decide)
  have hpa := hmask (pagingL012CreateEntryBlock pa 1 u ro)
  rw [hfield, hmask] at hpa
  simp only [leafTranslation, getLsbD_blockEntry]
  rw [show 12 + 9 * 2 = 30 from rfl, ← hpa]
  congr 1
  · rw [show pagingL012Valid.getLsbD 6 = false by decide,
      show pagingL1BlockAddressMask.getLsbD 6 = false by decide,
      show pagingAp1.getLsbD 6 = true by decide, show pagingAp2.getLsbD 6 = false by decide,
      show pagingAf.getLsbD 6 = false by decide]
    simp
  · rw [show pagingL012Valid.getLsbD 7 = false by decide,
      show pagingL1BlockAddressMask.getLsbD 7 = false by decide,
      show pagingAp1.getLsbD 7 = false by decide, show pagingAp2.getLsbD 7 = true by decide,
      show pagingAf.getLsbD 7 = false by decide]
    simp

end TinyKernel
