/-
  Translation tables over whole runs.

  `pagingMachine` runs any number of paging managers that draw their tables from one slab:
  managers are created by `paging_manager_init`, mapped by `paging_manager_map_1gb` and
  `paging_manager_map_page`, and everything outside the slab's zone may change at any time.

  The invariant `PagingInv` is the ownership discipline of `Lib.Radix` together with where the
  tables are: every owned table is a slot of the slab that is marked used.  From it:

  * a store to one table changes no other table and no header bit (`tableView_store_other`);
  * a freshly allocated table is owned by nobody, because its slot was not marked used;
  * `paging_insert_or_alloc` performs a `Radix.Insert` (`insertBelow_spec`), so its effect on
    every translation is `Radix.Insert.effect`.

  The trees are trees only by this discipline.  A table is 512 words in memory, and an entry points to
  the next table by its address; nothing in the format keeps two entries from pointing to the same
  table, or a table from being given out twice.  `Radix.Role` says for every table whose it is and at
  which path, and the invariant says that memory agrees with it.  Then a walk from a root stays in the
  tables of that root, and a store to one table is seen by the walks through it and by no other.

  Mapping a page goes down through up to three levels, and at each it either finds a table or takes one
  from the slab and clears it.  The effect does not depend on where it had to begin
  (`insertBelow_spec`, an induction on the levels): the leaf at the address is the new one, and every
  other leaf of every tree is what it was.  If the slab runs out halfway the call faults, and the tables
  that it had already linked in are empty, so the leaves are still what they were.
-/
import TinyKernel.Lib.Machine
import TinyKernel.Mm.Paging

namespace TinyKernel

/-- A slab that translation tables can be taken from: page-sized, page-aligned objects below
    `2^48`, so that an entry can hold the address of each. -/
structure TableSlab (s : Slab) : Prop extends Slab.Placed s where
  object_size : s.objectSize = 4096
  aligned : (s.startingAddress + s.headerSize) % 4096 = 0
  below : s.startingAddress + s.headerSize + 4096 * s.maxStore ≤ 2 ^ 48

/-- The bytes of the slab: its header and its objects. -/
def Slab.InZone (s : Slab) (x : Nat) : Prop :=
  s.startingAddress ≤ x ∧ x < s.startingAddress + (s.headerSize + s.objectSize * s.maxStore)

/-- Every owned table is a slot in use. -/
def TablesUsed (s : Slab) (m : Mem) (role : Radix.Role Nat (Fin 512)) : Prop :=
  ∀ t x, role t = some x → ∃ k, k < s.maxStore ∧ t = s.slotAddr k ∧ s.used m k = true

/-- The tables in memory form owned trees whose tables are slots in use. -/
structure PagingInv (s : Slab) (m : Mem) (role : Radix.Role Nat (Fin 512)) : Prop where
  used : TablesUsed s m role
  owned : Radix.Owned armFormat 3 (tableView m) role

variable {s : Slab} {m m' : Mem} {role : Radix.Role Nat (Fin 512)}

/-! ## Tables in memory -/

/-- A table depends on its 4096 bytes only. -/
theorem tableView_congr {t : Nat} (h : ∀ i, i < 4096 → m' (t + i) = m (t + i)) (k : Fin 512) :
    tableView m' t k = tableView m t k := by
  have hk := k.isLt
  refine load64_congr fun i hi => ?_
  rw [Nat.add_assoc]
  exact h (8 * k.val + i) (by omega)

/-- The entry that was stored. -/
theorem tableView_store_same (t : Nat) (k : Fin 512) (v : Word) :
    tableView (store64 m (t + 8 * k.val) v) t k = v :=
  load64_store64_same ..

/-- Slots of a table slab that are different do not overlap. -/
theorem TableSlab.apart (hs : TableSlab s) {a b : Nat} (h : s.slotAddr a ≠ s.slotAddr b) :
    s.slotAddr a + 4096 ≤ s.slotAddr b ∨ s.slotAddr b + 4096 ≤ s.slotAddr a := by
  have ho := hs.object_size
  rcases Nat.lt_trichotomy a b with hlt | rfl | hgt
  · have := Slab.slotAddr_lt_slotAddr (s := s) hlt
    omega
  · exact absurd rfl h
  · have := Slab.slotAddr_lt_slotAddr (s := s) hgt
    omega

/-- A store to an entry changes no other entry of a table of the slab. -/
theorem tableView_store_other (hs : TableSlab s) {a b : Nat} {k j : Fin 512} {v : Word}
    (h : s.slotAddr b = s.slotAddr a → j ≠ k) :
    tableView (store64 m (s.slotAddr a + 8 * k.val) v) (s.slotAddr b) j
      = tableView m (s.slotAddr b) j := by
  have hk := k.isLt
  have hj := j.isLt
  refine load64_store64_disjoint ?_
  by_cases hab : s.slotAddr b = s.slotAddr a
  · have hne : j.val ≠ k.val := fun he => h hab (Fin.ext he)
    omega
  · have := hs.apart hab
    omega

/-- A store to a slot leaves the header alone. -/
theorem used_store (hs : TableSlab s) {a j : Nat} {k : Fin 512} {v : Word}
    (hj : j < s.maxStore) :
    s.used (store64 m (s.slotAddr a + 8 * k.val) v) j = s.used m j := by
  have h1 := hs.header_byte_lt hj
  have h2 := Slab.header_le_slotAddr (s := s) a
  exact bitAt_congr (store64_of_disjoint (by omega))

/-- A store to a slot stays in the zone. -/
theorem store_outside (hs : TableSlab s) {a x : Nat} {k : Fin 512} {v : Word}
    (ha : a < s.maxStore) (hx : ¬ s.InZone x) :
    store64 m (s.slotAddr a + 8 * k.val) v x = m x := by
  have hk := k.isLt
  have ho := hs.object_size
  have h1 := Slab.slot_end_le (s := s) ha
  have h2 := Slab.header_le_slotAddr (s := s) a
  refine store64_of_disjoint ?_
  unfold Slab.InZone at hx
  omega

/-! ## Allocating a table -/

/-- `m'` is `m` after slot `k` was taken and cleared. -/
structure TableAllocated (s : Slab) (m : Mem) (k : Nat) (m' : Mem) : Prop where
  lt : k < s.maxStore
  free : s.used m k = false
  used_self : s.used m' k = true
  used_other : ∀ j, j < s.maxStore → j ≠ k → s.used m' j = s.used m j
  cleared : ∀ i, i < 4096 → m' (s.slotAddr k + i) = 0
  frame : ∀ j, j < s.maxStore → j ≠ k → ∀ i, i < 4096 → m' (s.slotAddr j + i) = m (s.slotAddr j + i)
  outside : ∀ x, ¬ s.InZone x → m' x = m x
  count : s.freeSlots m = s.freeSlots m' + 1

/-- A clear of a slot, byte by byte. -/
theorem pagingClearTable_apply (t x : Nat) (m : Mem) :
    pagingClearTable t m x = if t ≤ x ∧ x < t + 4096 then 0 else m x :=
  memsetBig_zero_apply t m 512 x

/-- `slab_allocate` followed by the clearing loop. -/
theorem tableAllocated (hs : TableSlab s) {k : Nat} (hk : k < s.maxStore)
    (hfree : s.used m k = false)
    (hcount : s.freeSlots m = s.freeSlots (setBit m s.startingAddress k true) + 1) :
    TableAllocated s m k
      (pagingClearTable (s.slotAddr k) (setBit m s.startingAddress k true)) := by
  have ho := hs.object_size
  have hzone := Slab.slot_end_le (s := s) hk
  have hhead := Slab.header_le_slotAddr (s := s) k
  have hbyte := hs.header_byte_lt hk
  -- the header is not cleared with the slot
  have hused : ∀ j, j < s.maxStore →
      s.used (pagingClearTable (s.slotAddr k) (setBit m s.startingAddress k true)) j
        = s.used (setBit m s.startingAddress k true) j := by
    intro j hj
    have := hs.header_byte_lt hj
    refine bitAt_congr ?_
    rw [pagingClearTable_apply, if_neg (by omega)]
  refine ⟨hk, hfree, ?_, ?_, ?_, ?_, ?_, ?_⟩
  · rw [hused k hk]
    exact bitAt_setBit_same ..
  · intro j hj hne
    rw [hused j hj]
    exact bitAt_setBit_ne hne
  · intro i hi
    rw [pagingClearTable_apply, if_pos (by omega)]
  · intro j hj hne i hi
    have hapart := hs.apart (fun h => hne (hs.slotAddr_inj h))
    have hjhead := Slab.header_le_slotAddr (s := s) j
    rw [pagingClearTable_apply, if_neg (by omega), setBit_of_ne (by omega)]
  · intro x hx
    unfold Slab.InZone at hx
    rw [pagingClearTable_apply, if_neg (by omega), setBit_of_ne (by omega)]
  · rw [hcount, s.freeSlots_congr hused]

/-- `paging_allocate_table` fails exactly when the slab is full. -/
theorem pagingAllocateTable_cases (hs : TableSlab s) {pm : PagingManager}
    (hpm : pm.pagesAllocator = s) (m : Mem) :
    (s.freeSlots m = 0 ∧ pagingAllocateTable pm m = .error .negativeShift) ∨
    ∃ k m', pagingAllocateTable pm m = .ok (s.slotAddr k, m') ∧ TableAllocated s m k m' := by
  rcases hs.allocate_cases m with ⟨hzero, herr⟩ | ⟨k, hk, hfree, hres, hcount⟩
  · refine Or.inl ⟨hzero, ?_⟩
    rw [pagingAllocateTable, hpm, herr]
    rfl
  · refine Or.inr ⟨k, _, ?_, tableAllocated hs hk hfree hcount⟩
    rw [pagingAllocateTable, hpm, hres]
    rfl

/-- `paging_manager_init` fails exactly when the slab is full. -/
theorem pagingManagerInit_cases (hs : TableSlab s) (m : Mem) :
    (s.freeSlots m = 0 ∧ pagingManagerInit s m = .error .negativeShift) ∨
    ∃ k m', pagingManagerInit s m = .ok (⟨s.slotAddr k, s⟩, m') ∧ TableAllocated s m k m' := by
  rcases hs.allocate_cases m with ⟨hzero, herr⟩ | ⟨k, hk, hfree, hres, hcount⟩
  · refine Or.inl ⟨hzero, ?_⟩
    rw [pagingManagerInit, herr]
    rfl
  · refine Or.inr ⟨k, _, ?_, tableAllocated hs hk hfree hcount⟩
    rw [pagingManagerInit, hres]
    rfl

namespace TableAllocated

variable {k : Nat}

/-- The slot that was taken was nobody's table. -/
theorem fresh (hs : TableSlab s) (ha : TableAllocated s m k m') (hu : TablesUsed s m role) :
    role (s.slotAddr k) = none := by
  cases hr : role (s.slotAddr k) with
  | none => rfl
  | some x =>
    obtain ⟨j, -, haddr, hused⟩ := hu _ x hr
    rw [← hs.slotAddr_inj haddr, ha.free] at hused
    exact absurd hused (by decide)

/-- The tables that were owned before keep their entries. -/
theorem view (hs : TableSlab s) (ha : TableAllocated s m k m') (hu : TablesUsed s m role)
    {t : Nat} (ht : (role t).isSome) (j : Fin 512) : tableView m' t j = tableView m t j := by
  obtain ⟨x, hx⟩ := Option.isSome_iff_exists.mp ht
  obtain ⟨a, halt, rfl, -⟩ := hu t x hx
  have hne : a ≠ k := by
    rintro rfl
    rw [ha.fresh hs hu] at hx
    exact absurd hx (by simp)
  exact tableView_congr (ha.frame a halt hne) j

/-- The new table is blank. -/
theorem blank (ha : TableAllocated s m k m') :
    Radix.Blank armFormat (tableView m') (s.slotAddr k) := by
  intro j
  have hzero : tableView m' (s.slotAddr k) j = 0 := by
    have hj := j.isLt
    refine load64_eq_zero fun i hi => ?_
    rw [Nat.add_assoc]
    exact ha.cleared _ (by omega)
  rw [hzero]
  exact ⟨rfl, rfl⟩

/-- With the new table assigned, the owned tables are slots in use. -/
theorem tablesUsed (ha : TableAllocated s m k m') (hu : TablesUsed s m role) (r : Nat)
    (p : List (Fin 512)) : TablesUsed s m' (Radix.assign role (s.slotAddr k) r p) := by
  intro t x ht
  rcases Radix.assign_cases ht with ⟨rfl, -⟩ | ⟨hne, ht⟩
  · exact ⟨k, ha.lt, rfl, ha.used_self⟩
  · obtain ⟨a, halt, rfl, hused⟩ := hu t x ht
    refine ⟨a, halt, rfl, ?_⟩
    rw [ha.used_other a halt (fun h => hne (by rw [h])), hused]

end TableAllocated

/-! ## `paging_insert_or_alloc` is an insertion -/

/-- The index the source uses above the last level is the index of the walk. -/
theorem vaIndex_inner {va below : Nat} (hva : va < 2 ^ 39) (hb : below ≤ 1) :
    (if below = 1 then (pagingSplitAddress va).1 else (pagingSplitAddress va).2.1)
      = (vaIndex va (below + 1)).val := by
  obtain rfl | rfl : below = 0 ∨ below = 1 := by omega
  · show va % 0x40000000 / 0x200000 = va / 2 ^ 21 % 512
    omega
  · show va / 0x40000000 = va / 2 ^ 30 % 512
    omega

/-- The index in the last table. -/
theorem vaIndex_last (va : Nat) : (pagingSplitAddress va).2.2.1 = (vaIndex va 0).val := by
  show va % 0x40000000 % 0x200000 / 0x1000 = va / 2 ^ 12 % 512
  omega

/-- One index for each level. -/
theorem vaPath_length (va : Nat) : ∀ below, (vaPath va below).length = below + 1 := by
  intro below
  induction below with
  | zero => rfl
  | succ below ih => rw [vaPath, List.length_cons, ih]

/-- The first index, and the way below it. -/
theorem vaPath_cons (va below : Nat) : ∃ ks, vaPath va below = vaIndex va below :: ks ∧
    ks.length = below := by
  cases below with
  | zero => exact ⟨[], rfl, rfl⟩
  | succ b => exact ⟨vaPath va b, rfl, vaPath_length va b⟩

/-- What a call of `paging_insert_or_alloc` that returns has done. -/
structure Inserted (s : Slab) (new : Word) (r : Nat) (m : Mem) (role : Radix.Role Nat (Fin 512))
    (t : Nat) (p ks : List (Fin 512)) (res : Int) (m' : Mem)
    (role' : Radix.Role Nat (Fin 512)) : Prop where
  insert : Radix.Insert armFormat new r role (tableView m) t p ks (decide (res = 0)) role'
    (tableView m')
  used : TablesUsed s m' role'
  outside : ∀ x, ¬ s.InZone x → m' x = m x
  count : s.freeSlots m = s.freeSlots m' + Radix.missing armFormat (tableView m) t ks
  refused : res ≠ 0 → m' = m

/-- The last level: an entry for the page. -/
theorem insertBelow_last (hs : TableSlab s) (pm : PagingManager) (va : Nat) (pa : Word)
    (u ro : Bool) {r t : Nat} {p : List (Fin 512)} (hi : PagingInv s m role)
    (ht : role t = some (r, p)) :
    ∃ res m', pagingInsertBelow pm va pa u ro 0 t m = .ok (res, m') ∧
      Inserted s (pagingL3CreateEntryBlock pa u ro) r m role t p (vaPath va 0) res m' role := by
  obtain ⟨a, halt, rfl, hused⟩ := hi.used t _ ht
  simp only [pagingInsertBelow]
  rw [vaIndex_last]
  by_cases hsame : load64 m (s.slotAddr a + 8 * (vaIndex va 0).val)
      = pagingL3CreateEntryBlock pa u ro
  · rw [if_pos hsame]
    exact ⟨0, m, rfl, .same hsame, hi.used, fun _ _ => rfl, rfl, fun _ => rfl⟩
  rw [if_neg hsame]
  by_cases hfull : load64 m (s.slotAddr a + 8 * (vaIndex va 0).val) &&& 0b1 = 1
  · rw [if_pos hfull]
    exact ⟨-1, m, rfl, .full hsame ((and_one_eq_one_iff _).mp hfull), hi.used, fun _ _ => rfl,
      rfl, fun _ => rfl⟩
  · rw [if_neg hfull]
    refine ⟨0, _, rfl, ?_, ?_, fun x hx => store_outside hs halt hx, ?_, fun h => absurd rfl h⟩
    · refine .put ?_ (tableView_store_same ..) ?_
      · exact Bool.eq_false_iff.mpr (fun h => hfull ((and_one_eq_one_iff _).mpr h))
      · intro v hv j hj
        obtain ⟨x, hx⟩ := Option.isSome_iff_exists.mp hv
        obtain ⟨b, -, rfl, -⟩ := hi.used v x hx
        exact tableView_store_other hs hj
    · intro v x hv
      obtain ⟨b, hb, rfl, hbu⟩ := hi.used v x hv
      exact ⟨b, hb, rfl, by rw [used_store hs hb, hbu]⟩
    · exact (s.freeSlots_congr fun j hj => used_store hs hj).symm

/-- The state after a new table was allocated and hooked in at entry `k` of table `t`. -/
theorem PagingInv.grow (hs : TableSlab s) (hi : PagingInv s m role) {r t a : Nat}
    {p : List (Fin 512)} {k : Fin 512} {m₁ : Mem} (ht : role t = some (r, p))
    (hp : p.length + 1 < 3) (ha : TableAllocated s m a m₁) {m₂ : Mem}
    (hm₂ : m₂ = store64 m₁ (t + 8 * k.val)
      (pagingL012CreateEntryTable (BitVec.ofNat 64 (s.slotAddr a)))) :
    Radix.Blank armFormat (tableView m₂) (s.slotAddr a) ∧
    armFormat.inner (tableView m₂ t k) = .next (s.slotAddr a) ∧
    Radix.AgreeExcept role (tableView m) (tableView m₂) t k ∧
    PagingInv s m₂ (Radix.assign role (s.slotAddr a) r (p ++ [k])) ∧
    s.freeSlots m = s.freeSlots m₂ + 1 ∧ ∀ x, ¬ s.InZone x → m₂ x = m x := by
  have hfresh := ha.fresh hs hi.used
  obtain ⟨b, hb, hbt, hbu⟩ := hi.used t _ ht
  have hta : s.slotAddr a ≠ t := by
    rintro rfl
    rw [hfresh] at ht
    exact absurd ht (by simp)
  have hend := Slab.slot_end_le (s := s) ha.lt
  have ho := hs.object_size
  have hbelow := hs.below
  have halign : s.slotAddr a % 4096 = 0 := by
    have := hs.aligned
    unfold Slab.slotAddr
    rw [ho]
    omega
  rw [hbt] at hm₂ hta
  subst hbt hm₂
  have hblank : Radix.Blank armFormat (tableView (store64 m₁ (s.slotAddr b + 8 * k.val)
      (pagingL012CreateEntryTable (BitVec.ofNat 64 (s.slotAddr a))))) (s.slotAddr a) := by
    intro j
    rw [tableView_store_other hs (fun h => absurd h hta)]
    exact ha.blank j
  have hnext : armFormat.inner (tableView (store64 m₁ (s.slotAddr b + 8 * k.val)
      (pagingL012CreateEntryTable (BitVec.ofNat 64 (s.slotAddr a)))) (s.slotAddr b) k)
      = .next (s.slotAddr a) := by
    rw [tableView_store_same]
    rw [ho] at hend
    exact armFormat_inner_tableEntry halign (by omega)
  have hagree : Radix.AgreeExcept role (tableView m) (tableView (store64 m₁
      (s.slotAddr b + 8 * k.val) (pagingL012CreateEntryTable (BitVec.ofNat 64 (s.slotAddr a)))))
      (s.slotAddr b) k := by
    intro v hv j hj
    obtain ⟨x, hx⟩ := Option.isSome_iff_exists.mp hv
    obtain ⟨c, -, rfl, -⟩ := hi.used v x hx
    rw [tableView_store_other hs hj]
    exact ha.view hs hi.used hv j
  refine ⟨hblank, hnext, hagree, ⟨?_, hi.owned.grow ht hp hfresh hblank hnext hagree⟩, ?_, ?_⟩
  · intro v x hv
    obtain ⟨c, hc, rfl, hcu⟩ := ha.tablesUsed hi.used r (p ++ [k]) v x hv
    exact ⟨c, hc, rfl, by rw [used_store hs hc, hcu]⟩
  · rw [ha.count, s.freeSlots_congr fun j hj => used_store hs hj]
  · intro x hx
    rw [store_outside hs hb hx, ha.outside x hx]

/-- An insertion below an existing table is one from its parent. -/
theorem Inserted.descend {new : Word} {r t pts : Nat} {p ks : List (Fin 512)} {k k' : Fin 512}
    {res : Int} {role' : Radix.Role Nat (Fin 512)}
    (hinner : armFormat.inner (tableView m t k) = .next pts)
    (h : Inserted s new r m role pts (p ++ [k]) (k' :: ks) res m' role') :
    Inserted s new r m role t p (k :: k' :: ks) res m' role' where
  insert := .next hinner h.insert
  used := h.used
  outside := h.outside
  count := by
    rw [Radix.missing, hinner]
    exact h.count
  refused := h.refused

/-- So is one below a table that was just hooked in; nothing is in its way. -/
theorem Inserted.grown {new : Word} (hnew : armFormat.last new = true) (hs : TableSlab s)
    (hi : PagingInv s m role) {r t a : Nat} {p ks : List (Fin 512)} {k k' : Fin 512} {res : Int}
    {m₁ m₂ : Mem} {role' : Radix.Role Nat (Fin 512)} (ht : role t = some (r, p))
    (hlen : p.length + 1 + (ks.length + 1) = 3) (hinner : armFormat.inner (tableView m t k) = .invalid)
    (ha : TableAllocated s m a m₁)
    (hm₂ : m₂ = store64 m₁ (t + 8 * k.val)
      (pagingL012CreateEntryTable (BitVec.ofNat 64 (s.slotAddr a))))
    (h : Inserted s new r m₂ (Radix.assign role (s.slotAddr a) r (p ++ [k])) (s.slotAddr a)
      (p ++ [k]) (k' :: ks) res m' role') :
    Inserted s new r m role t p (k :: k' :: ks) res m' role' := by
  obtain ⟨hblank, hnext, hagree, hi₂, hcount, hout⟩ := hi.grow hs ht (by omega) ha hm₂
  have hok : res = 0 := by
    have heff := h.insert.effect hnew hi₂.owned (Radix.assign_same ..)
      (by rw [List.length_append, List.length_singleton, List.length_cons]; omega)
    exact of_decide_eq_true (heff.ok_iff.mpr (Or.inl (Radix.walk_blank hblank _)))
  refine ⟨.grow hinner (ha.fresh hs hi.used) hblank hnext hagree h.insert, h.used, fun x hx => ?_,
    ?_, fun hne => absurd hok hne⟩
  · rw [h.outside x hx, hout x hx]
  · rw [hcount, h.count, Radix.missing_blank hblank, Radix.missing, hinner]
    rfl

/-- **`paging_insert_or_alloc` is an insertion**, or it runs out of tables.  The induction is on
    the number of levels below the current one. -/
theorem insertBelow_spec (hs : TableSlab s) {pm : PagingManager} (hpm : pm.pagesAllocator = s)
    {va : Nat} (hva : va < 2 ^ 39) (pa : Word) (u ro : Bool) {r : Nat} :
    ∀ (below t : Nat) (p : List (Fin 512)) (m : Mem) (role : Radix.Role Nat (Fin 512)),
    PagingInv s m role → role t = some (r, p) → p.length + below = 2 →
    (∃ res m' role', pagingInsertBelow pm va pa u ro below t m = .ok (res, m') ∧
      Inserted s (pagingL3CreateEntryBlock pa u ro) r m role t p (vaPath va below) res m' role') ∨
    (pagingInsertBelow pm va pa u ro below t m = .error .negativeShift ∧
      s.freeSlots m < Radix.missing armFormat (tableView m) t (vaPath va below))
  | 0, t, p, m, role, hi, ht, _ => by
    obtain ⟨res, m', hres, hins⟩ := insertBelow_last hs pm va pa u ro hi ht
    exact Or.inl ⟨res, m', role, hres, hins⟩
  | below + 1, t, p, m, role, hi, ht, hp => by
    obtain ⟨ks, hks, hlen⟩ := vaPath_cons va below
    have hnew := armFormat_last_pageEntry pa u ro
    simp only [pagingInsertBelow]
    rw [vaIndex_inner hva (by omega), vaPath]
    generalize hk : vaIndex va (below + 1) = k
    by_cases hblock : load64 m (t + 8 * k.val) &&& 0b11 = 0b01
    · -- a block is in the way
      have hinner : armFormat.inner (tableView m t k) = .block := armFormat_inner_block hblock
      rw [if_pos hblock]
      refine Or.inl ⟨-1, m, role, rfl, ?_, hi.used, fun _ _ => rfl, ?_, fun _ => rfl⟩
      · rw [hks]; exact .block hinner
      · rw [hks, Radix.missing, hinner]
        rfl
    rw [if_neg hblock]
    by_cases hinv : load64 m (t + 8 * k.val) &&& 0b1 = 0
    · -- a table is missing here, and then on every level below
      have hinner : armFormat.inner (tableView m t k) = .invalid := armFormat_inner_invalid hinv
      have hmiss : Radix.missing armFormat (tableView m) t (k :: vaPath va below) = below + 1 := by
        rw [hks, Radix.missing, hinner, hlen]
      rw [if_pos hinv, hmiss]
      rcases pagingAllocateTable_cases hs hpm m with ⟨hzero, herr⟩ | ⟨a, m₁, hres, ha⟩
      · refine Or.inr ⟨?_, by omega⟩
        rw [herr]
        rfl
      rw [hres, ok_bind]
      simp only
      generalize hm₂ : store64 m₁ (t + 8 * k.val)
        (pagingL012CreateEntryTable (BitVec.ofNat 64 (s.slotAddr a))) = m₂
      obtain ⟨hblank, -, -, hi₂, hcount, -⟩ := hi.grow hs ht (by omega) ha hm₂.symm
      have hmiss₂ : Radix.missing armFormat (tableView m₂) (s.slotAddr a) (vaPath va below)
          = below := by
        rw [hks, Radix.missing_blank hblank, hlen]
      have ht₂ := Radix.assign_same role (s.slotAddr a) r (p ++ [k])
      have hp₂ : (p ++ [k]).length + below = 2 := by
        rw [List.length_append, List.length_singleton]; omega
      rcases insertBelow_spec hs hpm hva pa u ro below (s.slotAddr a) (p ++ [k]) m₂ _ hi₂ ht₂ hp₂
        with ⟨res, m', role', hrun, hins⟩ | ⟨hrun, hfew⟩
      · rw [hks] at hins ⊢
        exact Or.inl ⟨res, m', role', hrun,
          hins.grown hnew hs hi ht (by omega) hinner ha hm₂.symm⟩
      · refine Or.inr ⟨hrun, ?_⟩
        omega
    · -- descend
      have hinner := armFormat_inner_next hblock hinv
      rw [if_neg hinv]
      generalize hpts : (load64 m (t + 8 * k.val) &&& pagingL012TableAddressMask).toNat = pts
      rw [hpts] at hinner
      have hmiss : Radix.missing armFormat (tableView m) t (k :: vaPath va below)
          = Radix.missing armFormat (tableView m) pts (vaPath va below) := by
        rw [hks, Radix.missing, show armFormat.inner (tableView m t k) = .next pts from hinner]
      have ht' : role pts = some (r, p ++ [k]) := hi.owned.child t r p k pts ht (by omega) hinner
      have hp' : (p ++ [k]).length + below = 2 := by
        rw [List.length_append, List.length_singleton]; omega
      rw [hmiss]
      rcases insertBelow_spec hs hpm hva pa u ro below pts (p ++ [k]) m role hi ht' hp'
        with ⟨res, m', role', hrun, hins⟩ | ⟨hrun, hfew⟩
      · rw [hks] at hins ⊢
        exact Or.inl ⟨res, m', role', hrun, hins.descend hinner⟩
      · exact Or.inr ⟨hrun, hfew⟩

/-! ## The machine -/

/-- The memory and the managers created so far. -/
structure PagingState where
  mem : Mem
  managers : List PagingManager

/-- What the users of the table slab may do. -/
inductive PagingEvent
  /-- `paging_manager_init` of a new manager. -/
  | init
  /-- `paging_manager_map_1gb`. -/
  | map1gb (pm : PagingManager) (va : Nat) (pa : Word) (unprivilegedAccess readOnly : Bool)
  /-- `paging_manager_map_page`. -/
  | mapPage (pm : PagingManager) (va : Nat) (pa : Word) (unprivilegedAccess readOnly : Bool)
  /-- Anything that happens to memory outside the slab. -/
  | other

/-- One call, on a manager that exists and an address of 39 bits, that returns. -/
def PagingStep (s : Slab) (st : PagingState) : PagingEvent → PagingState → Prop
  | .init, st' => ∃ pm, pagingManagerInit s st.mem = .ok (pm, st'.mem) ∧
      st'.managers = pm :: st.managers
  | .map1gb pm va pa u ro, st' => pm ∈ st.managers ∧ va < 2 ^ 39 ∧
      st'.mem = pagingManagerMap1gb pm va pa u ro st.mem ∧ st'.managers = st.managers
  | .mapPage pm va pa u ro, st' => pm ∈ st.managers ∧ va < 2 ^ 39 ∧
      (∃ res, pagingManagerMapPage pm va pa u ro st.mem = .ok (res, st'.mem)) ∧
      st'.managers = st.managers
  | .other, st' => (∀ x, s.InZone x → st'.mem x = st.mem x) ∧ st'.managers = st.managers

/-- Paging managers over one table slab, from any memory contents on. -/
def pagingMachine (s : Slab) : Machine PagingState PagingEvent where
  start st := st.managers = []
  step := PagingStep s

/-- Every manager's level-1 table is the root of an owned tree. -/
def ManagersOwned (s : Slab) (pms : List PagingManager) (role : Radix.Role Nat (Fin 512)) : Prop :=
  ∀ pm ∈ pms, pm.pagesAllocator = s ∧ role pm.l1 = some (pm.l1, [])

/-- `paging_manager_map_1gb` on a 39-bit address is a store to an entry of the level-1 table. -/
theorem pagingManagerMap1gb_eq (hs : TableSlab s) {pm : PagingManager} {va k : Nat}
    (hva : va < 2 ^ 39) (hk : k < s.maxStore) (hl1 : pm.l1 = s.slotAddr k) (pa : Word)
    (u ro : Bool) (m : Mem) :
    pagingManagerMap1gb pm va pa u ro m = store64 m (pm.l1 + 8 * (vaIndex va 2).val)
      (pagingL012CreateEntryBlock pa 1 u ro) := by
  have hend := Slab.slot_end_le (s := s) hk
  have ho := hs.object_size
  have hbelow := hs.below
  rw [ho] at hend
  have hval : va / 0x40000000 = (vaIndex va 2).val := by
    show _ = va / 2 ^ 30 % 512
    omega
  have hlt := (vaIndex va 2).isLt
  simp only [pagingManagerMap1gb]
  rw [hval]
  generalize (vaIndex va 2).val = i at hlt ⊢
  have hspace : pm.l1 + 8 * i < 18446744073709551616 := by omega
  have haddr : toSize ((pm.l1 : Int) + 8 * (i : Int)) = pm.l1 + 8 * i := by
    have hcast : (pm.l1 : Int) + 8 * (i : Int) = ((pm.l1 + 8 * i : Nat) : Int) := by omega
    rw [hcast, toSize_natCast hspace]
  rw [toInt32_of_range (by omega) (by omega), haddr]

/-- `paging_manager_map_page` starts the recursion at level 1. -/
theorem pagingManagerMapPage_eq (pm : PagingManager) (va : Nat) (pa : Word) (u ro : Bool)
    (m : Mem) :
    pagingManagerMapPage pm va pa u ro m = pagingInsertBelow pm va pa u ro 2 pm.l1 m := rfl

namespace PagingInv

/-- Creating a manager. -/
theorem init (hs : TableSlab s) (hi : PagingInv s m role) {k : Nat}
    (ha : TableAllocated s m k m') :
    PagingInv s m' (Radix.assign role (s.slotAddr k) (s.slotAddr k) []) where
  used := ha.tablesUsed hi.used _ _
  owned := hi.owned.root (ha.fresh hs hi.used) ha.blank (fun _ ht j => ha.view hs hi.used ht j)

/-- `paging_manager_map_1gb` writes one entry of the level-1 table. -/
theorem view_map1gb (hs : TableSlab s) (hi : PagingInv s m role) {pm : PagingManager}
    (hroot : role pm.l1 = some (pm.l1, [])) {va : Nat} (hva : va < 2 ^ 39) (pa : Word)
    (u ro : Bool) :
    tableView (pagingManagerMap1gb pm va pa u ro m) pm.l1 (vaIndex va 2)
      = pagingL012CreateEntryBlock pa 1 u ro ∧
    Radix.AgreeExcept role (tableView m) (tableView (pagingManagerMap1gb pm va pa u ro m)) pm.l1
      (vaIndex va 2) := by
  obtain ⟨k, hk, hl1, -⟩ := hi.used _ _ hroot
  rw [pagingManagerMap1gb_eq hs hva hk hl1]
  refine ⟨tableView_store_same .., ?_⟩
  intro t ht j hj
  obtain ⟨x, hx⟩ := Option.isSome_iff_exists.mp ht
  obtain ⟨a, -, rfl, -⟩ := hi.used t x hx
  rw [hl1] at hj ⊢
  exact tableView_store_other hs hj

/-- A block of 1 GiB is one store to the root, so memory outside of the slab is as before, .. -/
theorem map1gb_outside (hs : TableSlab s) (hi : PagingInv s m role) {pm : PagingManager}
    (hroot : role pm.l1 = some (pm.l1, [])) {va : Nat} (hva : va < 2 ^ 39) (pa : Word)
    (u ro : Bool) {x : Nat} (hx : ¬ s.InZone x) :
    pagingManagerMap1gb pm va pa u ro m x = m x := by
  obtain ⟨k, hk, hl1, -⟩ := hi.used _ _ hroot
  rw [pagingManagerMap1gb_eq hs hva hk hl1, hl1]
  exact store_outside hs hk hx

/-- .. and so are its header bits. -/
theorem map1gb_used (hs : TableSlab s) (hi : PagingInv s m role) {pm : PagingManager}
    (hroot : role pm.l1 = some (pm.l1, [])) {va : Nat} (hva : va < 2 ^ 39) (pa : Word)
    (u ro : Bool) {j : Nat} (hj : j < s.maxStore) :
    s.used (pagingManagerMap1gb pm va pa u ro m) j = s.used m j := by
  obtain ⟨k, hk, hl1, -⟩ := hi.used _ _ hroot
  rw [pagingManagerMap1gb_eq hs hva hk hl1, hl1]
  exact used_store hs hj

/-- Mapping a block of 1 GiB, over whatever the entry held. -/
theorem map1gb (hs : TableSlab s) (hi : PagingInv s m role) {pm : PagingManager}
    (hroot : role pm.l1 = some (pm.l1, [])) {v : Nat} (hva : v < 2 ^ 39) (pa : Word)
    (u ro : Bool) : PagingInv s (pagingManagerMap1gb pm v pa u ro m) role := by
  obtain ⟨hblock, hagree⟩ := hi.view_map1gb hs hroot hva pa u ro
  refine ⟨?_, hi.owned.cut hroot (by decide) ?_ hagree⟩
  · intro t x ht
    obtain ⟨j, hj, rfl, hused⟩ := hi.used t x ht
    exact ⟨j, hj, rfl, by rw [hi.map1gb_used hs hroot hva pa u ro hj, hused]⟩
  · intro t'
    rw [hblock, armFormat_inner_blockEntry]
    simp

/-- The owned tables lie in the zone of the slab. -/
theorem view_other (hs : TableSlab s) (hi : PagingInv s m role)
    (h : ∀ x, s.InZone x → m' x = m x) {t : Nat} (ht : (role t).isSome) (j : Fin 512) :
    tableView m' t j = tableView m t j := by
  obtain ⟨x, hx⟩ := Option.isSome_iff_exists.mp ht
  obtain ⟨k, hk, rfl, -⟩ := hi.used t x hx
  have hend := Slab.slot_end_le (s := s) hk
  have hhead := Slab.header_le_slotAddr (s := s) k
  have ho := hs.object_size
  refine tableView_congr (fun i hi => h _ ?_) j
  unfold Slab.InZone
  omega

/-- Changes outside the slab. -/
theorem other (hs : TableSlab s) (hi : PagingInv s m role)
    (h : ∀ x, s.InZone x → m' x = m x) : PagingInv s m' role := by
  have hview : ∀ t, (role t).isSome → ∀ j, tableView m' t j = tableView m t j :=
    fun t ht j => hi.view_other hs h ht j
  refine ⟨?_, ⟨?_, ?_⟩⟩
  · intro t x ht
    obtain ⟨k, hk, rfl, hused⟩ := hi.used t x ht
    have hbyte := hs.header_byte_lt hk
    refine ⟨k, hk, rfl, ?_⟩
    rw [← hused]
    refine bitAt_congr (h _ ?_)
    unfold Slab.InZone
    omega
  · intro t r p k t' ht
    rw [hview t (by rw [ht]; rfl)]
    exact hi.owned.child t r p k t' ht
  · intro t r p k ht
    rw [hview t (by rw [ht]; rfl)]
    exact hi.owned.clean t r p k ht

/-- Mapping a page. -/
theorem mapPage (hi : PagingInv s m role) {pm : PagingManager}
    (hroot : role pm.l1 = some (pm.l1, [])) {va : Nat} {pa : Word} {u ro : Bool} {res : Int}
    {role' : Radix.Role Nat (Fin 512)}
    (hins : Inserted s (pagingL3CreateEntryBlock pa u ro) pm.l1 m role pm.l1 [] (vaPath va 2)
      res m' role') :
    Radix.Effect armFormat 3 (pagingL3CreateEntryBlock pa u ro) pm.l1 role (tableView m) pm.l1 []
      (vaPath va 2) (decide (res = 0)) role' (tableView m') ∧ PagingInv s m' role' := by
  have heff := hins.insert.effect (armFormat_last_pageEntry pa u ro) hi.owned hroot rfl
  exact ⟨heff, hins.used, heff.owned⟩

end PagingInv

/-! ## Leaves after each operation -/

/-- Owned tables that keep their entries keep the leaves of every tree. -/
theorem PagingInv.leaf_congr (hi : PagingInv s m role) {r : Nat} (hroot : role r = some (r, []))
    (h : ∀ t, (role t).isSome → ∀ j, tableView m' t j = tableView m t j) (va : Nat) :
    leaf m' r va = leaf m r va :=
  Radix.walk_congr hi.owned (vaPath va 2) r [] hroot rfl
    (fun t q ht _ j => h t (by rw [ht]; rfl) j)

/-- A new tree has no leaves. -/
theorem TableAllocated.leaf_new {k : Nat} (ha : TableAllocated s m k m') (va : Nat) :
    leaf m' (s.slotAddr k) va = none :=
  Radix.walk_blank ha.blank _

/-- A block of 1 GiB is the leaf of the addresses under its entry, and of no others. -/
theorem PagingInv.leaf_map1gb (hs : TableSlab s) (hi : PagingInv s m role) {pm : PagingManager}
    (hroot : role pm.l1 = some (pm.l1, [])) {va : Nat} (hva : va < 2 ^ 39) (pa : Word)
    (u ro : Bool) (va' : Nat) :
    leaf (pagingManagerMap1gb pm va pa u ro m) pm.l1 va'
      = if vaIndex va' 2 = vaIndex va 2 then some (2, pagingL012CreateEntryBlock pa 1 u ro)
        else leaf m pm.l1 va' := by
  obtain ⟨hblock, hagree⟩ := hi.view_map1gb hs hroot hva pa u ro
  simp only [leaf, vaPath]
  by_cases hidx : vaIndex va' 2 = vaIndex va 2
  · rw [if_pos hidx, hidx, ← hblock]
    have hinner := armFormat_inner_blockEntry pa u ro
    rw [← hblock] at hinner
    exact Radix.walk_block hinner
  · rw [if_neg hidx]
    have hentry := hagree pm.l1 (by rw [hroot]; rfl) (vaIndex va' 2) (fun _ => hidx)
    refine Radix.walk_cons_congr hi.owned hroot (by simp) hentry ?_
    intro t q ht hq j
    have hne : t ≠ pm.l1 := by
      refine Radix.ne_of_length_ne hroot ht ?_
      have := hq.length_le
      simp only [List.nil_append, List.length_cons, List.length_nil] at this ⊢
      omega
    exact hagree t (by rw [ht]; rfl) j (absurd · hne)

/-- Other trees do not see it. -/
theorem PagingInv.leaf_map1gb_other (hs : TableSlab s) (hi : PagingInv s m role)
    {pm : PagingManager} (hroot : role pm.l1 = some (pm.l1, [])) {va : Nat} (hva : va < 2 ^ 39)
    (pa : Word) (u ro : Bool) {r : Nat} (hr : role r = some (r, [])) (hne : r ≠ pm.l1)
    (va' : Nat) : leaf (pagingManagerMap1gb pm va pa u ro m) r va' = leaf m r va' := by
  obtain ⟨-, hagree⟩ := hi.view_map1gb hs hroot hva pa u ro
  refine Radix.walk_congr hi.owned (vaPath va' 2) r [] hr rfl ?_
  intro t q ht _ j
  refine hagree t (by rw [ht]; rfl) j ?_
  rintro rfl
  exact absurd (Prod.mk.inj (Option.some.inj (hroot.symm.trans ht))).1.symm hne

/-- In every reachable state the tables form owned trees, rooted at the managers. -/
theorem pagingMachine_inv (hs : TableSlab s) {st : PagingState}
    (hr : (pagingMachine s).Reach st) :
    ∃ role, PagingInv s st.mem role ∧ ManagersOwned s st.managers role := by
  refine hr.invariant (I := fun st => ∃ role, PagingInv s st.mem role ∧
    ManagersOwned s st.managers role) ?_ ?_
  · intro st h0
    refine ⟨fun _ => none, ⟨fun _ _ h => absurd h (by simp), ⟨?_, ?_⟩⟩, ?_⟩
    · exact fun _ _ _ _ _ h => absurd h (by simp)
    · exact fun _ _ _ _ h => absurd h (by simp)
    · rw [show st.managers = [] from h0]
      exact fun _ h => absurd h List.not_mem_nil
  · rintro ⟨m, pms⟩ e ⟨m', pms'⟩ ⟨role, hi, hman⟩ hstep
    cases e with
    | init =>
      obtain ⟨pm, hcall, hpms⟩ := hstep
      rcases pagingManagerInit_cases hs m with ⟨-, herr⟩ | ⟨k, m₁, hres, ha⟩
      · exact absurd (herr.symm.trans hcall) (by simp)
      · obtain ⟨rfl, rfl⟩ := Prod.mk.inj (Except.ok.inj (hres.symm.trans hcall))
        refine ⟨_, hi.init hs ha, ?_⟩
        rw [show pms' = _ from hpms]
        refine List.forall_mem_cons.mpr ⟨⟨rfl, Radix.assign_same ..⟩, fun pm hm => ?_⟩
        exact ⟨(hman pm hm).1, Radix.assign_of_some (ha.fresh hs hi.used) (hman pm hm).2⟩
    | map1gb pm va pa u ro =>
      obtain ⟨hpm, hva, hmem, hpms⟩ := hstep
      refine ⟨role, ?_, ?_⟩
      · rw [show m' = _ from hmem]
        exact hi.map1gb hs (hman pm hpm).2 hva pa u ro
      · rw [show pms' = pms from hpms]
        exact hman
    | mapPage pm va pa u ro =>
      obtain ⟨hpm, hva, ⟨res, hcall⟩, hpms⟩ := hstep
      rw [pagingManagerMapPage_eq] at hcall
      rcases insertBelow_spec hs (hman pm hpm).1 hva pa u ro 2 pm.l1 [] m role hi (hman pm hpm).2
        rfl with ⟨res', m₁, role', hrun, hins⟩ | ⟨hrun, -⟩
      · obtain ⟨rfl, rfl⟩ := Prod.mk.inj (Except.ok.inj (hrun.symm.trans hcall))
        obtain ⟨heff, hi'⟩ := hi.mapPage (hman pm hpm).2 hins
        refine ⟨role', hi', ?_⟩
        rw [show pms' = pms from hpms]
        exact fun pm' hm => ⟨(hman pm' hm).1, heff.keeps _ _ (hman pm' hm).2⟩
      · exact absurd (hrun.symm.trans hcall) (by simp)
    | other =>
      obtain ⟨hmem, hpms⟩ := hstep
      refine ⟨role, hi.other hs hmem, ?_⟩
      rw [show pms' = pms from hpms]
      exact hman

/-! ## Translations -/

/-- Two addresses of 39 bits have the same path exactly when they lie in the same page. -/
theorem vaPath_eq_iff {v w : Nat} (h : v < 2 ^ 39) (h' : w < 2 ^ 39) :
    vaPath w 2 = vaPath v 2 ↔ w / 4096 = v / 4096 := by
  simp only [vaPath, vaIndex, List.cons.injEq, Fin.mk.injEq, and_true]
  show w / 2 ^ 30 % 512 = v / 2 ^ 30 % 512 ∧ w / 2 ^ 21 % 512 = v / 2 ^ 21 % 512 ∧
    w / 2 ^ 12 % 512 = v / 2 ^ 12 % 512 ↔ _
  omega

/-- An address without a leaf has no translation. -/
theorem translate_eq_none_iff {l1 va : Nat} (h : va < 2 ^ 39) :
    translate m l1 va = none ↔ leaf m l1 va = none := by
  rw [translate, if_pos h, Option.map_eq_none_iff]

/-- What `paging_manager_map_page` did to the translations of its manager `pm`, one of `pms`. -/
structure MapPageEffect (pms : List PagingManager) (pm : PagingManager) (va : Nat) (pa : Word)
    (unprivilegedAccess readOnly : Bool) (m : Mem) (res : Int) (m' : Mem) : Prop where
  /-- On success every address of the page translates to its place in the frame. -/
  mapped : res = 0 → ∀ va', va' / 4096 = va / 4096 → translate m' pm.l1 va'
    = some ⟨pa.toNat / 4096 * 4096 + va' % 4096, unprivilegedAccess, readOnly⟩
  /-- On success no address of another page changes its translation. -/
  kept : res = 0 → ∀ va', va' / 4096 ≠ va / 4096 →
    translate m' pm.l1 va' = translate m pm.l1 va'
  /-- No other manager's translations change. -/
  others : ∀ pm' ∈ pms, pm'.l1 ≠ pm.l1 → ∀ va', translate m' pm'.l1 va' = translate m pm'.l1 va'
  /-- A refusal changes nothing at all. -/
  refused : res ≠ 0 → m' = m
  /-- Success is exactly: not mapped yet, or mapped by this very entry. -/
  success_iff : res = 0 ↔ translate m pm.l1 va = none ∨
    leaf m pm.l1 va = some (0, pagingL3CreateEntryBlock pa unprivilegedAccess readOnly)

/-- The effect on translations, from the effect on walks. -/
theorem mapPageEffect {pms : List PagingManager} {pm : PagingManager} {va : Nat} {pa : Word}
    {u ro : Bool} {res : Int} {role' : Radix.Role Nat (Fin 512)} (hi : PagingInv s m role)
    (hman : ManagersOwned s pms role) (hva : va < 2 ^ 39) (hpa : pa.toNat < 2 ^ 48)
    (hrefused : res ≠ 0 → m' = m)
    (heff : Radix.Effect armFormat 3 (pagingL3CreateEntryBlock pa u ro) pm.l1 role (tableView m)
      pm.l1 [] (vaPath va 2) (decide (res = 0)) role' (tableView m')) :
    MapPageEffect pms pm va pa u ro m res m' where
  mapped := by
    intro hres va' hpage
    have hva' : va' < 2 ^ 39 := by omega
    have hleaf : leaf m' pm.l1 va' = some (0, pagingL3CreateEntryBlock pa u ro) := by
      rw [leaf, (vaPath_eq_iff hva hva').mpr hpage]
      exact heff.hit (decide_eq_true hres)
    rw [translate, if_pos hva', hleaf, Option.map_some, leafTranslation_pageEntry,
      Nat.mod_eq_of_lt hpa]
    rfl
  kept := by
    intro _ va' hpage
    by_cases hva' : va' < 2 ^ 39
    · rw [translate, translate, if_pos hva', if_pos hva', leaf, leaf]
      rw [heff.miss (vaPath va' 2) rfl (fun h => hpage ((vaPath_eq_iff hva hva').mp h))]
    · rw [translate, translate, if_neg hva', if_neg hva']
  others := by
    intro pm' hm hne va'
    rw [translate, translate, leaf, leaf,
      heff.other_root hi.owned hne (hman pm' hm).2 (vaPath_length va' 2)]
  refused := hrefused
  success_iff := by
    rw [translate_eq_none_iff hva]
    exact decide_eq_true_iff.symm.trans heff.ok_iff

/-- **Mapping a page has exactly its intended effect.**  In every reachable state of the tables,
    with at least two free tables, `paging_manager_map_page` returns; it succeeds exactly when the
    page was unmapped or mapped by the same entry, then maps that page and nothing else, and a
    refusal leaves memory as it was.  The induction is on the levels below the root
    (`insertBelow_spec`), and two is how many tables can be missing on a path. -/
theorem map_page_effect {s : Slab} (hs : TableSlab s) {st : PagingState}
    (hr : (pagingMachine s).Reach st) {pm : PagingManager} (hpm : pm ∈ st.managers) {va : Nat}
    (hva : va < 2 ^ 39) {pa : Word} (hpa : pa.toNat < 2 ^ 48) (u ro : Bool)
    (hfree : 2 ≤ s.freeSlots st.mem) :
    ∃ res m', pagingManagerMapPage pm va pa u ro st.mem = .ok (res, m') ∧
      MapPageEffect st.managers pm va pa u ro st.mem res m' := by
  obtain ⟨role, hi, hman⟩ := pagingMachine_inv hs hr
  rcases insertBelow_spec hs (hman pm hpm).1 hva pa u ro 2 pm.l1 [] st.mem role hi
    (hman pm hpm).2 rfl with ⟨res, m', role', hrun, hins⟩ | ⟨-, hfew⟩
  · exact ⟨res, m', hrun, mapPageEffect hi hman hva hpa hins.refused
      (hi.mapPage (hman pm hpm).2 hins).1⟩
  · have hle : Radix.missing armFormat (tableView st.mem) pm.l1 (vaPath va 2) ≤ 2 :=
      Radix.missing_le pm.l1 (vaIndex va 2) (vaPath va 1)
    omega

/-- A slab of eight tables at `0x2000`, with its header in the page before. -/
def eightTables : Slab := ⟨0x1000, 8, 4096, 4096⟩

/-- It is a slab of tables. -/
theorem eightTables_tableSlab : TableSlab eightTables :=
  ⟨⟨by decide, by decide, by decide, by decide, by decide⟩, rfl, rfl, by decide⟩

/-- The effect holds of a first page mapped in a fresh manager over cleared memory. -/
theorem map_page_effect_first : ∃ st pm, (pagingMachine eightTables).Reach st ∧
    pm ∈ st.managers ∧ 2 ≤ eightTables.freeSlots st.mem ∧
    ∃ res m', pagingManagerMapPage pm 0x80000000 0x81000000 true false st.mem = .ok (res, m') ∧
      MapPageEffect st.managers pm 0x80000000 0x81000000 true false st.mem res m' := by
  have hcount : eightTables.freeSlots (fun _ => 0) = 8 := by decide +kernel
  rcases pagingManagerInit_cases eightTables_tableSlab (fun _ => 0) with ⟨hzero, -⟩ | ⟨k, m, hm, ha⟩
  · exact absurd (hzero.symm.trans hcount) (by decide)
  · have hfree : 2 ≤ eightTables.freeSlots m := by
      have := ha.count
      omega
    have hstart : (pagingMachine eightTables).Reach ⟨fun _ => 0, []⟩ := .start rfl
    have hinit : (pagingMachine eightTables).step ⟨fun _ => 0, []⟩ .init
        ⟨m, [⟨eightTables.slotAddr k, eightTables⟩]⟩ := ⟨_, hm, rfl⟩
    have hreach := hstart.step hinit
    exact ⟨_, _, hreach, List.mem_cons_self, hfree,
      map_page_effect eightTables_tableSlab hreach List.mem_cons_self (by decide) (by decide) true
        false hfree⟩

end TinyKernel
