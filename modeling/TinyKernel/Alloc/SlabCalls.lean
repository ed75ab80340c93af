/-
  The slab at its limits: `slab_allocate` with no free slot, and `slab_free` with any pointer.

  * `slab_get_next_slot` counts a `size_t` down and tests `count >= 0`.  When every slot is in use
    the count wraps, and the bit that is asked for next is number -1.  So an exhausted slab never
    refuses a request (`slab_never_refuses`).
  * `slab_free` takes the slot number from the distance of the pointer to the first object, as a
    `size_t`, and does not compare it with `max_store`.  The bit with that number may be one of the
    padding of the header, which is clear, but also one of the objects themselves.  `slabCallMachine`
    lets clients free any pointer, and `slab_free_exact_iff` says which pointers are treated as they
    should.
-/
import TinyKernel.Alloc.SlabRun

namespace TinyKernel

/-! ## No slot is free -/

/-- `slab_get_header_bit` returns 1. -/
def headerBitSet (s : Slab) (m : Mem) (n : Int) : Bool :=
  match slabGetHeaderBit s m n with
  | .ok bit => bit = 1
  | .error _ => false

/-- The bits of the header that `slab_get_next_slot` asks for, from slot `count` down. -/
def slabNextSlotBits (s : Slab) (m : Mem) : Nat → List Int
  | 0 => if headerBitSet s m 0 then [0, -1] else [0]
  | count + 1 =>
    if headerBitSet s m (toInt32 (count + 1 : Nat)) then
      toInt32 (count + 1 : Nat) :: slabNextSlotBits s m count
    else [toInt32 (count + 1 : Nat)]

/-- `slab_allocate` returns `NULL` and changes nothing, and only bits of slots are looked at. -/
structure RefusesCleanly (s : Slab) (m : Mem) : Prop where
  null : slabAllocate s m = .ok (0, m)
  bits : ∀ n ∈ slabNextSlotBits s m (toSize ((s.maxStore : Int) - 1)), 0 ≤ n ∧ n < s.maxStore

/-- Every slot is marked used. -/
def Exhausted (s : Slab) (m : Mem) : Prop := ∀ k < s.maxStore, slabGetHeaderBit s m k = .ok 1

theorem headerBitSet_of_ok {s : Slab} {m : Mem} {n : Int} (h : slabGetHeaderBit s m n = .ok 1) :
    headerBitSet s m n = true := by
  rw [headerBitSet, h]
  rfl

/-- The search for a free slot goes on until it asks for a bit with a negative number. -/
theorem Exhausted.asks_negative {s : Slab} {m : Mem} (hfull : Exhausted s m) : ∀ (count : Nat),
    count < s.maxStore → ∃ n ∈ slabNextSlotBits s m count, n < 0 := by
  intro count
  induction count with
  | zero =>
    intro hc
    have hbit : slabGetHeaderBit s m 0 = .ok 1 := hfull 0 hc
    rw [slabNextSlotBits, if_pos (headerBitSet_of_ok hbit)]
    exact ⟨-1, List.mem_cons_of_mem _ List.mem_cons_self, by decide⟩
  | succ count ih =>
    intro hc
    rw [slabNextSlotBits]
    rcases Int.lt_or_le (toInt32 ((count + 1 : Nat) : Int)) 0 with hneg | hpos
    · refine ⟨_, ?_, hneg⟩
      split
      · exact List.mem_cons_self
      · exact List.mem_singleton_self _
    · -- the number that arrives at `slab_get_header_bit` is that of a slot
      obtain ⟨k, hk⟩ := Int.eq_ofNat_of_zero_le hpos
      have hle : k ≤ count + 1 := by
        unfold toInt32 at hk
        omega
      have hbit : slabGetHeaderBit s m (toInt32 ((count + 1 : Nat) : Int)) = .ok 1 := by
        rw [hk]
        exact hfull k (by omega)
      obtain ⟨n, hn, hneg⟩ := ih (by omega)
      rw [if_pos (headerBitSet_of_ok hbit)]
      exact ⟨n, List.mem_cons_of_mem _ hn, hneg⟩

/-- **An exhausted slab never refuses cleanly**, whatever its size and wherever it is.  `count >= 0`
    holds of every `size_t`: the search of `slab_get_next_slot` goes on below slot 0, and asks for a
    bit with a negative number. -/
theorem slab_never_refuses {s : Slab} (hs : 1 ≤ s.maxStore) {m : Mem} (hfull : Exhausted s m) :
    ¬ RefusesCleanly s m := by
  intro hclean
  have hcount : toSize ((s.maxStore : Int) - 1) < s.maxStore := by
    unfold toSize
    omega
  obtain ⟨n, hn, hneg⟩ := hfull.asks_negative _ hcount
  have hpos := (hclean.bits n hn).1
  omega

/-- With 128 jobs it is exhausted. -/
theorem jobsSlab_exhausted : Exhausted (createdSlab 392 128 0x41182000) fun _ => 0xff := by
  intro k hk
  rw [createdJobSlab_placed.getHeaderBit _ hk]
  refine congrArg Except.ok (if_pos ?_)
  have hones : ∀ o < 8, (0xff : Byte).getLsbD o = true := by decide
  exact hones (k % 8) (Nat.mod_lt k (by decide))

/-- The 129th job. -/
theorem slab_never_refuses_jobs :
    ¬ RefusesCleanly (createdSlab 392 128 0x41182000) fun _ => 0xff :=
  slab_never_refuses (by decide) jobsSlab_exhausted

/-- The search for its slot ends in a shift by a negative amount. -/
theorem slab_shifts_by_negative : Exhausted (createdSlab 392 128 0x41182000) (fun _ => 0xff) ∧
    slabAllocate (createdSlab 392 128 0x41182000) (fun _ => 0xff) = .error .negativeShift ∧
    ¬ RefusesCleanly (createdSlab 392 128 0x41182000) fun _ => 0xff := by
  have hfault : slabAllocate (createdSlab 392 128 0x41182000) (fun _ => 0xff)
      = .error .negativeShift := by
    rcases createdJobSlab_placed.allocate_cases fun _ => 0xff with ⟨-, hfault⟩ | ⟨k, hk, hfree, -⟩
    · exact hfault
    · have hused := jobsSlab_exhausted k hk
      rw [createdJobSlab_placed.getHeaderBit _ hk, hfree] at hused
      exact absurd (Except.ok.inj hused) (by decide)
  refine ⟨jobsSlab_exhausted, hfault, fun hclean => ?_⟩
  exact absurd (hfault.symm.trans hclean.null) (by simp)

/-! ## Freeing any pointer -/

/-- The client actions, with `slab_free` on any pointer. -/
inductive SlabCall
  | allocate
  | free (p : Nat)
  | write (p i : Nat) (b : Byte)

/-- One client action that returns. -/
def SlabCallStep (s : Slab) (st : SlabState) : SlabCall → SlabState → Prop
  | .allocate, st' => ∃ p, slabAllocate s st.mem = .ok (p, st'.mem) ∧ st'.live = p :: st.live
  | .free p, st' => ∃ r, slabFree s st.mem p = .ok (r, st'.mem) ∧ st'.live = st.live.erase p
  | .write p i b, st' => SlabStep s st (.write p i b) st'

/-- A slab from its creation on, over any previous memory contents. -/
def slabCallMachine (objectSize maxStore start : Nat) : Machine SlabState SlabCall where
  start := (slabMachine objectSize maxStore start).start
  step := SlabCallStep (createdSlab objectSize maxStore start)

/-- `slab_free(p)` accepts a live object, and only that. -/
structure FreesExactly (s : Slab) (st : SlabState) (p : Nat) : Prop where
  accepts : p ∈ st.live → ∃ k < s.maxStore, p = s.slotAddr k ∧
    slabFree s st.mem p = .ok (1, setBit st.mem s.startingAddress k false)
  rejects : p ∉ st.live → slabFree s st.mem p = .ok (0, st.mem)

/-- What `slab_free` needs of a pointer that is not live: it is less than 2^31 objects behind the
    first object, as a `size_t`; and if that is a whole number of objects, the bit with this number,
    counted from the start of the slab, is 0. -/
def PointsAtClearBit (s : Slab) (m : Mem) (p : Nat) : Prop :=
  let offset := toSize ((p : Int) - s.startingAddress - s.headerSize)
  offset / s.objectSize < 2147483648 ∧
    (offset % s.objectSize = 0 → slabGetHeaderBit s m (offset / s.objectSize : Nat) = .ok 0)

/-- The condition for a call. -/
def SlabCall.Meets (s : Slab) (st : SlabState) : SlabCall → Prop
  | .free p => p ∉ st.live → PointsAtClearBit s st.mem p
  | _ => True

/-- The subtraction loop divides, as long as `slot` does not overflow. -/
theorem slabFreeLoop_eq {objectSize : Nat} (ho : 1 ≤ objectSize) : ∀ (room offset slot : Nat),
    slabFreeLoop objectSize room offset slot =
      if offset / objectSize ≤ room then .ok (offset % objectSize, slot + offset / objectSize)
      else .error .signedOverflow := by
  intro room
  induction room with
  | zero =>
    intro offset slot
    rw [slabFreeLoop]
    by_cases hle : objectSize ≤ offset
    · have hpos := Nat.div_pos hle (by omega)
      rw [if_pos hle, if_neg (by omega)]
    · have hlt : offset < objectSize := by omega
      rw [if_neg hle, Nat.div_eq_of_lt hlt, Nat.mod_eq_of_lt hlt, if_pos (Nat.le_refl 0),
        Nat.add_zero]
  | succ room ih =>
    intro offset slot
    rw [slabFreeLoop]
    by_cases hle : objectSize ≤ offset
    · have hdiv : offset / objectSize = (offset - objectSize) / objectSize + 1 :=
        Nat.div_eq_sub_div (by omega) hle
      rw [if_pos hle, ih, ← Nat.mod_eq_sub_mod hle, hdiv,
        show slot + 1 + (offset - objectSize) / objectSize
          = slot + ((offset - objectSize) / objectSize + 1) by omega]
      exact if_congr (by omega) rfl rfl
    · have hlt : offset < objectSize := by omega
      rw [if_neg hle, Nat.div_eq_of_lt hlt, Nat.mod_eq_of_lt hlt, if_pos (Nat.zero_le _),
        Nat.add_zero]

/-- A bit with a number that is not negative is there to be read. -/
theorem slabGetHeaderBit_natCast (s : Slab) (m : Mem) (n : Nat) :
    slabGetHeaderBit s m n = .ok 0 ∨ slabGetHeaderBit s m n = .ok 1 := by
  have htmod : (n : Int).tmod 8 = (n % 8 : Nat) := rfl
  simp only [slabGetHeaderBit, htmod]
  rw [if_neg (by omega)]
  split
  · exact Or.inr rfl
  · exact Or.inl rfl

/-- **`slab_free`** leaves the slab alone exactly if the pointer leads to no bit that is set. -/
theorem slabFree_rejects_iff {s : Slab} (ho : 1 ≤ s.objectSize) (m : Mem) (p : Nat) :
    slabFree s m p = .ok (0, m) ↔ PointsAtClearBit s m p := by
  unfold slabFree PointsAtClearBit
  simp only [slabFreeLoop_eq ho, Nat.zero_add]
  generalize toSize ((p : Int) - s.startingAddress - s.headerSize) = offset
  by_cases hroom : offset / s.objectSize ≤ 2147483647
  · rw [if_pos hroom, ok_bind]
    simp only [and_iff_right (show offset / s.objectSize < 2147483648 by omega)]
    by_cases hrest : offset % s.objectSize = 0
    · rw [if_neg (not_not_intro hrest)]
      rcases slabGetHeaderBit_natCast s m (offset / s.objectSize) with hbit | hbit
      · simp only [hbit, ok_bind, if_neg (show ¬ (0 : Int) = 1 by decide)]
        exact ⟨fun _ _ => trivial, fun _ => rfl⟩
      · simp only [hbit, ok_bind, if_true]
        refine ⟨fun h => ?_, fun h => absurd (Except.ok.inj (h hrest)) (by decide)⟩
        obtain ⟨m', -, hone⟩ := bind_eq_ok h
        exact absurd (Prod.mk.inj (Except.ok.inj hone)).1 (by decide)
    · rw [if_pos hrest]
      exact ⟨fun _ h => absurd h hrest, fun _ => rfl⟩
  · rw [if_neg hroom]
    refine ⟨fun h => ?_, fun h => absurd h.1 (by omega)⟩
    obtain ⟨_, herr, -⟩ := bind_eq_ok h
    exact absurd herr (by simp)

namespace SlabInv

variable {s : Slab} {st st' : SlabState}

/-- Live objects are accepted; the others are rejected if the condition holds. -/
theorem frees_iff (hp : s.Placed) (hi : SlabInv s st) (p : Nat) :
    FreesExactly s st p ↔ (p ∉ st.live → PointsAtClearBit s st.mem p) := by
  constructor
  · exact fun h hp' => (slabFree_rejects_iff hp.object_pos st.mem p).mp (h.rejects hp')
  · intro hcond
    refine ⟨fun hm => ?_, fun hm => (slabFree_rejects_iff hp.object_pos st.mem p).mpr (hcond hm)⟩
    obtain ⟨k, hk, rfl⟩ := hi.slots p hm
    refine ⟨k, hk, rfl, ?_⟩
    rw [hp.free st.mem hk, if_pos ((hi.bits k hk).mpr hm)]

/-- A call that meets the condition keeps the invariant. -/
theorem call (hp : s.Placed) (hi : SlabInv s st) {e : SlabCall} (hstep : SlabCallStep s st e st')
    (hmeets : e.Meets s st) : SlabInv s st' := by
  obtain ⟨mem, live⟩ := st'
  cases e with
  | allocate =>
    obtain ⟨p, hres, hlive⟩ := hstep
    simp only at hres hlive
    subst hlive
    exact hi.allocated hp hres
  | free p =>
    obtain ⟨r, hres, hlive⟩ := hstep
    simp only at hres hlive
    subst hlive
    by_cases hm : p ∈ st.live
    · exact hi.step hp (e := .free p) ⟨hm, r, hres, rfl⟩
    · rw [((hi.frees_iff hp p).mpr hmeets).rejects hm] at hres
      obtain ⟨-, rfl⟩ := Prod.mk.inj (Except.ok.inj hres)
      rw [List.erase_of_not_mem hm]
      exact hi
  | write p i b => exact hi.step hp (e := .write p i b) hstep

end SlabInv

/-- **`slab_free` and live objects.**  Take any run of calls from `slab_create` on, with writes
    inside live objects and frees of any pointers that meet the condition.  In the state it ends in,
    `slab_free(p)` accepts `p` exactly if it is a live object and otherwise changes nothing, if and
    only if `p` is live or meets the condition itself. -/
theorem slab_free_exact_iff {objectSize maxStore start : Nat} (ho : 1 ≤ objectSize)
    (hs : 1 ≤ maxStore)
    (hfit : slabGetHeaderSize objectSize maxStore + objectSize * maxStore < 2147483648)
    (hspace : start + slabGetNeededSize objectSize maxStore ≤ 18446744073709551616)
    {st st' : SlabState} {tr : List (SlabState × SlabCall × SlabState)}
    (h0 : (slabCallMachine objectSize maxStore start).start st)
    (hr : (slabCallMachine objectSize maxStore start).Run st tr st')
    (hmeets : ∀ a e b, (a, e, b) ∈ tr → e.Meets (createdSlab objectSize maxStore start) a)
    (p : Nat) :
    FreesExactly (createdSlab objectSize maxStore start) st' p ↔
      (p ∉ st'.live → PointsAtClearBit (createdSlab objectSize maxStore start) st'.mem p) := by
  have hp : (createdSlab objectSize maxStore start).Placed :=
    slabCreate_placed (fun _ => 0) ho hs hfit hspace
  have hi : SlabInv (createdSlab objectSize maxStore start) st' := by
    refine hr.invariant (I := SlabInv (createdSlab objectSize maxStore start))
      (Q := fun a e _ => e.Meets (createdSlab objectSize maxStore start) a) ?_ ?_ hmeets
    · exact fun a e b hi hstep hq => hi.call hp hstep hq
    · obtain ⟨m, rfl⟩ := h0
      exact SlabInv.created m hp
  exact hi.frees_iff hp p

/-- While two objects of the job slab are live, `slab_free` accepts the first of them, and neither
    its second byte nor the first slot, which is free. -/
theorem slab_free_exact_iff_two : ∃ st st₁ st₂,
    (slabCallMachine 392 128 0x41182000).Run st
      [(st, .allocate, st₁), (st₁, .allocate, st₂)] st₂ ∧
    st₂.live = [0x4118e278, 0x4118e400] ∧
    FreesExactly (createdSlab 392 128 0x41182000) st₂ 0x4118e400 ∧
    FreesExactly (createdSlab 392 128 0x41182000) st₂ 0x4118e401 ∧
    FreesExactly (createdSlab 392 128 0x41182000) st₂ 0x41182188 := by
  obtain ⟨m₀, m₁, m₂, hstart, ⟨-, h₁⟩, ⟨-, h₂⟩, hi⟩ := jobSlab_two
  have hp := createdJobSlab_placed
  obtain ⟨hfit, hspace, hheader, hslot, -⟩ := jobSlab_checks
  have hrun : (slabCallMachine 392 128 0x41182000).Run ⟨m₀, []⟩
      [(⟨m₀, []⟩, .allocate, ⟨m₁, [0x4118e400]⟩),
        (⟨m₁, [0x4118e400]⟩, .allocate, ⟨m₂, [0x4118e278, 0x4118e400]⟩)]
      ⟨m₂, [0x4118e278, 0x4118e400]⟩ := .cons h₁ (.cons h₂ (.nil _))
  have hiff := slab_free_exact_iff (by decide) (by decide) hfit hspace hstart hrun (fun a e b hm => by
      simp only [List.mem_cons, Prod.mk.injEq, List.not_mem_nil, or_false] at hm
      rcases hm with ⟨-, rfl, -⟩ | ⟨-, rfl, -⟩ <;> trivial)
  refine ⟨_, _, _, hrun, rfl, (hiff _).mpr fun hdead => absurd (by simp) hdead, (hiff _).mpr fun _ => ?_,
    (hiff _).mpr fun _ => ?_⟩
  · have hoffset : toSize (((0x4118e401 : Nat) : Int)
        - (createdSlab 392 128 0x41182000).startingAddress
        - (createdSlab 392 128 0x41182000).headerSize) = 49785 := by
      rw [hheader]
      unfold toSize
      rfl
    rw [PointsAtClearBit, hoffset]
    exact ⟨by decide, fun h => absurd h (by decide)⟩
  · have hoffset : toSize (((0x41182188 : Nat) : Int)
        - (createdSlab 392 128 0x41182000).startingAddress
        - (createdSlab 392 128 0x41182000).headerSize) = 0 := by
      rw [hheader]
      unfold toSize
      rfl
    rw [PointsAtClearBit, hoffset]
    refine ⟨by decide, fun _ => ?_⟩
    have hbit := hi.getHeaderBit hp (k := 0) (by decide)
    rw [hslot, if_neg (by simp)] at hbit
    exact hbit

/-- `slab_free(NULL)` on the new job slab counts subtractions until `slot` overflows. -/
theorem slab_free_null_overflows :
    slabFree (createdSlab 392 128 0x41182000) (slabCreate 392 128 0x41182000 (fun _ => 0xa5)).2 0
      = .error .signedOverflow ∧
    ¬ FreesExactly (createdSlab 392 128 0x41182000)
      ⟨(slabCreate 392 128 0x41182000 (fun _ => 0xa5)).2, []⟩ 0 := by
  obtain ⟨-, -, hheader, -⟩ := jobSlab_checks
  have hoffset : toSize (((0 : Nat) : Int) -
      (createdSlab 392 128 0x41182000).startingAddress
        - (createdSlab 392 128 0x41182000).headerSize) = 18446744072617451128 := by
    rw [hheader]
    unfold toSize
    rfl
  have hfault : slabFree (createdSlab 392 128 0x41182000)
      (slabCreate 392 128 0x41182000 (fun _ => 0xa5)).2 0 = .error .signedOverflow := by
    unfold slabFree
    simp only [slabFreeLoop_eq (show 1 ≤ (createdSlab 392 128 0x41182000).objectSize by decide),
      hoffset]
    rw [if_neg (by decide)]
    rfl
  refine ⟨hfault, fun h => ?_⟩
  have hnull := h.rejects List.not_mem_nil
  exact absurd (hfault.symm.trans hnull) (by simp)

end TinyKernel
