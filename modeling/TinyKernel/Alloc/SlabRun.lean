/-
  The slab allocator over whole runs.

  `slabMachine` runs one slab from `slab_create`: clients allocate while a slot is free, free
  pointers they hold, and write bytes inside objects they hold.  The ghost list `live` is what
  the clients hold: the pointers returned by `slab_allocate` and not yet passed to
  `slab_free`.

  The invariant `SlabInv` ties three views of the same fact together: the list of live
  pointers, the slots they are the addresses of, and the bits of the header.  A client's write
  cannot break it because an object never overlaps the header (`clear_of_header` below), and
  `slab_allocate` cannot return a live slot because it only returns a slot whose bit is 0.
-/
import Mathlib.Data.List.Nodup
import Mathlib.Data.List.Perm.Subperm
import TinyKernel.Lib.Machine
import TinyKernel.Alloc.Slab

namespace TinyKernel

/-- A slab's memory and the pointers its clients hold. -/
structure SlabState where
  mem : Mem
  live : List Nat

/-- What the clients of a slab may do. -/
inductive SlabEvent
  /-- Call `slab_allocate`. -/
  | allocate
  /-- Call `slab_free` on a pointer that is held. -/
  | free (p : Nat)
  /-- Store `b` at byte `i` of an object that is held. -/
  | write (p i : Nat) (b : Byte)

/-- The slab `slab_create` returns. -/
def createdSlab (objectSize maxStore start : Nat) : Slab :=
  ⟨start, maxStore, objectSize, slabGetHeaderSize objectSize maxStore⟩

/-- One client action.  `slab_allocate` is called only while a slot is free. -/
def SlabStep (s : Slab) (st : SlabState) : SlabEvent → SlabState → Prop
  | .allocate, st' => st.live.length < s.maxStore ∧
      ∃ p, slabAllocate s st.mem = .ok (p, st'.mem) ∧ st'.live = p :: st.live
  | .free p, st' => p ∈ st.live ∧
      ∃ r, slabFree s st.mem p = .ok (r, st'.mem) ∧ st'.live = st.live.erase p
  | .write p i b, st' => p ∈ st.live ∧ i < s.objectSize ∧
      st'.mem = Function.update st.mem (p + i) b ∧ st'.live = st.live

/-- A slab from its creation on, over any previous memory contents. -/
def slabMachine (objectSize maxStore start : Nat) : Machine SlabState SlabEvent where
  start st := ∃ m, st = ⟨(slabCreate objectSize maxStore start m).2, []⟩
  step := SlabStep (createdSlab objectSize maxStore start)

/-- A client action in a reachable state. -/
theorem SlabStep.reach {objectSize maxStore start : Nat} {st st' : SlabState} {e : SlabEvent}
    (hr : (slabMachine objectSize maxStore start).Reach st)
    (hs : SlabStep (createdSlab objectSize maxStore start) st e st') :
    (slabMachine objectSize maxStore start).Reach st' :=
  Machine.Reach.step (e := e) hr hs

/-- `slab_allocate` when slot `k` is free and no slot above it is. -/
theorem Slab.Placed.allocate_top {s : Slab} (hp : s.Placed) {m : Mem} {k : Nat}
    (hk : k < s.maxStore) (hfree : s.used m k = false)
    (habove : ∀ j, k < j → j < s.maxStore → s.used m j = true) :
    slabAllocate s m = .ok (s.slotAddr k, setBit m s.startingAddress k true) := by
  obtain ⟨i, hi, hifree, hiabove, hres⟩ := hp.allocate m ⟨k, hk, hfree⟩
  obtain hlt | rfl | hgt := Nat.lt_trichotomy i k
  · rw [hiabove k hlt hk] at hfree
    exact absurd hfree (by decide)
  · exact hres
  · rw [habove i hgt hi] at hifree
    exact absurd hifree (by decide)

/-! ## The invariant -/

/-- The live pointers are distinct slots, and the header marks exactly them. -/
structure SlabInv (s : Slab) (st : SlabState) : Prop where
  nodup : st.live.Nodup
  slots : ∀ p ∈ st.live, ∃ k < s.maxStore, p = s.slotAddr k
  bits : ∀ k < s.maxStore, s.used st.mem k = true ↔ s.slotAddr k ∈ st.live

namespace SlabInv

variable {s : Slab} {st : SlabState}

/-- While fewer pointers are live than there are slots, some slot is free: otherwise the
    addresses of all slots would be distinct members of the live list. -/
theorem exists_free (hp : s.Placed) (hi : SlabInv s st) (hlen : st.live.length < s.maxStore) :
    ∃ k, k < s.maxStore ∧ s.used st.mem k = false := by
  by_contra hall
  have hused : ∀ k, k < s.maxStore → s.slotAddr k ∈ st.live := by
    intro k hk
    apply (hi.bits k hk).mp
    by_contra hb
    exact hall ⟨k, hk, Bool.eq_false_iff.mpr hb⟩
  have hnd : ((List.range s.maxStore).map s.slotAddr).Nodup :=
    List.nodup_range.map (fun _ _ h => hp.slotAddr_inj h)
  have hsub : (List.range s.maxStore).map s.slotAddr ⊆ st.live := by
    intro p hm
    obtain ⟨k, hk, rfl⟩ := List.mem_map.mp hm
    exact hused k (List.mem_range.mp hk)
  have hle := (List.subperm_of_subset hnd hsub).length_le
  rw [List.length_map, List.length_range] at hle
  omega

/-- The header's answer for every slot, as the source reads it. -/
theorem getHeaderBit (hp : s.Placed) (hi : SlabInv s st) {k : Nat} (hk : k < s.maxStore) :
    slabGetHeaderBit s st.mem k = .ok (if s.slotAddr k ∈ st.live then 1 else 0) := by
  rw [hp.getHeaderBit st.mem hk]
  by_cases hb : s.used st.mem k = true
  · rw [if_pos hb, if_pos ((hi.bits k hk).mp hb)]
  · rw [if_neg hb, if_neg (fun h => hb ((hi.bits k hk).mpr h))]

/-- Marking a free slot and adding its address to the live list keeps the invariant. -/
theorem mark (hp : s.Placed) (hi : SlabInv s st) {k : Nat} (hk : k < s.maxStore)
    (hfree : s.used st.mem k = false) :
    SlabInv s ⟨setBit st.mem s.startingAddress k true, s.slotAddr k :: st.live⟩ where
  nodup := by
    refine List.nodup_cons.mpr ⟨fun hm => ?_, hi.nodup⟩
    rw [(hi.bits k hk).mpr hm] at hfree
    exact absurd hfree (by decide)
  slots := by
    intro p hm
    rcases List.mem_cons.mp hm with rfl | hm
    · exact ⟨k, hk, rfl⟩
    · exact hi.slots p hm
  bits := by
    intro j hj
    by_cases hjk : j = k
    · subst hjk
      exact ⟨fun _ => List.mem_cons_self, fun _ => bitAt_setBit_same ..⟩
    · have hne : s.slotAddr j ≠ s.slotAddr k := fun h => hjk (hp.slotAddr_inj h)
      rw [List.mem_cons, or_iff_right hne, ← hi.bits j hj]
      show bitAt _ _ _ = true ↔ _
      rw [bitAt_setBit_ne hjk]
      rfl

/-- Clearing a live slot and dropping its address keeps the invariant. -/
theorem unmark (hp : s.Placed) (hi : SlabInv s st) {k : Nat} (hk : k < s.maxStore) :
    SlabInv s ⟨setBit st.mem s.startingAddress k false, st.live.erase (s.slotAddr k)⟩ where
  nodup := hi.nodup.erase _
  slots := fun p hm => hi.slots p (List.mem_of_mem_erase hm)
  bits := by
    intro j hj
    rw [hi.nodup.mem_erase_iff]
    by_cases hjk : j = k
    · subst hjk
      have hclear : s.used (setBit st.mem s.startingAddress j false) j = false :=
        bitAt_setBit_same ..
      rw [hclear]
      exact ⟨fun h => absurd h (by decide), fun h => absurd rfl h.1⟩
    · have hne : s.slotAddr j ≠ s.slotAddr k := fun h => hjk (hp.slotAddr_inj h)
      rw [and_iff_right hne, ← hi.bits j hj]
      show bitAt _ _ _ = true ↔ _
      rw [bitAt_setBit_ne hjk]
      rfl

/-- A store inside a live object leaves the header alone. -/
theorem write (hp : s.Placed) (hi : SlabInv s st) {p i : Nat} (hm : p ∈ st.live) (b : Byte) :
    SlabInv s ⟨Function.update st.mem (p + i) b, st.live⟩ where
  nodup := hi.nodup
  slots := hi.slots
  bits := by
    intro j hj
    obtain ⟨k, hk, rfl⟩ := hi.slots p hm
    have h1 := hp.header_byte_lt hj
    have h2 := s.header_le_slotAddr k
    have hne : s.startingAddress + j / 8 ≠ s.slotAddr k + i := by omega
    rw [← hi.bits j hj]
    show bitAt _ _ _ = true ↔ bitAt _ _ _ = true
    rw [bitAt_congr (Function.update_of_ne hne b st.mem)]

/-- A freshly created slab: no pointer is live and no bit is set. -/
theorem created {objectSize maxStore start : Nat} (m : Mem)
    (hp : (createdSlab objectSize maxStore start).Placed) :
    SlabInv (createdSlab objectSize maxStore start)
      ⟨(slabCreate objectSize maxStore start m).2, []⟩ where
  nodup := List.nodup_nil
  slots := fun p hm => absurd hm List.not_mem_nil
  bits := by
    intro k hk
    have hin := hp.header_byte_lt hk
    have hzero : (slabCreate objectSize maxStore start m).2 (start + k / 8) = 0 := by
      rw [slabCreate_mem m hp, if_pos ⟨Nat.le_add_right _ _, hin⟩]
    have hbit : (createdSlab objectSize maxStore start).used
        (slabCreate objectSize maxStore start m).2 k = false := by
      show BitVec.getLsbD ((slabCreate objectSize maxStore start m).2 (start + k / 8)) _ = false
      rw [hzero]
      exact BitVec.getLsbD_zero
    rw [hbit]
    exact ⟨fun h => absurd h (by decide), fun h => absurd h List.not_mem_nil⟩

/-- A `slab_allocate` that returns has taken a slot that was free. -/
theorem allocated (hp : s.Placed) (hi : SlabInv s st) {p : Nat} {m' : Mem}
    (h : slabAllocate s st.mem = .ok (p, m')) : SlabInv s ⟨m', p :: st.live⟩ := by
  rcases hp.allocate_cases st.mem with ⟨-, herr⟩ | ⟨k, hk, hfree, hres, -⟩
  · rw [herr] at h
    cases h
  · rw [hres] at h
    obtain ⟨rfl, rfl⟩ := Prod.mk.inj (Except.ok.inj h)
    exact hi.mark hp hk hfree

/-- `slab_free` of a live pointer returns 1, and the pointer is not live any more. -/
theorem freed (hp : s.Placed) (hi : SlabInv s st) {p : Nat} (hm : p ∈ st.live) :
    ∃ m', slabFree s st.mem p = .ok (1, m') ∧ SlabInv s ⟨m', st.live.erase p⟩ := by
  obtain ⟨k, hk, rfl⟩ := hi.slots p hm
  refine ⟨_, ?_, hi.unmark hp hk⟩
  rw [hp.free st.mem hk, if_pos ((hi.bits k hk).mpr hm)]

/-- One client action keeps the invariant. -/
theorem step (hp : s.Placed) {st' : SlabState} {e : SlabEvent} (hi : SlabInv s st)
    (h : SlabStep s st e st') : SlabInv s st' := by
  obtain ⟨mem', live'⟩ := st'
  cases e with
  | allocate =>
    obtain ⟨-, p, hres, hlive⟩ := h
    simp only at hres hlive
    subst hlive
    exact hi.allocated hp hres
  | free p =>
    obtain ⟨hm, r, hres, hlive⟩ := h
    obtain ⟨m', heq, hinv⟩ := hi.freed hp hm
    rw [heq] at hres
    obtain ⟨-, hmem⟩ := Prod.mk.inj (Except.ok.inj hres)
    simp only at hmem hlive
    subst hmem hlive
    exact hinv
  | write p i b =>
    obtain ⟨hm, -, hmem, hlive⟩ := h
    simp only at hmem hlive
    subst hmem hlive
    exact hi.write hp hm b

end SlabInv

/-! ## The representation, in every reachable state -/

/-- What holds of a slab `s` in state `st`, in the words of its clients. -/
structure SlabRepresentation (s : Slab) (st : SlabState) : Prop where
  /-- Every live pointer is the address of a slot. -/
  slot : ∀ p ∈ st.live, ∃ k < s.maxStore,
    p = s.startingAddress + s.headerSize + s.objectSize * k
  /-- Live objects are pairwise disjoint. -/
  disjoint : st.live.Pairwise fun p q => p + s.objectSize ≤ q ∨ q + s.objectSize ≤ p
  /-- Live objects lie inside the zone. -/
  inside : ∀ p ∈ st.live, s.startingAddress ≤ p ∧
    p + s.objectSize ≤ s.startingAddress + slabGetNeededSize s.objectSize s.maxStore
  /-- No live object overlaps the byte that holds the bit of any slot. -/
  clear_of_header : ∀ p ∈ st.live, ∀ k < s.maxStore,
    ¬ (p ≤ s.startingAddress + k / 8 ∧ s.startingAddress + k / 8 < p + s.objectSize)
  /-- The header bit of a slot is 1 exactly if the slot is live. -/
  bit : ∀ k < s.maxStore,
    slabGetHeaderBit s st.mem k = .ok (if s.slotAddr k ∈ st.live then 1 else 0)
  /-- While a slot is free, `slab_allocate` returns a slot that was free, and marks only it. -/
  allocate : st.live.length < s.maxStore → ∃ k < s.maxStore, s.slotAddr k ∉ st.live ∧
    ∃ m', slabAllocate s st.mem = .ok (s.slotAddr k, m') ∧
      ∀ j < s.maxStore, slabGetHeaderBit s m' j
        = .ok (if s.slotAddr j = s.slotAddr k ∨ s.slotAddr j ∈ st.live then 1 else 0)
  /-- `slab_free` of a live pointer returns 1 and frees only its slot. -/
  free : ∀ p ∈ st.live, ∃ m', slabFree s st.mem p = .ok (1, m') ∧
    ∀ j < s.maxStore, slabGetHeaderBit s m' j
      = .ok (if s.slotAddr j ≠ p ∧ s.slotAddr j ∈ st.live then 1 else 0)

/-- The invariant gives the clients' view. -/
theorem SlabInv.representation {objectSize maxStore start : Nat} {st : SlabState}
    (hp : (createdSlab objectSize maxStore start).Placed)
    (hi : SlabInv (createdSlab objectSize maxStore start) st) :
    SlabRepresentation (createdSlab objectSize maxStore start) st := by
  generalize hs : createdSlab objectSize maxStore start = s at hp hi ⊢
  have hneed : slabGetNeededSize s.objectSize s.maxStore
      = s.headerSize + s.objectSize * s.maxStore := by
    subst hs
    exact slabGetNeededSize_eq hp.small
  refine ⟨fun p hm => hi.slots p hm, ?_, ?_, ?_, fun k hk => hi.getHeaderBit hp hk, ?_, ?_⟩
  · refine hi.nodup.imp_of_mem ?_
    intro p q hpm hqm hne
    obtain ⟨j, hj, rfl⟩ := hi.slots p hpm
    obtain ⟨k, hk, rfl⟩ := hi.slots q hqm
    rcases Nat.lt_trichotomy j k with hlt | heq | hgt
    · exact Or.inl (Slab.slotAddr_lt_slotAddr hlt)
    · exact absurd (congrArg s.slotAddr heq) hne
    · exact Or.inr (Slab.slotAddr_lt_slotAddr hgt)
  · intro p hm
    obtain ⟨k, hk, rfl⟩ := hi.slots p hm
    have h1 := s.header_le_slotAddr k
    have h2 := Slab.slot_end_le hk
    rw [hneed]
    omega
  · intro p hm j hj
    obtain ⟨k, hk, rfl⟩ := hi.slots p hm
    have h1 := hp.header_byte_lt hj
    have h2 := s.header_le_slotAddr k
    omega
  · intro hlen
    obtain ⟨k, hk, hfree, -, heq⟩ := hp.allocate st.mem (hi.exists_free hp hlen)
    have hmark := hi.mark hp hk hfree
    refine ⟨k, hk, (List.nodup_cons.mp hmark.nodup).1, _, heq, fun j hj => ?_⟩
    rw [hmark.getHeaderBit hp hj]
    simp only [List.mem_cons]
  · intro p hm
    obtain ⟨k, hk, rfl⟩ := hi.slots p hm
    refine ⟨_, by rw [hp.free st.mem hk, if_pos ((hi.bits k hk).mpr hm)], fun j hj => ?_⟩
    rw [(hi.unmark hp hk).getHeaderBit hp hj]
    simp only [hi.nodup.mem_erase_iff]

/-- **Slab representation over whole runs.**  For every object size and capacity that fit the
    allocator's `int` arithmetic, from `slab_create` on and after any sequence of allocations,
    frees of live pointers and writes inside live objects, live pointers, slots and header bits
    describe the same set, and the next allocation or free does exactly what it should. -/
theorem slab_run_representation {objectSize maxStore start : Nat} (ho : 1 ≤ objectSize)
    (hs : 1 ≤ maxStore)
    (hfit : slabGetHeaderSize objectSize maxStore + objectSize * maxStore < 2147483648)
    (hspace : start + slabGetNeededSize objectSize maxStore ≤ 18446744073709551616)
    {st : SlabState} (hr : (slabMachine objectSize maxStore start).Reach st) :
    SlabRepresentation (createdSlab objectSize maxStore start) st := by
  have hp : (createdSlab objectSize maxStore start).Placed :=
    slabCreate_placed (fun _ => 0) ho hs hfit hspace
  have hi : SlabInv (createdSlab objectSize maxStore start) st := by
    refine hr.invariant (M := slabMachine objectSize maxStore start) ?_ ?_
    · rintro _ ⟨m, rfl⟩
      exact SlabInv.created m hp
    · intro _ _ _ hi hstep
      exact hi.step hp hstep
  exact hi.representation hp

/-- The sizes of the job slab, evaluated at once: `slab_create` takes them, its header, and its first
    slot and its last two. -/
theorem jobSlab_checks : slabGetHeaderSize 392 128 + 392 * 128 < 2147483648 ∧
    0x41182000 + slabGetNeededSize 392 128 ≤ 18446744073709551616 ∧
    (createdSlab 392 128 0x41182000).headerSize = 392 ∧
    (createdSlab 392 128 0x41182000).slotAddr 0 = 0x41182188 ∧
    (createdSlab 392 128 0x41182000).slotAddr 126 = 0x4118e278 ∧
    (createdSlab 392 128 0x41182000).slotAddr 127 = 0x4118e400 := by
  decide +kernel

/-- The slab of the jobs is a good one. -/
theorem createdJobSlab_placed : (createdSlab 392 128 0x41182000).Placed :=
  slabCreate_placed (fun _ => 0) (by decide) (by decide) jobSlab_checks.1 jobSlab_checks.2.1

/-- The job slab's shape (128 objects of 392 bytes) at an address of the kernel heap, created over
    memory full of 0xa5: the last two slots are handed out. -/
theorem jobSlab_two : ∃ m₀ m₁ m₂, (slabMachine 392 128 0x41182000).start ⟨m₀, []⟩ ∧
    SlabStep (createdSlab 392 128 0x41182000) ⟨m₀, []⟩ .allocate ⟨m₁, [0x4118e400]⟩ ∧
    SlabStep (createdSlab 392 128 0x41182000) ⟨m₁, [0x4118e400]⟩ .allocate
      ⟨m₂, [0x4118e278, 0x4118e400]⟩ ∧
    SlabInv (createdSlab 392 128 0x41182000) ⟨m₂, [0x4118e278, 0x4118e400]⟩ := by
  have hp := createdJobSlab_placed
  obtain ⟨-, -, -, -, h126, h127⟩ := jobSlab_checks
  have hi₀ := SlabInv.created (fun _ => 0xa5) hp
  have hstart : (slabMachine 392 128 0x41182000).start
      ⟨(slabCreate 392 128 0x41182000 fun _ => 0xa5).2, []⟩ := ⟨_, rfl⟩
  generalize (slabCreate 392 128 0x41182000 fun _ => 0xa5).2 = m at hi₀ hstart
  have hmax : (createdSlab 392 128 0x41182000).maxStore = 128 := rfl
  generalize createdSlab 392 128 0x41182000 = s at *
  -- every bit is clear after `slab_create`, so the search from the top finds slot 127
  have hfree₁ : s.used m 127 = false := Bool.eq_false_iff.mpr fun h =>
    absurd ((hi₀.bits 127 (by omega)).mp h) List.not_mem_nil
  have ha₁ := hp.allocate_top (by omega) hfree₁ (by omega)
  have hi₁ := hi₀.mark hp (by omega) hfree₁
  rw [h127] at ha₁ hi₁
  -- slot 127 is taken now, and 126 is the next
  have hfree₂ : s.used (setBit m s.startingAddress 127 true) 126 = false := by
    refine Bool.eq_false_iff.mpr fun h => ?_
    have hlive := (hi₁.bits 126 (by omega)).mp h
    rw [h126, List.mem_singleton] at hlive
    exact absurd hlive (by decide)
  have ha₂ := hp.allocate_top (by omega) hfree₂ fun j h1 h2 => by
    obtain rfl : j = 127 := by omega
    refine (hi₁.bits 127 h2).mpr ?_
    rw [h127]
    exact List.mem_cons_self
  have hi₂ := hi₁.mark hp (by omega) hfree₂
  rw [h126] at ha₂ hi₂
  exact ⟨m, _, _, hstart, ⟨by rw [hmax]; simp, _, ha₁, rfl⟩, ⟨by rw [hmax]; simp, _, ha₂, rfl⟩, hi₂⟩

/-- Then the last byte of the second object is written, and the first is given back. -/
theorem slab_run_representation_jobs : ∃ st₀ st₁ st₂ st₃ st₄,
    (slabMachine 392 128 0x41182000).start st₀ ∧
    SlabStep (createdSlab 392 128 0x41182000) st₀ .allocate st₁ ∧
    SlabStep (createdSlab 392 128 0x41182000) st₁ .allocate st₂ ∧
    st₂.live = [0x4118e278, 0x4118e400] ∧
    SlabStep (createdSlab 392 128 0x41182000) st₂ (.write 0x4118e278 391 0xff) st₃ ∧
    SlabStep (createdSlab 392 128 0x41182000) st₃ (.free 0x4118e400) st₄ ∧
    st₄.live = [0x4118e278] ∧
    SlabRepresentation (createdSlab 392 128 0x41182000) st₂ ∧
    SlabRepresentation (createdSlab 392 128 0x41182000) st₄ := by
  obtain ⟨m₀, m₁, m₂, hstart, h₁, h₂, hi⟩ := jobSlab_two
  have hp := createdJobSlab_placed
  obtain ⟨hfit, hspace, -⟩ := jobSlab_checks
  have hr₂ := SlabStep.reach (SlabStep.reach (.start hstart) h₁) h₂
  have h₃ : SlabStep (createdSlab 392 128 0x41182000) ⟨m₂, [0x4118e278, 0x4118e400]⟩
      (.write 0x4118e278 391 0xff)
      ⟨Function.update m₂ (0x4118e278 + 391) 0xff, [0x4118e278, 0x4118e400]⟩ :=
    ⟨List.mem_cons_self, by decide, rfl, rfl⟩
  have hi₃ := hi.step hp h₃
  obtain ⟨m₄, hf, -⟩ := hi₃.freed (p := 0x4118e400) hp (by simp)
  have h₄ : SlabStep (createdSlab 392 128 0x41182000)
      ⟨Function.update m₂ (0x4118e278 + 391) 0xff, [0x4118e278, 0x4118e400]⟩
      (.free 0x4118e400) ⟨m₄, [0x4118e278]⟩ := ⟨by simp, 1, hf, rfl⟩
  refine ⟨_, _, _, _, _, hstart, h₁, h₂, rfl, h₃, h₄, rfl, ?_, ?_⟩
  · exact slab_run_representation (by decide) (by decide) hfit hspace hr₂
  · exact slab_run_representation (by decide) (by decide) hfit hspace
      (SlabStep.reach (SlabStep.reach hr₂ h₃) h₄)

end TinyKernel
