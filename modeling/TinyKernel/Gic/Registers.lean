/-
  The distributor of the interrupt controller, `kernel/gic/gic.c`.

  Priorities and targets are bytes, four to a register; groups and enables are bits, 32 to a
  register.  A setter reads the register of its id, changes the field with masks and stores the
  register.  The registers are words that read as they were stored; only in the set-enable
  registers a store sets the bits that are 1 in the stored word, and clears none.

  `readBack` reads the four fields of an interrupt out of the registers.  A setter updates one field
  of one bank (`FieldWritten`), and no two fields of the ids below 1020 share a bit: those of one
  bank are different lanes (`packed_update`), and the banks do not overlap.  So the registers
  are a table with an entry for each interrupt (`distributor_refines_table`).
-/
import TinyKernel.Lib.Bytes
import TinyKernel.Lib.CInt
import TinyKernel.Lib.Packed

namespace TinyKernel

/-- `GIC_DIST`. -/
def gicDist : Nat := 0x08000000

/-- The registers of the distributor, by address. -/
abbrev DistRegs := Nat → BitVec 32

/-- The set-enable registers. -/
def SetEnable (a : Nat) : Prop := gicDist + 0x100 ≤ a ∧ a < gicDist + 0x180

instance (a : Nat) : Decidable (SetEnable a) := inferInstanceAs (Decidable (_ ∧ _))

/-- The store of a register. -/
def storeReg (r : DistRegs) (a : Nat) (v : BitVec 32) : DistRegs :=
  Function.update r a (if SetEnable a then r a ||| v else v)

/-! ## The source -/

/-- `v << amount` of an `int`, as 32 bits.  Bits that are shifted into the sign or out of the `int`
    are no error for the kernel's compiler; a negative amount is undefined. -/
def shiftInt (v : BitVec 32) (amount : Int) : Except Fault (BitVec 32) :=
  if amount < 0 then .error .negativeShift else .ok (v <<< amount.toNat)

/-- The register `reg` of the bank at `bank`: `GICD_ISENABLER += reg`. -/
def regAddress (bank : Nat) (reg : Int) : Nat := toSize (gicDist + bank + 4 * reg)

/-- The body of the setters of a bit: `|= (1 << offset)` or `&= ~(1 << offset)`. -/
def writeBit (bank : Nat) (r : DistRegs) (id : Int) (v : Bool) : Except Fault DistRegs := do
  let offset := id.tmod 32
  let a := regAddress bank (id.tdiv 32)
  let bit ← shiftInt 1 offset
  return if v then storeReg r a (r a ||| bit) else storeReg r a (r a &&& ~~~bit)

/-- The body of the setters of a byte: `&= mask` and `|= shifted`. -/
def writeByte (bank : Nat) (r : DistRegs) (id : Int) (v : Byte) : Except Fault DistRegs := do
  let offset := id.tmod 4
  let a := regAddress bank (id.tdiv 4)
  let shifted ← shiftInt (v.setWidth 32) (8 * offset)
  let mask ← shiftInt 0xff (8 * offset)
  let r := storeReg r a (r a &&& ~~~mask)
  return storeReg r a (r a ||| shifted)

/-- `gic_distributor_enable_id`. -/
def gicDistributorEnableId (r : DistRegs) (intid : Int) : Except Fault DistRegs :=
  writeBit 0x100 r intid true

/-- `gic_distributor_set_group`. -/
def gicDistributorSetGroup (r : DistRegs) (id group : Int) : Except Fault DistRegs :=
  writeBit 0x80 r id (decide (group ≠ 0))

/-- `gic_distributor_set_priority`. -/
def gicDistributorSetPriority (r : DistRegs) (id : Int) (priority : Byte) : Except Fault DistRegs :=
  writeByte 0x400 r id priority

/-- `gic_distributor_set_target`. -/
def gicDistributorSetTarget (r : DistRegs) (id : Int) (value : Byte) : Except Fault DistRegs :=
  writeByte 0x800 r id value

/-- A call of one of them. -/
inductive DistCall
  | setPriority (id : Int) (priority : Byte)
  | setTarget (id : Int) (value : Byte)
  | setGroup (id group : Int)
  | enableId (id : Int)
  deriving DecidableEq

/-- The interrupt of a call. -/
def DistCall.id : DistCall → Int
  | .setPriority id _ => id
  | .setTarget id _ => id
  | .setGroup id _ => id
  | .enableId id => id

/-- What the call does to the registers. -/
def distCall (r : DistRegs) : DistCall → Except Fault DistRegs
  | .setPriority id priority => gicDistributorSetPriority r id priority
  | .setTarget id value => gicDistributorSetTarget r id value
  | .setGroup id group => gicDistributorSetGroup r id group
  | .enableId id => gicDistributorEnableId r id

/-- The calls one after the other. -/
def distRun (r : DistRegs) (calls : List DistCall) : Except Fault DistRegs := calls.foldlM distCall r

/-! ## The table of the interrupts -/

/-- What is set for one interrupt. -/
structure InterruptConfig where
  priority : Byte
  target : Byte
  group : BitVec 1
  enabled : BitVec 1
  deriving DecidableEq

/-- What a call does to the entry of its interrupt. -/
def DistCall.apply (c : InterruptConfig) : DistCall → InterruptConfig
  | .setPriority _ priority => { c with priority := priority }
  | .setTarget _ value => { c with target := value }
  | .setGroup _ group => { c with group := if group ≠ 0 then 1 else 0 }
  | .enableId _ => { c with enabled := 1 }

/-- What a call does to the table. -/
def tableStep (t : Nat → InterruptConfig) (call : DistCall) : Nat → InterruptConfig :=
  Function.update t call.id.toNat (call.apply (t call.id.toNat))

/-- The registers of the bank at `bank`. -/
def bankWords (r : DistRegs) (bank : Nat) : Nat → BitVec 32 := fun reg => r (gicDist + bank + 4 * reg)

/-- The entry of an interrupt, read out of the registers. -/
def readBack (r : DistRegs) (id : Nat) : InterruptConfig where
  priority := packed 8 (bankWords r 0x400) id
  target := packed 8 (bankWords r 0x800) id
  group := packed 1 (bankWords r 0x80) id
  enabled := packed 1 (bankWords r 0x100) id

/-! ## One call -/

/-- From `r` to `r'`, field `i` of the bank became `v`, and the registers changed in nothing else. -/
structure FieldWritten (w bank : Nat) (r : DistRegs) (i : Nat) (v : BitVec w) (r' : DistRegs) :
    Prop where
  bank_eq : ∀ j, packed w (bankWords r' bank) j = if j = i then v else packed w (bankWords r bank) j
  others : ∀ a, a ≠ gicDist + bank + 4 * (i / (32 / w)) → r' a = r a

/-- Replacing a register by one with another lane `i`. -/
theorem FieldWritten.update {w bank i : Nat} {r : DistRegs} {v : BitVec w} {x : BitVec 32}
    (hw : 0 < 32 / w) (hlane : ∀ k, w * (k + 1) ≤ 32 → lane w x k
      = if k = i % (32 / w) then v else lane w (r (gicDist + bank + 4 * (i / (32 / w)))) k) :
    FieldWritten w bank r i v (Function.update r (gicDist + bank + 4 * (i / (32 / w))) x) := by
  constructor
  · intro j
    refine packed_update hw (fun k hk => ?_) j fun hne => ?_
    · rw [bankWords, Function.update_self]
      exact hlane k hk
    · rw [bankWords, Function.update_of_ne (by omega)]
      rfl
  · exact fun a ha => Function.update_of_ne ha _ _

/-- A register that lies in another bank is not changed. -/
theorem FieldWritten.other {w bank i : Nat} {r r' : DistRegs} {v : BitVec w}
    (h : FieldWritten w bank r i v r') {w' bank' j : Nat}
    (hne : bank' + 4 * (j / (32 / w')) ≠ bank + 4 * (i / (32 / w))) :
    packed w' (bankWords r' bank') j = packed w' (bankWords r bank') j := by
  unfold packed bankWords
  rw [h.others _ (by omega)]

theorem regAddress_eq {bank reg : Nat} (hbank : bank < 4096) (hreg : reg < 1024) :
    regAddress bank reg = gicDist + bank + 4 * reg := by
  have hdist : gicDist = 0x08000000 := rfl
  unfold regAddress
  rw [show ((gicDist : Int) + bank + 4 * reg) = ((gicDist + bank + 4 * reg : Nat) : Int) by omega]
  exact toSize_natCast (by omega)

theorem shiftInt_natCast (v : BitVec 32) (k : Nat) : shiftInt v k = .ok (v <<< k) := by
  rw [shiftInt, if_neg (by omega), Int.toNat_natCast]

/-- **The setters of a byte** write field `i` of their bank, which has no set-enable register. -/
theorem writeByte_written {bank i : Nat} (r : DistRegs) (v : Byte) (hbank : bank < 4096)
    (hi : i < 1020) (hset : ¬ SetEnable (gicDist + bank + 4 * (i / 4))) :
    ∃ r', writeByte bank r i v = .ok r' ∧ FieldWritten 8 bank r i v r' := by
  have ha : regAddress bank ((i : Int).tdiv 4) = gicDist + bank + 4 * (i / 4) :=
    regAddress_eq hbank (show i / 4 < 1024 by omega)
  have hoffset : (8 : Int) * (i : Int).tmod 4 = ((8 * (i % 4) : Nat) : Int) := rfl
  have hmask : (0xff : BitVec 32) = (BitVec.allOnes 8).setWidth 32 := rfl
  refine ⟨Function.update r (gicDist + bank + 4 * (i / 4))
    (orLane (clearLane 8 (r (gicDist + bank + 4 * (i / 4))) (i % 4)) (i % 4) v), ?_, ?_⟩
  · simp only [writeByte, ha, hoffset, shiftInt_natCast, ok_bind, storeReg, if_neg hset,
      Function.update_self, Function.update_idem, hmask]
    rfl
  · exact FieldWritten.update (by decide) fun k hk => lane_write _ _ hk

/-- **The setters of a bit** do so too; in the set-enable registers they can set bits only. -/
theorem writeBit_written {bank i : Nat} (r : DistRegs) (v : Bool) (hbank : bank < 4096)
    (hi : i < 1020) (hset : v = true ∨ ¬ SetEnable (gicDist + bank + 4 * (i / 32))) :
    ∃ r', writeBit bank r i v = .ok r' ∧ FieldWritten 1 bank r i (if v then 1 else 0) r' := by
  have ha : regAddress bank ((i : Int).tdiv 32) = gicDist + bank + 4 * (i / 32) :=
    regAddress_eq hbank (show i / 32 < 1024 by omega)
  have hoffset : (i : Int).tmod 32 = ((i % 32 : Nat) : Int) := rfl
  have hbit : (1 : BitVec 32) <<< (i % 32) = (1 : BitVec 1).setWidth 32 <<< (1 * (i % 32)) := by
    rw [Nat.one_mul]
    rfl
  cases v with
  | true =>
    refine ⟨Function.update r (gicDist + bank + 4 * (i / 32))
      (orLane (r (gicDist + bank + 4 * (i / 32))) (i % 32) (1 : BitVec 1)), ?_, ?_⟩
    · have hagain : ∀ x y : BitVec 32, x ||| (x ||| y) = x ||| y := by
        intro x y
        rw [← BitVec.or_assoc, BitVec.or_self]
      simp only [writeBit, ha, hoffset, shiftInt_natCast, ok_bind, storeReg, hbit, if_true, hagain,
        ite_self]
      rfl
    · refine FieldWritten.update (by decide) fun k hk => ?_
      rw [lane_orLane _ _ hk]
      by_cases hk' : k = i % (32 / 1)
      · rw [if_pos hk', if_pos hk']
        exact BitVec.or_allOnes
      · rw [if_neg hk', if_neg hk']
  | false =>
    refine ⟨Function.update r (gicDist + bank + 4 * (i / 32))
      (clearLane 1 (r (gicDist + bank + 4 * (i / 32))) (i % 32)), ?_, ?_⟩
    · simp only [writeBit, ha, hoffset, shiftInt_natCast, ok_bind, storeReg, hbit,
        if_neg (hset.resolve_left Bool.false_ne_true)]
      rfl
    · refine FieldWritten.update (by decide) fun k hk => ?_
      exact lane_clearLane _ hk

section Fields

variable {r r' : DistRegs} {i j : Nat}

/-- A written priority is the priority of its interrupt, and nothing else. -/
theorem FieldWritten.readBack_priority {v : Byte} (h : FieldWritten 8 0x400 r i v r')
    (hi : i < 1020) (hj : j < 1020) :
    readBack r' j = if j = i then { readBack r j with priority := v } else readBack r j := by
  rw [readBack, h.bank_eq j, h.other (show 0x800 + 4 * (j / 4) ≠ 0x400 + 4 * (i / 4) by omega),
    h.other (show 0x80 + 4 * (j / 32) ≠ 0x400 + 4 * (i / 4) by omega),
    h.other (show 0x100 + 4 * (j / 32) ≠ 0x400 + 4 * (i / 4) by omega)]
  split <;> rfl

theorem FieldWritten.readBack_target {v : Byte} (h : FieldWritten 8 0x800 r i v r')
    (hi : i < 1020) (hj : j < 1020) :
    readBack r' j = if j = i then { readBack r j with target := v } else readBack r j := by
  rw [readBack, h.bank_eq j, h.other (show 0x400 + 4 * (j / 4) ≠ 0x800 + 4 * (i / 4) by omega),
    h.other (show 0x80 + 4 * (j / 32) ≠ 0x800 + 4 * (i / 4) by omega),
    h.other (show 0x100 + 4 * (j / 32) ≠ 0x800 + 4 * (i / 4) by omega)]
  split <;> rfl

theorem FieldWritten.readBack_group {v : BitVec 1} (h : FieldWritten 1 0x80 r i v r')
    (hi : i < 1020) :
    readBack r' j = if j = i then { readBack r j with group := v } else readBack r j := by
  rw [readBack, h.bank_eq j, h.other (show 0x400 + 4 * (j / 4) ≠ 0x80 + 4 * (i / 32) by omega),
    h.other (show 0x800 + 4 * (j / 4) ≠ 0x80 + 4 * (i / 32) by omega),
    h.other (show 0x100 + 4 * (j / 32) ≠ 0x80 + 4 * (i / 32) by omega)]
  split <;> rfl

theorem FieldWritten.readBack_enabled {v : BitVec 1} (h : FieldWritten 1 0x100 r i v r')
    (hi : i < 1020) (hj : j < 1020) :
    readBack r' j = if j = i then { readBack r j with enabled := v } else readBack r j := by
  rw [readBack, h.bank_eq j, h.other (show 0x400 + 4 * (j / 4) ≠ 0x100 + 4 * (i / 32) by omega),
    h.other (show 0x800 + 4 * (j / 4) ≠ 0x100 + 4 * (i / 32) by omega),
    h.other (show 0x80 + 4 * (j / 32) ≠ 0x100 + 4 * (i / 32) by omega)]
  split <;> rfl

end Fields

/-! ## Runs -/

/-- The registers are the table, for every interrupt. -/
def Agrees (r : DistRegs) (t : Nat → InterruptConfig) : Prop := ∀ i, i < 1020 → readBack r i = t i

theorem Agrees.step {r r' : DistRegs} {t : Nat → InterruptConfig} {call : DistCall} {i : Nat}
    (h : Agrees r t) (hid : call.id = i) (hback : ∀ j, j < 1020 →
      readBack r' j = if j = i then call.apply (readBack r j) else readBack r j) :
    Agrees r' (tableStep t call) := by
  intro j hj
  rw [hback j hj, tableStep, hid, Int.toNat_natCast, Function.update_apply, h j hj]
  by_cases hji : j = i
  · rw [if_pos hji, if_pos hji, hji]
  · rw [if_neg hji, if_neg hji]

/-- **A call** of a setter does to the registers what it does to the table. -/
theorem distCall_refines {r : DistRegs} {t : Nat → InterruptConfig} {call : DistCall}
    (h : Agrees r t) (hid : 0 ≤ call.id ∧ call.id < 1020) :
    ∃ r', distCall r call = .ok r' ∧ Agrees r' (tableStep t call) := by
  obtain ⟨i, hi⟩ : ∃ i : Nat, call.id = i := ⟨call.id.toNat, by omega⟩
  have hlt : i < 1020 := by omega
  have hdist : gicDist = 0x08000000 := rfl
  cases call with
  | setPriority id priority =>
    obtain rfl : id = i := hi
    obtain ⟨r', hret, hwritten⟩ := writeByte_written r priority (show 0x400 < 4096 by decide) hlt
      (by unfold SetEnable; omega)
    exact ⟨r', hret, h.step rfl fun j hj => hwritten.readBack_priority hlt hj⟩
  | setTarget id value =>
    obtain rfl : id = i := hi
    obtain ⟨r', hret, hwritten⟩ := writeByte_written r value (show 0x800 < 4096 by decide) hlt
      (by unfold SetEnable; omega)
    exact ⟨r', hret, h.step rfl fun j hj => hwritten.readBack_target hlt hj⟩
  | setGroup id group =>
    obtain rfl : id = i := hi
    obtain ⟨r', hret, hwritten⟩ := writeBit_written r (decide (group ≠ 0))
      (show 0x80 < 4096 by decide) hlt (Or.inr (by unfold SetEnable; omega))
    simp only [decide_eq_true_eq] at hwritten
    exact ⟨r', hret, h.step rfl fun j _ => hwritten.readBack_group hlt⟩
  | enableId id =>
    obtain rfl : id = i := hi
    obtain ⟨r', hret, hwritten⟩ := writeBit_written r true (show 0x100 < 4096 by decide) hlt
      (Or.inl rfl)
    exact ⟨r', hret, h.step rfl fun j hj => hwritten.readBack_enabled hlt hj⟩

/-- **A run** of calls does to the registers what it does to the table. -/
theorem distRun_refines : ∀ {calls : List DistCall} {r : DistRegs} {t : Nat → InterruptConfig},
    Agrees r t → (∀ call ∈ calls, 0 ≤ call.id ∧ call.id < 1020) →
    ∃ r', distRun r calls = .ok r' ∧ Agrees r' (calls.foldl tableStep t) := by
  intro calls
  induction calls with
  | nil =>
    intro r t h _
    exact ⟨r, rfl, h⟩
  | cons call calls ih =>
    intro r t h hids
    obtain ⟨r₁, hcall, h₁⟩ := distCall_refines h (hids call List.mem_cons_self)
    obtain ⟨r', hrun, h'⟩ := ih h₁ fun c hc => hids c (List.mem_cons_of_mem _ hc)
    refine ⟨r', ?_, h'⟩
    rw [distRun, List.foldlM_cons, hcall]
    exact hrun

/-! ## The values that were set last -/

/-- The priority that a call sets. -/
def DistCall.priority : DistCall → Option Byte
  | .setPriority _ priority => some priority
  | _ => none

/-- The target that a call sets. -/
def DistCall.target : DistCall → Option Byte
  | .setTarget _ value => some value
  | _ => none

/-- The group bit that a call sets. -/
def DistCall.group : DistCall → Option (BitVec 1)
  | .setGroup _ group => some (if group ≠ 0 then 1 else 0)
  | _ => none

/-- The values of one kind that the calls for interrupt `i` set, in order. -/
def valuesFor {α : Type} (value : DistCall → Option α) (calls : List DistCall) (i : Nat) : List α :=
  (calls.filter fun call => decide (call.id = (i : Int))).filterMap value

/-- The entry of interrupt `i` holds what was set last, or what it held before; it is enabled if it
    ever was. -/
structure HoldsLast (calls : List DistCall) (i : Nat) (before after : InterruptConfig) : Prop where
  priority : after.priority = (valuesFor DistCall.priority calls i).getLastD before.priority
  target : after.target = (valuesFor DistCall.target calls i).getLastD before.target
  group : after.group = (valuesFor DistCall.group calls i).getLastD before.group
  enabled : after.enabled = if DistCall.enableId i ∈ calls then 1 else before.enabled

/-- A component that a step sets or keeps holds the last value that was set. -/
theorem foldl_getLastD {σ α β : Type} {step : σ → β → σ} {g : σ → α} {value : β → Option α}
    (h : ∀ s b, g (step s b) = (value b).getD (g s)) : ∀ (bs : List β) (s : σ),
    g (bs.foldl step s) = (bs.filterMap value).getLastD (g s) := by
  intro bs
  induction bs with
  | nil =>
    intro s
    rfl
  | cons b bs ih =>
    intro s
    rw [List.foldl_cons, ih (step s b), h s b, List.filterMap_cons]
    cases value b with
    | none => rfl
    | some v => rw [List.getLastD_cons, Option.getD_some]

/-- One call, at the entry of interrupt `i`. -/
theorem tableStep_apply {call : DistCall} (hid : 0 ≤ call.id) (t : Nat → InterruptConfig) (i : Nat) :
    tableStep t call i = if call.id = i then call.apply (t i) else t i := by
  rw [tableStep, Function.update_apply]
  by_cases hi : call.id = i
  · rw [if_pos hi, if_pos (by omega), hi, Int.toNat_natCast]
  · rw [if_neg hi, if_neg (by omega)]

/-- The entry of interrupt `i` depends on the calls for it only. -/
theorem table_entry (i : Nat) : ∀ {calls : List DistCall} (t : Nat → InterruptConfig),
    (∀ call ∈ calls, 0 ≤ call.id) → calls.foldl tableStep t i
      = (calls.filter fun call => decide (call.id = (i : Int))).foldl DistCall.apply (t i) := by
  intro calls
  induction calls with
  | nil =>
    intro t _
    rfl
  | cons call calls ih =>
    intro t hids
    rw [List.foldl_cons, ih _ fun c hc => hids c (List.mem_cons_of_mem _ hc),
      tableStep_apply (hids call List.mem_cons_self), List.filter_cons]
    by_cases hi : call.id = i
    · rw [if_pos hi, if_pos (decide_eq_true hi), List.foldl_cons]
    · rw [if_neg hi, if_neg (decide_eq_true_iff.not.mpr hi)]

/-- An interrupt is enabled exactly if it was before or a call enabled it. -/
theorem table_enabled (i : Nat) : ∀ {calls : List DistCall} (t : Nat → InterruptConfig),
    (∀ call ∈ calls, 0 ≤ call.id) → (calls.foldl tableStep t i).enabled
      = if DistCall.enableId i ∈ calls then 1 else (t i).enabled := by
  intro calls
  induction calls with
  | nil =>
    intro t _
    rw [if_neg List.not_mem_nil]
    rfl
  | cons call calls ih =>
    intro t hids
    rw [List.foldl_cons, ih _ fun c hc => hids c (List.mem_cons_of_mem _ hc),
      tableStep_apply (hids call List.mem_cons_self)]
    by_cases hlater : DistCall.enableId i ∈ calls
    · rw [if_pos hlater, if_pos (List.mem_cons_of_mem _ hlater)]
    · rw [if_neg hlater]
      by_cases hnow : call = DistCall.enableId i
      · subst hnow
        rw [DistCall.id, if_pos rfl, if_pos List.mem_cons_self]
        rfl
      · rw [if_neg (fun hmem => (List.mem_cons.mp hmem).elim (fun heq => hnow heq.symm) hlater)]
        cases call with
        | enableId id => rw [DistCall.id, if_neg (fun hid => hnow (congrArg DistCall.enableId hid))]
        | setPriority => split <;> rfl
        | setTarget => split <;> rfl
        | setGroup => split <;> rfl

/-- **The table holds the values that were set last.** -/
theorem table_holdsLast {calls : List DistCall} (hids : ∀ call ∈ calls, 0 ≤ call.id)
    (t : Nat → InterruptConfig) (i : Nat) : HoldsLast calls i (t i) (calls.foldl tableStep t i) := by
  have hentry := table_entry i t hids
  constructor
  · rw [hentry]
    exact foldl_getLastD (fun c call => by cases call <;> rfl) _ (t i)
  · rw [hentry]
    exact foldl_getLastD (fun c call => by cases call <;> rfl) _ (t i)
  · rw [hentry]
    exact foldl_getLastD (fun c call => by cases call <;> rfl) _ (t i)
  · exact table_enabled i t hids

/-- **The registers refine a table of the interrupts.**  For any contents of the registers and any
    calls with ids from 0 to 1019: the calls return, the four fields of every interrupt read back as
    the table that takes the same calls, which are the values that were set last, and no further
    call changes a field of another interrupt. -/
theorem distributor_refines_table (r : DistRegs) (calls : List DistCall)
    (hids : ∀ call ∈ calls, 0 ≤ call.id ∧ call.id < 1020) :
    ∃ r', distRun r calls = .ok r' ∧
      (∀ i, i < 1020 → readBack r' i = calls.foldl tableStep (readBack r) i ∧
        HoldsLast calls i (readBack r i) (readBack r' i)) ∧
      ∀ call, 0 ≤ call.id → call.id < 1020 → ∃ r'', distCall r' call = .ok r'' ∧
        ∀ i : Nat, i < 1020 → call.id ≠ i → readBack r'' i = readBack r' i := by
  obtain ⟨r', hrun, htable⟩ := distRun_refines (t := readBack r) (fun _ _ => rfl) hids
  refine ⟨r', hrun, fun i hi => ⟨htable i hi, ?_⟩, fun call h0 hlt => ?_⟩
  · rw [htable i hi]
    exact table_holdsLast (fun call hcall => (hids call hcall).1) (readBack r) i
  · obtain ⟨r'', hcall, hstep⟩ := distCall_refines (t := readBack r') (fun _ _ => rfl) ⟨h0, hlt⟩
    refine ⟨r'', hcall, fun i hi hne => ?_⟩
    rw [hstep i hi, tableStep_apply h0, if_neg hne]

/-- The calls of the kernel at boot, for the disk's interrupt. -/
def bootCalls : List DistCall :=
  [.setPriority 79 0, .setTarget 79 1, .enableId 79, .setGroup 79 0]

/-- They leave interrupt 79 enabled in group 0, with target 1. -/
theorem distributor_refines_table_boot : ∃ r', distRun (fun _ => 0xffffffff) bootCalls = .ok r' ∧
    readBack r' 79 = ⟨0, 1, 0, 1⟩ := by
  obtain ⟨r', hrun, hback, -⟩ := distributor_refines_table (fun _ => 0xffffffff) bootCalls
    (by decide)
  refine ⟨r', hrun, ?_⟩
  rw [(hback 79 (by decide)).1]
  decide +kernel

end TinyKernel
