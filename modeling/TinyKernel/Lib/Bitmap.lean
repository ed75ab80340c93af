/-
  Bitmaps in byte memory: bit `n` of the map at `base` is bit `n % 8` of byte `base + n / 8`.

  `setBit` is the mask update `b &= ~(1 << o); b |= v << o`.  Its three laws say that it sets the
  bit it names (`bitAt_setBit_same`), keeps every other bit of the map (`bitAt_setBit_ne`) and
  touches no byte but the one that holds the bit (`setBit_of_ne`).
-/
import TinyKernel.Lib.Bytes

namespace TinyKernel

/-- Bit `n` of the bitmap at `base`. -/
def bitAt (m : Mem) (base n : Nat) : Bool := (m (base + n / 8)).getLsbD (n % 8)

/-- One byte with bit `o` replaced by `v`, by clearing the bit and or-ing the value in. -/
def maskByte (b : Byte) (o : Nat) (v : Bool) : Byte :=
  (b &&& ~~~((1 : Byte) <<< o)) ||| ((if v then (1 : Byte) else 0) <<< o)

/-- The bitmap at `base` with bit `n` replaced by `v`. -/
def setBit (m : Mem) (base n : Nat) (v : Bool) : Mem :=
  Function.update m (base + n / 8) (maskByte (m (base + n / 8)) (n % 8) v)

theorem getLsbD_one_shiftLeft (o i : Nat) (hi : i < 8) :
    ((1 : Byte) <<< o).getLsbD i = decide (i = o) := by
  rw [BitVec.getLsbD_shiftLeft]
  by_cases hio : i = o
  · subst hio
    simp [hi]
  · by_cases hlt : i < o
    · simp [hlt, hio]
    · have hne : i - o ≠ 0 := by omega
      simp [hi, hlt, hio, hne]

theorem getLsbD_maskByte (b : Byte) (o : Nat) (v : Bool) (i : Nat) (hi : i < 8) :
    (maskByte b o v).getLsbD i = if i = o then v else b.getLsbD i := by
  have hone := getLsbD_one_shiftLeft o i hi
  unfold maskByte
  rw [BitVec.getLsbD_or, BitVec.getLsbD_and, BitVec.getLsbD_not, hone]
  cases v with
  | false =>
    by_cases hio : i = o
    · simp [hio]
    · simp [hio, hi]
  | true =>
    rw [if_pos rfl, hone]
    by_cases hio : i = o
    · simp [hio]
    · simp [hio, hi]

/-- A byte tested against the mask of one bit. -/
theorem and_one_shiftLeft_ne_zero (b : Byte) (o : Nat) (ho : o < 8) :
    (b &&& ((1 : Byte) <<< o)) ≠ 0 ↔ b.getLsbD o = true := by
  constructor
  · intro hne
    by_contra hbit
    apply hne
    apply BitVec.eq_of_getLsbD_eq
    intro i hi
    rw [BitVec.getLsbD_and, getLsbD_one_shiftLeft o i hi]
    by_cases hio : i = o
    · subst hio
      simp [Bool.eq_false_iff.mpr hbit]
    · simp [hio]
  · intro hbit hz
    have h := congrArg (fun x : Byte => x.getLsbD o) hz
    simp only [BitVec.getLsbD_and, getLsbD_one_shiftLeft o o ho, hbit] at h
    simp at h

@[simp] theorem bitAt_setBit_same (m : Mem) (base n : Nat) (v : Bool) :
    bitAt (setBit m base n v) base n = v := by
  unfold bitAt setBit
  rw [Function.update_self, getLsbD_maskByte _ _ _ _ (by omega), if_pos rfl]

/-- Setting one bit leaves every other bit of the map. -/
theorem bitAt_setBit_ne {m : Mem} {base n k : Nat} {v : Bool} (h : k ≠ n) :
    bitAt (setBit m base n v) base k = bitAt m base k := by
  unfold bitAt setBit
  by_cases hbyte : base + k / 8 = base + n / 8
  · rw [hbyte, Function.update_self, getLsbD_maskByte _ _ _ _ (by omega), if_neg (by omega)]
  · rw [Function.update_of_ne hbyte]

/-- Setting a bit touches only the byte that holds it. -/
theorem setBit_of_ne {m : Mem} {base n x : Nat} {v : Bool} (h : x ≠ base + n / 8) :
    setBit m base n v x = m x :=
  Function.update_of_ne h _ _

/-- A map whose bytes are unchanged has the same bits. -/
theorem bitAt_congr {m m' : Mem} {base n : Nat} (h : m (base + n / 8) = m' (base + n / 8)) :
    bitAt m base n = bitAt m' base n := by
  unfold bitAt
  rw [h]

end TinyKernel
