/-
  Arrays of narrow fields, packed into words.

  Lane `k` of an `n`-bit word is its `w` bits from bit `w * k` on.  A lane is written by the two mask
  updates `x & ~(mask << w * k)` and `x | (v << w * k)`: the first clears the lane
  (`lane_clearLane`), the second or-s a value into it (`lane_orLane`), and neither touches another
  lane.  An array of words then is an array of fields, `n / w` in each word (`packed`), and
  replacing one lane of one word is an update of one field (`packed_update`).
-/
import Mathlib.Logic.Function.Basic

namespace TinyKernel

variable {n w : Nat}

/-- Lane `k` of a word. -/
def lane (w : Nat) (x : BitVec n) (k : Nat) : BitVec w := x.extractLsb' (w * k) w

/-- `x & ~(mask << w * k)`, for the mask of `w` ones. -/
def clearLane (w : Nat) (x : BitVec n) (k : Nat) : BitVec n :=
  x &&& ~~~((BitVec.allOnes w).setWidth n <<< (w * k))

/-- `x | (v << w * k)`. -/
def orLane (x : BitVec n) (k : Nat) (v : BitVec w) : BitVec n := x ||| (v.setWidth n <<< (w * k))

theorem lane_getLsbD (x : BitVec n) (k : Nat) {i : Nat} (hi : i < w) :
    (lane w x k).getLsbD i = x.getLsbD (w * k + i) := by
  rw [lane, BitVec.getLsbD_extractLsb', decide_eq_true hi, Bool.true_and]

/-- A value that is shifted to lane `k` has its bits there and nowhere else. -/
theorem lane_shiftLeft (v : BitVec w) {j k : Nat} (hj : w * (j + 1) ≤ n) :
    lane w (v.setWidth n <<< (w * k)) j = if j = k then v else 0 := by
  apply BitVec.eq_of_getLsbD_eq
  intro i hi
  rw [Nat.mul_succ] at hj
  rw [lane_getLsbD _ _ hi, BitVec.getLsbD_shiftLeft, BitVec.getLsbD_setWidth,
    decide_eq_true (show w * j + i < n by omega), Bool.true_and]
  rcases Nat.lt_trichotomy j k with hlt | rfl | hgt
  · -- below the lane
    have hle : w * (j + 1) ≤ w * k := Nat.mul_le_mul_left w hlt
    rw [Nat.mul_succ] at hle
    rw [if_neg (by omega), decide_eq_true (show w * j + i < w * k by omega)]
    simp
  · rw [if_pos rfl, Nat.add_sub_cancel_left, decide_eq_false (show ¬ w * j + i < w * j by omega),
      decide_eq_true (show i < n by omega)]
    simp
  · -- above the lane
    have hle : w * (k + 1) ≤ w * j := Nat.mul_le_mul_left w hgt
    rw [Nat.mul_succ] at hle
    rw [if_neg (by omega), BitVec.getLsbD_of_ge v _ (show w ≤ w * j + i - w * k by omega)]
    simp

theorem lane_and (x y : BitVec n) (k : Nat) : lane w (x &&& y) k = lane w x k &&& lane w y k := by
  apply BitVec.eq_of_getLsbD_eq
  intro i hi
  rw [lane_getLsbD _ _ hi, BitVec.getLsbD_and, BitVec.getLsbD_and, lane_getLsbD _ _ hi,
    lane_getLsbD _ _ hi]

theorem lane_or (x y : BitVec n) (k : Nat) : lane w (x ||| y) k = lane w x k ||| lane w y k := by
  apply BitVec.eq_of_getLsbD_eq
  intro i hi
  rw [lane_getLsbD _ _ hi, BitVec.getLsbD_or, BitVec.getLsbD_or, lane_getLsbD _ _ hi,
    lane_getLsbD _ _ hi]

theorem lane_not (x : BitVec n) {k : Nat} (hk : w * (k + 1) ≤ n) :
    lane w (~~~x) k = ~~~lane w x k := by
  apply BitVec.eq_of_getLsbD_eq
  intro i hi
  rw [Nat.mul_succ] at hk
  rw [lane_getLsbD _ _ hi, BitVec.getLsbD_not, BitVec.getLsbD_not, lane_getLsbD _ _ hi,
    decide_eq_true (show w * k + i < n by omega), decide_eq_true hi]

/-- Clearing a lane keeps the others. -/
theorem lane_clearLane (x : BitVec n) {j k : Nat} (hj : w * (j + 1) ≤ n) :
    lane w (clearLane w x k) j = if j = k then 0 else lane w x j := by
  rw [clearLane, lane_and, lane_not _ hj, lane_shiftLeft _ hj]
  by_cases hjk : j = k
  · rw [if_pos hjk, if_pos hjk, BitVec.not_allOnes, BitVec.and_zero]
    rfl
  · rw [if_neg hjk, if_neg hjk]
    simp

/-- Or-ing into a lane keeps the others. -/
theorem lane_orLane (x : BitVec n) (v : BitVec w) {j k : Nat} (hj : w * (j + 1) ≤ n) :
    lane w (orLane x k v) j = if j = k then lane w x j ||| v else lane w x j := by
  rw [orLane, lane_or, lane_shiftLeft _ hj]
  by_cases hjk : j = k
  · rw [if_pos hjk, if_pos hjk]
  · rw [if_neg hjk, if_neg hjk]
    simp

/-- **A lane is written** by clearing it and or-ing the value in. -/
theorem lane_write (x : BitVec n) (v : BitVec w) {j k : Nat} (hj : w * (j + 1) ≤ n) :
    lane w (orLane (clearLane w x k) k v) j = if j = k then v else lane w x j := by
  rw [lane_orLane _ _ hj, lane_clearLane _ hj]
  by_cases hjk : j = k
  · rw [if_pos hjk, if_pos hjk, if_pos hjk]
    simp
  · rw [if_neg hjk, if_neg hjk, if_neg hjk]

/-- Field `i` of an array of words with `n / w` fields in each. -/
def packed (w : Nat) (words : Nat → BitVec n) (i : Nat) : BitVec w :=
  lane w (words (i / (n / w))) (i % (n / w))

/-- **Replacing one lane of one word** updates one field. -/
theorem packed_update {words words' : Nat → BitVec n} {i : Nat} {v : BitVec w} (hw : 0 < n / w)
    (hword : ∀ k, w * (k + 1) ≤ n → lane w (words' (i / (n / w))) k
      = if k = i % (n / w) then v else lane w (words (i / (n / w))) k)
    (j : Nat) (hothers : j / (n / w) ≠ i / (n / w) → words' (j / (n / w)) = words (j / (n / w))) :
    packed w words' j = if j = i then v else packed w words j := by
  have hlane : w * (j % (n / w) + 1) ≤ n :=
    calc w * (j % (n / w) + 1) ≤ w * (n / w) := Nat.mul_le_mul_left w (Nat.mod_lt _ hw)
      _ ≤ n := Nat.mul_div_le n w
  unfold packed
  by_cases hsame : j / (n / w) = i / (n / w)
  · rw [hsame, hword _ hlane]
    by_cases hji : j = i
    · rw [if_pos hji, if_pos (by rw [hji])]
    · -- another field of the same word
      have hmod : j % (n / w) ≠ i % (n / w) := fun hmod => hji (by
        rw [← Nat.div_add_mod j (n / w), ← Nat.div_add_mod i (n / w), hsame, hmod])
      rw [if_neg hji, if_neg hmod]
  · rw [hothers hsame, if_neg (fun hji => hsame (by rw [hji]))]

end TinyKernel
