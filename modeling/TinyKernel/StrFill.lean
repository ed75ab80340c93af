/-
  `memset` with any fill value, against the byte loop that stands in the source as a comment.

  The 64-bit pattern is built by shifting and or-ing the whole `int`, not its low byte.  Byte `j` of
  the pattern is therefore the disjunction of the bytes 0 to `j` of the fill value
  (`memsetWord_getLsbD`), the sign bytes included, and it is the low byte exactly if no byte has a
  bit that the low byte lacks.  `memset_bytewise_iff` is the resulting condition; 0, and every `char`
  value below 256, meet it.
-/
import TinyKernel.Str

namespace TinyKernel

/-! ## The two loops -/

/-- The `memset` that is commented out: `for (size_t i = 0; i < n; i++) str_char[i] = fill_value`. -/
def memsetBytes (m : Mem) (str : Nat) (c : Int) (n : Nat) : Mem :=
  memsetSmall str (BitVec.ofInt 8 c) n m

/-- Every bit of `c`, as the `uint64_t` it is converted to, is a bit of its low byte. -/
def LowByteCovers (c : Int) : Prop :=
  ∀ l, l < 8 → ∀ b, b < 8 →
    (BitVec.ofInt 64 c).getLsbD (8 * l + b) = true → (BitVec.ofInt 64 c).getLsbD b = true

instance (c : Int) : Decidable (LowByteCovers c) := by
  unfold LowByteCovers
  infer_instance

/-- `memset(str, c, n)` is the byte loop, for every memory and every place. -/
structure FillsBytewise (c : Int) (n : Nat) : Prop where
  loop : ∀ (m : Mem) (str : Nat), str + n < 18446744073709551616 →
    memset m str c n = memsetBytes m str c n
  /-- Each byte of the range is `c` converted to `char`, every other byte is unchanged. -/
  bytes : ∀ (m : Mem) (str x : Nat), str + n < 18446744073709551616 →
    memset m str c n x = if str ≤ x ∧ x < str + n then BitVec.ofInt 8 c else m x

/-! ## The pattern -/

/-- The bits of the pattern after `i` rounds: bit `b` of byte `j` is set if bit `b` is set in one of
    the bytes of `c` that were shifted there. -/
theorem memsetWord_getLsbD (c : Int) (b : Nat) (hb : b < 8) : ∀ (i j : Nat), j < 8 →
    ((memsetWord c i).getLsbD (8 * j + b) = true ↔
      ∃ l, l ≤ j ∧ j < l + i ∧ (BitVec.ofInt 64 c).getLsbD (8 * l + b) = true) := by
  intro i
  induction i with
  | zero =>
    intro j _
    constructor
    · intro h
      simp [memsetWord] at h
    · rintro ⟨l, h1, h2, -⟩
      omega
  | succ i ih =>
    intro j hj
    rw [memsetWord, BitVec.getLsbD_or, Bool.or_eq_true, BitVec.getLsbD_shiftLeft]
    cases j with
    | zero =>
      -- nothing has been shifted into the lowest byte
      have hlow : 8 * 0 + b < 8 := by omega
      simp only [hlow, decide_true, Bool.not_true, Bool.and_false, Bool.false_and,
        Bool.false_eq_true, false_or]
      constructor
      · exact fun h => ⟨0, by omega, by omega, h⟩
      · rintro ⟨l, h1, -, h⟩
        rwa [show l = 0 by omega] at h
    | succ j =>
      have hhigh : ¬ 8 * (j + 1) + b < 8 := by omega
      have hin : 8 * (j + 1) + b < 64 := by omega
      have hsub : 8 * (j + 1) + b - 8 = 8 * j + b := by omega
      simp only [hhigh, hin, hsub, decide_true, decide_false, Bool.not_false, Bool.and_true,
        Bool.true_and]
      rw [ih j (by omega)]
      constructor
      · rintro (⟨l, h1, h2, h⟩ | h)
        · exact ⟨l, by omega, by omega, h⟩
        · exact ⟨j + 1, by omega, by omega, h⟩
      · rintro ⟨l, h1, h2, h⟩
        rcases Nat.lt_or_eq_of_le h1 with hlt | heq
        · exact Or.inl ⟨l, by omega, by omega, h⟩
        · exact Or.inr (heq ▸ h)

/-- `(char) c` is the low byte of `c` as a `uint64_t`. -/
theorem ofInt_low (c : Int) : BitVec.ofInt 8 c = (BitVec.ofInt 64 c).extractLsb' 0 8 := by
  apply BitVec.eq_of_toNat_eq
  rw [BitVec.extractLsb'_toNat, BitVec.toNat_ofInt, BitVec.toNat_ofInt, Nat.shiftRight_zero]
  omega

/-- The pattern consists of the low byte exactly if that covers the others. -/
theorem memsetWord_bytes_iff (c : Int) :
    (∀ j, j < 8 → (memsetWord c 8).extractLsb' (8 * j) 8 = BitVec.ofInt 8 c) ↔ LowByteCovers c := by
  have hpattern : ∀ j, j < 8 → ∀ b, b < 8 → ((memsetWord c 8).getLsbD (8 * j + b) = true ↔
      ∃ l, l ≤ j ∧ (BitVec.ofInt 64 c).getLsbD (8 * l + b) = true) := by
    intro j hj b hb
    rw [memsetWord_getLsbD c b hb 8 j hj]
    constructor
    · rintro ⟨l, h1, -, h⟩
      exact ⟨l, h1, h⟩
    · rintro ⟨l, h1, h⟩
      exact ⟨l, h1, by omega, h⟩
  have hbit : ∀ (w : Word) (k b : Nat), b < 8 →
      (w.extractLsb' k 8).getLsbD b = w.getLsbD (k + b) := by
    intro w k b hb
    rw [BitVec.getLsbD_extractLsb', decide_eq_true hb, Bool.true_and]
  rw [ofInt_low]
  constructor
  · intro hall l hl b hb hset
    have hsame := congrArg (fun v => v.getLsbD b) (hall l hl)
    simp only [hbit _ _ _ hb, Nat.zero_add] at hsame
    rw [← hsame, hpattern l hl b hb]
    exact ⟨l, Nat.le_refl _, hset⟩
  · intro hcover j hj
    apply BitVec.eq_of_getLsbD_eq
    intro b hb
    rw [hbit _ _ _ hb, hbit _ _ _ hb, Nat.zero_add, Bool.eq_iff_iff, hpattern j hj b hb]
    constructor
    · rintro ⟨l, hl, hset⟩
      exact hcover l (by omega) b hb hset
    · exact fun hset => ⟨0, Nat.zero_le _, by simpa using hset⟩

/-! ## The fill -/

/-- `memset`: the pattern on the whole words, the low byte on the rest. -/
theorem memset_apply (m : Mem) (c : Int) {str n : Nat} (hn : n < 2147483648)
    (hs : str + n < 18446744073709551616) (x : Nat) :
    memset m str c n x =
      if str ≤ x ∧ x < str + 8 * (n / 8) then (memsetWord c 8).extractLsb' (8 * ((x - str) % 8)) 8
      else if str ≤ x ∧ x < str + n then BitVec.ofInt 8 c else m x := by
  have hbig : toInt32 (n / 8 : Nat) = (n / 8 : Nat) :=
    toInt32_of_range (by omega) (by omega)
  have hsmall : toInt32 ((n : Int) - (n / 8 : Nat) * 8) = (n % 8 : Nat) := by
    rw [toInt32_of_range (by omega) (by omega)]
    omega
  have hptr : toSize ((str : Int) + ((n / 8 : Nat) : Int) * 8) = str + 8 * (n / 8) := by
    unfold toSize
    omega
  simp only [memset, hbig, hsmall, hptr, Int.toNat_natCast]
  rw [memsetSmall_apply, memsetBig_apply]
  by_cases hword : str ≤ x ∧ x < str + 8 * (n / 8)
  · rw [if_neg (by omega), if_pos hword, if_pos hword]
  · rw [if_neg hword]
    by_cases htail : str + 8 * (n / 8) ≤ x ∧ x < str + 8 * (n / 8) + n % 8
    · rw [if_pos htail, if_neg hword, if_pos (by omega)]
    · rw [if_neg htail, if_neg hword, if_neg (by omega)]

/-- The byte loop sets each byte of the range to `(char) c`. -/
theorem memsetBytes_apply (m : Mem) (str : Nat) (c : Int) (n x : Nat) :
    memsetBytes m str c n x = if str ≤ x ∧ x < str + n then BitVec.ofInt 8 c else m x :=
  memsetSmall_apply str (BitVec.ofInt 8 c) m n x

/-- **`memset` is the byte loop** for exactly the fill values whose low byte covers the others, and
    for every fill value while there is no whole word to fill.  The word that is stored eight bytes
    at a time is made by shifting and or-ing all of `c`, where the loop for the rest stores its low
    byte. -/
theorem memset_bytewise_iff (c : Int) (n : Nat) (hn : n < 2147483648) :
    FillsBytewise c n ↔ n < 8 ∨ LowByteCovers c := by
  constructor
  · intro h
    rcases Nat.lt_or_ge n 8 with hfew | hmany
    · exact Or.inl hfew
    · refine Or.inr ((memsetWord_bytes_iff c).mp fun j hj => ?_)
      have hbyte := h.bytes (fun _ => 0) 0 j (by omega)
      rw [memset_apply _ c hn (by omega), if_pos (by omega), if_pos (by omega)] at hbyte
      rwa [show (j - 0) % 8 = j by omega] at hbyte
  · intro hcond
    have hbytes : ∀ (m : Mem) (str x : Nat), str + n < 18446744073709551616 →
        memset m str c n x = if str ≤ x ∧ x < str + n then BitVec.ofInt 8 c else m x := by
      intro m str x hs
      rw [memset_apply m c hn hs]
      by_cases hword : str ≤ x ∧ x < str + 8 * (n / 8)
      · have hcover := hcond.resolve_left (by omega)
        rw [if_pos hword, if_pos (by omega)]
        exact (memsetWord_bytes_iff c).mpr hcover _ (by omega)
      · rw [if_neg hword]
    constructor
    · intro m str hs
      funext x
      rw [hbytes m str x hs, memsetBytes_apply]
    · exact hbytes

/-- Sixteen bytes of 0 and of -1 are filled like the loop does, eight bytes of -2 are not. -/
theorem memset_bytewise_zero : (FillsBytewise 0 16 ↔ 16 < 8 ∨ LowByteCovers 0) ∧
    FillsBytewise 0 16 ∧ FillsBytewise (-1) 16 ∧ ¬ FillsBytewise (-2) 8 := by
  refine ⟨memset_bytewise_iff 0 16 (by decide), ?_, ?_, ?_⟩
  · exact (memset_bytewise_iff 0 16 (by decide)).mpr (Or.inr (by decide))
  · exact (memset_bytewise_iff (-1) 16 (by decide)).mpr (Or.inr (by decide))
  · exact fun h => absurd ((memset_bytewise_iff (-2) 8 (by decide)).mp h) (by decide)

/-- 256 is 0 as a `char`, but the second byte of the range becomes 1. -/
theorem memset_not_bytewise : ¬ FillsBytewise 256 8 ∧
    memset (fun _ => 0) 0 256 8 1 = 1 ∧ memsetBytes (fun _ => 0) 0 256 8 1 = 0 := by
  have hword : memset (fun _ => 0) 0 256 8 1 = 1 := by decide +kernel
  have hbyte : memsetBytes (fun _ => 0) 0 256 8 1 = 0 := by decide +kernel
  refine ⟨fun h => ?_, hword, hbyte⟩
  rw [h.loop _ 0 (by decide), hbyte] at hword
  exact absurd hword (by decide)

end TinyKernel
