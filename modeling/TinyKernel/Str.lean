/-
  The memory and string routines of `kernel/string.c` that the allocators, the job table and
  the file system call.

  `memset` keeps the word-wise shape of the source: the fill value is replicated into a
  64-bit word by eight shift-and-or rounds, `n / 8` words are stored, and the rest byte by
  byte.  `memset_zero_apply` is all its callers need: filling with 0 clears exactly the `n` bytes.
  (For other fill values the replicated word need not consist of equal bytes.)

  `memcpy` copies between two different objects, which is how every caller uses it; a copy
  inside one object goes through `memcpyWithin`, which keeps the byte order of the source loop.
-/
import Mathlib.Data.List.GetD
import TinyKernel.Lib.Bytes
import TinyKernel.Lib.CInt

namespace TinyKernel

/-! ## `memset` -/

/-- `big_c`: eight rounds of `big_c <<= 8; big_c |= c`, with `c` converted to `uint64_t`. -/
def memsetWord (c : Int) : Nat → Word
  | 0 => 0
  | i + 1 => (memsetWord c i <<< 8) ||| BitVec.ofInt 64 c

/-- The word loop of `memset`: `for (i = 0; i < n; i++) big_pointer[i] = big_c`. -/
def memsetBig (str : Nat) (w : Word) : Nat → Mem → Mem
  | 0, m => m
  | i + 1, m => store64 (memsetBig str w i m) (str + 8 * i) w

/-- The byte loop of `memset`: `for (i = 0; i < n; i++) small_pointer[i] = c`. -/
def memsetSmall (ptr : Nat) (c : Byte) : Nat → Mem → Mem
  | 0, m => m
  | i + 1, m => Function.update (memsetSmall ptr c i m) (ptr + i) c

/-- `memset(str, c, n)`. -/
def memset (m : Mem) (str : Nat) (c : Int) (n : Nat) : Mem :=
  let bigWrites := toInt32 (n / 8 : Nat)
  let smallWrites := toInt32 ((n : Int) - bigWrites * 8)
  let m := memsetBig str (memsetWord c 8) bigWrites.toNat m
  memsetSmall (toSize (str + bigWrites * 8)) (BitVec.ofInt 8 c) smallWrites.toNat m

theorem memsetWord_zero (i : Nat) : memsetWord 0 i = 0 := by
  induction i with
  | zero => rfl
  | succ i ih =>
    rw [memsetWord, ih]
    rfl

/-- The byte `j` of a stored word. -/
theorem store64_byte (m : Mem) (a j : Nat) (w : Word) (hj : j < 8) :
    store64 m a w (a + j) = w.extractLsb' (8 * j) 8 := by
  rw [store64, storeNat, if_pos (by omega), Nat.add_sub_cancel_left, BitVec.extractLsb',
    Nat.shiftRight_eq_div_pow, Nat.pow_mul]

/-- The word loop writes the pattern over and over. -/
theorem memsetBig_apply (str : Nat) (w : Word) (m : Mem) (k x : Nat) :
    memsetBig str w k m x
      = if str ≤ x ∧ x < str + 8 * k then w.extractLsb' (8 * ((x - str) % 8)) 8 else m x := by
  induction k with
  | zero => rw [memsetBig, if_neg (by omega)]
  | succ k ih =>
    rw [memsetBig]
    by_cases hin : str + 8 * k ≤ x ∧ x < str + 8 * k + 8
    · obtain ⟨j, rfl⟩ : ∃ j, x = str + 8 * k + j := ⟨x - (str + 8 * k), by omega⟩
      rw [store64_byte _ _ _ _ (by omega), if_pos (by omega),
        show (str + 8 * k + j - str) % 8 = j by omega]
    · rw [store64_of_disjoint (by omega), ih]
      by_cases hlow : str ≤ x ∧ x < str + 8 * k
      · rw [if_pos hlow, if_pos (by omega)]
      · rw [if_neg hlow, if_neg (by omega)]

/-- With a zero word it clears the bytes it covers. -/
theorem memsetBig_zero_apply (str : Nat) (m : Mem) (k x : Nat) :
    memsetBig str 0 k m x = if str ≤ x ∧ x < str + 8 * k then 0 else m x := by
  have hzero : ∀ j, (0 : Word).extractLsb' j 8 = 0 := fun j => BitVec.extractLsb'_zero
  rw [memsetBig_apply, hzero]

/-- The byte loop sets the bytes it covers and no other. -/
theorem memsetSmall_apply (ptr : Nat) (c : Byte) (m : Mem) (k x : Nat) :
    memsetSmall ptr c k m x = if ptr ≤ x ∧ x < ptr + k then c else m x := by
  induction k with
  | zero => rw [memsetSmall, if_neg (by omega)]
  | succ k ih =>
    rw [memsetSmall]
    by_cases hx : x = ptr + k
    · subst hx
      rw [Function.update_self, if_pos (by omega)]
    · rw [Function.update_of_ne hx, ih]
      by_cases hlow : ptr ≤ x ∧ x < ptr + k
      · rw [if_pos hlow, if_pos (by omega)]
      · rw [if_neg hlow, if_neg (by omega)]

/-- **`memset` with 0** clears exactly the `n` bytes from `str`. -/
theorem memset_zero_apply (m : Mem) {str n : Nat} (hn : n < 2147483648)
    (hs : str + n < 18446744073709551616) (x : Nat) :
    memset m str 0 n x = if str ≤ x ∧ x < str + n then 0 else m x := by
  have hbig : toInt32 (n / 8 : Nat) = (n / 8 : Nat) :=
    toInt32_of_range (by omega) (by omega)
  have hsmall : toInt32 ((n : Int) - (n / 8 : Nat) * 8) = (n % 8 : Nat) := by
    rw [toInt32_of_range (by omega) (by omega)]; omega
  have hptr : toSize ((str : Int) + ((n / 8 : Nat) : Int) * 8) = str + 8 * (n / 8) := by
    unfold toSize; omega
  simp only [memset, hbig, hsmall, hptr, Int.toNat_natCast, memsetWord_zero]
  rw [memsetSmall_apply, memsetBig_zero_apply]
  by_cases h1 : str + 8 * (n / 8) ≤ x ∧ x < str + 8 * (n / 8) + n % 8
  · rw [if_pos h1, if_pos (by omega)]
    rfl
  · rw [if_neg h1]
    by_cases h2 : str ≤ x ∧ x < str + 8 * (n / 8)
    · rw [if_pos h2, if_pos (by omega)]
    · rw [if_neg h2, if_neg (by omega)]

/-! ## `memcpy` -/

/-- `memcpy(dest + d, src + s, n)` for two different objects `dest` and `src`. -/
def memcpy (dest : Mem) (d : Nat) (src : Mem) (s : Nat) : Nat → Mem
  | 0 => dest
  | i + 1 => Function.update (memcpy dest d src s i) (d + i) (src (s + i))

/-- `memcpy` copies exactly `n` bytes and touches no other. -/
theorem memcpy_apply (dest : Mem) (d : Nat) (src : Mem) (s n x : Nat) :
    memcpy dest d src s n x = if d ≤ x ∧ x < d + n then src (s + (x - d)) else dest x := by
  induction n with
  | zero => rw [memcpy, if_neg (by omega)]
  | succ n ih =>
    rw [memcpy]
    by_cases hx : x = d + n
    · subst hx
      rw [Function.update_self, if_pos (by omega), show d + n - d = n by omega]
    · rw [Function.update_of_ne hx, ih]
      by_cases hlow : d ≤ x ∧ x < d + n
      · rw [if_pos hlow, if_pos (by omega)]
      · rw [if_neg hlow, if_neg (by omega)]

/-- `memcpy(p + d, p + s, n)` inside one object, byte after byte in the order of the loop. -/
def memcpyWithin (p : Mem) (d s : Nat) : Nat → Mem
  | 0 => p
  | i + 1 => Function.update (memcpyWithin p d s i) (d + i) (memcpyWithin p d s i (s + i))

/-! ## `strncpy` -/

/-- `strncpy(dest, src, n)` from position `i` on: at most `n` bytes and then a terminator, which
    is the byte AFTER the `n`-th when `src` is that long. -/
def strncpy (src : Mem) : Nat → Nat → Mem → Mem
  | i, 0, dest => Function.update dest i 0
  | i, n + 1, dest =>
    if src i = 0 then Function.update dest i 0
    else strncpy src (i + 1) n (Function.update dest i (src i))

/-! ## `strcmp` and `strcpy` -/

/-- `strcmp(s1, s2)` for the string `s1` with these characters and for `s2` at `q`. -/
def strcmp : List Byte → Mem → Nat → Int
  | [], m, q => 0 - (m q).toNat
  | c :: s, m, q => if c = m q then strcmp s m (q + 1) else (c.toNat : Int) - (m q).toNat

/-- `strcpy(dest, src)` of a string with these characters. -/
def strcpy : List Byte → Mem → Nat → Mem
  | [], m, dest => Function.update m dest 0
  | c :: s, m, dest => strcpy s (Function.update m dest c) (dest + 1)

/-- `strcpy` copies the characters and the terminator, however many they are. -/
theorem strcpy_apply : ∀ (s : List Byte) (m : Mem) (dest x : Nat), strcpy s m dest x
    = if dest ≤ x ∧ x ≤ dest + s.length then s.getD (x - dest) 0 else m x := by
  intro s
  induction s with
  | nil =>
    intro m dest x
    rw [strcpy, List.length_nil]
    by_cases hx : x = dest
    · subst hx
      rw [Function.update_self, if_pos (by omega)]
      rfl
    · rw [Function.update_of_ne hx, if_neg (by omega)]
  | cons c s ih =>
    intro m dest x
    rw [strcpy, ih, List.length_cons]
    by_cases hx : x = dest
    · subst hx
      rw [if_neg (by omega), if_pos (by omega), Function.update_self, Nat.sub_self]
      rfl
    · rw [Function.update_of_ne hx]
      by_cases hin : dest + 1 ≤ x ∧ x ≤ dest + 1 + s.length
      · rw [if_pos hin, if_pos (by omega), show x - dest = x - (dest + 1) + 1 by omega,
          List.getD_cons_succ]
      · rw [if_neg hin, if_neg (by omega)]

/-! ## C strings -/

/-- The C string at `p` has the characters `s`. -/
structure CStringAt (m : Mem) (p : Nat) (s : List Byte) : Prop where
  nonzero : 0 ∉ s
  /-- The characters, and the terminator behind them. -/
  bytes : ∀ i, i ≤ s.length → m (p + i) = s.getD i 0

namespace CStringAt

variable {m : Mem} {p : Nat} {s t : List Byte}

theorem stop (h : CStringAt m p s) : m (p + s.length) = 0 := by
  rw [h.bytes _ (Nat.le_refl _), List.getD_eq_default _ _ (Nat.le_refl _)]

theorem getElem (h : CStringAt m p s) {i : Nat} (hi : i < s.length) : m (p + i) = s[i] := by
  rw [h.bytes i (Nat.le_of_lt hi), List.getD_eq_getElem _ _ hi]

/-- The rest of a string is a string. -/
theorem drop (h : CStringAt m p (s ++ t)) : CStringAt m (p + s.length) t := by
  constructor
  · intro hzero
    exact h.nonzero (List.mem_append_right _ hzero)
  · intro i hi
    rw [Nat.add_assoc, h.bytes _ (by rw [List.length_append]; omega),
      List.getD_append_right _ _ _ _ (by omega), Nat.add_sub_cancel_left]

/-- Every list of characters is a string of some memory. -/
theorem exists_mem (hs : 0 ∉ s) : CStringAt (fun x => s.getD x 0) 0 s :=
  ⟨hs, fun i _ => by rw [Nat.zero_add]⟩

/-- The string with one more character in front. -/
theorem cons_iff {c : Byte} : CStringAt m p (c :: s) ↔ c ≠ 0 ∧ m p = c ∧ CStringAt m (p + 1) s := by
  constructor
  · intro h
    exact ⟨fun hzero => h.nonzero (hzero ▸ List.mem_cons_self), h.bytes 0 (Nat.zero_le _),
      CStringAt.drop (s := [c]) h⟩
  · rintro ⟨hc, hfirst, h⟩
    constructor
    · rw [List.mem_cons, not_or]
      exact ⟨Ne.symm hc, h.nonzero⟩
    · intro i hi
      cases i with
      | zero => exact hfirst
      | succ i =>
        rw [show p + (i + 1) = p + 1 + i by omega, List.getD_cons_succ]
        exact h.bytes i (Nat.le_of_succ_le_succ hi)

theorem nil_iff : CStringAt m p [] ↔ m p = 0 := by
  constructor
  · exact fun h => h.bytes 0 (Nat.le_refl _)
  · intro hzero
    refine ⟨List.not_mem_nil, fun i hi => ?_⟩
    obtain rfl := Nat.le_zero.mp hi
    exact hzero

/-- There is one string at a place. -/
theorem unique : ∀ {s t : List Byte} {p : Nat}, CStringAt m p s → CStringAt m p t → s = t := by
  intro s
  induction s with
  | nil =>
    intro t p hs ht
    cases t with
    | nil => rfl
    | cons d t =>
      obtain ⟨hd, hfirst, -⟩ := cons_iff.mp ht
      exact absurd (hfirst.symm.trans (nil_iff.mp hs)) hd
  | cons c s ih =>
    intro t p hs ht
    obtain ⟨hc, hfirst, hs⟩ := cons_iff.mp hs
    cases t with
    | nil => exact absurd (hfirst.symm.trans (nil_iff.mp ht)) hc
    | cons d t =>
      obtain ⟨-, hsame, ht⟩ := cons_iff.mp ht
      rw [hfirst.symm.trans hsame, ih hs ht]

end CStringAt

/-- **`strcmp` is 0 exactly if the second string has the characters of the first.** -/
theorem strcmp_eq_zero {m : Mem} : ∀ {s : List Byte} {q : Nat}, 0 ∉ s →
    (strcmp s m q = 0 ↔ CStringAt m q s) := by
  intro s
  induction s with
  | nil =>
    intro q _
    rw [strcmp, CStringAt.nil_iff]
    constructor
    · intro hdiff
      exact BitVec.eq_of_toNat_eq (show (m q).toNat = 0 by omega)
    · intro hzero
      rw [hzero]
      rfl
  | cons c s ih =>
    intro q hs
    rw [List.mem_cons, not_or] at hs
    rw [strcmp, CStringAt.cons_iff]
    by_cases hc : c = m q
    · rw [if_pos hc, ih hs.2]
      exact ⟨fun h => ⟨Ne.symm hs.1, hc.symm, h⟩, fun h => h.2.2⟩
    · have hne : c.toNat ≠ (m q).toNat := fun heq => hc (BitVec.eq_of_toNat_eq heq)
      rw [if_neg hc]
      constructor
      · intro hdiff
        omega
      · rintro ⟨-, hsame, -⟩
        exact absurd hsame.symm hc

/-- Two strings compare equal exactly if they are. -/
theorem strcmp_eq_zero_iff {m : Mem} {s t : List Byte} {q : Nat} (hs : 0 ∉ s)
    (ht : CStringAt m q t) : strcmp s m q = 0 ↔ t = s := by
  rw [strcmp_eq_zero hs]
  exact ⟨fun h => ht.unique h, fun h => h ▸ ht⟩

end TinyKernel
