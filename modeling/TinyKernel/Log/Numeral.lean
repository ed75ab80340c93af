/-
  `uint64_to_string` of `kernel/log.c`.

  The division loop stores the digits in a local array of 50 bytes, the last one first, and `strrev`
  turns them round.  `numeral` is the numeral that this is meant to be: `Nat.digits` in the
  characters of `digitChars`, or "0".  `uint64ToString_eq` says that the code writes it, whatever
  the local array held; `uint64_to_string_faithful` reads it back.
-/
import Mathlib.Data.Nat.Digits.Lemmas
import TinyKernel.StrArray

namespace TinyKernel

/-- A character of the source as a byte. -/
def chr (c : Char) : Byte := BitVec.ofNat 8 c.toNat

/-! ## The source -/

/-- `mod < 10 ? mod + '0' : mod - 10 + 'a'`, stored in a `char`. -/
def modChar (mod : Int) : Byte := BitVec.ofInt 8 (if mod < 10 then mod + 48 else mod - 10 + 97)

/-- `while (num > 0)`, with `room` bytes of the array left behind `i`: the array and `i`. -/
def uint64Digits (base : Nat) : Nat → Mem → Nat → Nat → Except Fault (Mem × Nat)
  | 0, buffer, i, num => if 0 < num then .error .outOfBounds else .ok (buffer, i)
  | room + 1, buffer, i, num =>
    if 0 < num then
      let mod := toInt32 (num % base : Nat)
      uint64Digits base room (Function.update buffer i (modChar mod)) (i + 1) (num / base)
    else .ok (buffer, i)

/-- `uint64_to_string(str + p, num, base)`: `str` is an array of `size` bytes, `stack` what `buffer`
    holds at first. -/
def uint64ToString (size : Nat) (str : Mem) (p : Nat) (num : Word) (base : Nat) (stack : Mem) :
    Except Fault Mem :=
  if base = 0 then .error .divisionByZero
  else do
    let (buffer, i) :=
      if num.toNat = 0 then (Function.update stack 0 (chr '0'), 1) else (stack, 0)
    let (buffer, i) ← uint64Digits base (50 - i) buffer i num.toNat
    let buffer ← storeIn 50 buffer i 0
    let buffer ← strrev 50 buffer
    let s ← stringIn buffer 50 0
    strcpyIn size s str p

/-! ## Numerals -/

/-- The digits up to base 16. -/
def digitChars : List Byte :=
  [ '0', '1', '2', '3', '4', '5', '6', '7', '8', '9', 'a', 'b', 'c', 'd', 'e', 'f'].map chr

/-- The character of a digit. -/
def digitChar (d : Nat) : Byte := digitChars.getD d 0

/-- The digits of `n`, the last one first; 0 has one digit. -/
def numeralDigits (base n : Nat) : List Nat := if n = 0 then [0] else Nat.digits base n

/-- The numeral of `n`. -/
def numeral (base n : Nat) : List Byte := ((numeralDigits base n).map digitChar).reverse

/-- The digit that a character stands for. -/
def charDigit (c : Byte) : Nat := digitChars.idxOf c

/-- The value of a numeral, read from left to right. -/
def readNumeral (base : Nat) (s : List Byte) : Nat := s.foldl (fun v c => base * v + charDigit c) 0

/-- `s` is the numeral of `n` in base `base`. -/
structure FaithfulNumeral (base n : Nat) (s : List Byte) : Prop where
  nonempty : s ≠ []
  /-- Every character is a digit of the base. -/
  digits : ∀ c, c ∈ s → c ∈ digitChars.take base
  /-- A leading zero is the whole numeral, and the number is 0. -/
  leading : s.head? = some (chr '0') → n = 0 ∧ s = [chr '0']
  value : readNumeral base s = n

theorem modChar_eq : ∀ d : Nat, d < 16 → modChar d = digitChar d := by decide

theorem digitChar_ne_zero : ∀ d, d < 16 → digitChar d ≠ 0 := by decide

theorem charDigit_digitChar : ∀ d, d < 16 → charDigit (digitChar d) = d := by decide

theorem digitChar_mem {base d : Nat} (hbase : base ≤ 16) (hd : d < base) :
    digitChar d ∈ digitChars.take base := by
  have hlen : digitChars.length = 16 := rfl
  rw [digitChar, List.getD_eq_getElem _ _ (by omega), List.mem_take_iff_getElem]
  exact ⟨d, by omega, rfl⟩

section Numerals

variable {base : Nat}

theorem numeralDigits_lt (h1 : 1 < base) {n d : Nat} (hd : d ∈ numeralDigits base n) : d < base := by
  unfold numeralDigits at hd
  split at hd
  · rw [List.mem_singleton] at hd
    omega
  · exact Nat.digits_lt_base h1 hd

theorem numeralDigits_ne_nil (n : Nat) : numeralDigits base n ≠ [] := by
  unfold numeralDigits
  split
  · exact List.cons_ne_nil 0 []
  · exact Nat.digits_ne_nil_iff_ne_zero.mpr ‹_›

/-- A 64-bit number has at most 20 digits. -/
theorem numeralDigits_length_le (h10 : 10 ≤ base) {n : Nat} (hn : n < 18446744073709551616) :
    (numeralDigits base n).length ≤ 20 := by
  unfold numeralDigits
  split
  · rw [List.length_singleton]
    omega
  · rw [Nat.digits_length_le_iff (by omega)]
    calc n < 10 ^ 20 := by omega
      _ ≤ base ^ 20 := Nat.pow_le_pow_left h10 20

theorem numeral_length (n : Nat) : (numeral base n).length = (numeralDigits base n).length := by
  rw [numeral, List.length_reverse, List.length_map]

theorem numeral_length_pos (n : Nat) : 0 < (numeral base n).length := by
  rw [numeral_length]
  exact List.length_pos_of_ne_nil (numeralDigits_ne_nil n)

theorem numeral_nonzero (h1 : 1 < base) (h16 : base ≤ 16) (n : Nat) : 0 ∉ numeral base n := by
  intro hzero
  rw [numeral, List.mem_reverse, List.mem_map] at hzero
  obtain ⟨d, hd, hchar⟩ := hzero
  have hlt := numeralDigits_lt h1 hd
  exact digitChar_ne_zero d (by omega) hchar

/-- Reading a list of digits from left to right. -/
theorem readNumeral_reverse : ∀ l : List Nat, (∀ d, d ∈ l → d < 16) →
    readNumeral base (l.map digitChar).reverse = Nat.ofDigits base l := by
  intro l
  induction l with
  | nil =>
    intro _
    rfl
  | cons d l ih =>
    intro hall
    have hread := ih fun e he => hall e (List.mem_cons_of_mem d he)
    rw [readNumeral] at hread ⊢
    rw [List.map_cons, List.reverse_cons, List.foldl_append, hread, Nat.ofDigits_cons,
      List.foldl_cons, List.foldl_nil, charDigit_digitChar d (hall d List.mem_cons_self)]
    exact Nat.add_comm _ _

/-- **The numeral of a number** is one. -/
theorem numeral_faithful (h1 : 1 < base) (h16 : base ≤ 16) (n : Nat) :
    FaithfulNumeral base n (numeral base n) := by
  have hlt : ∀ d, d ∈ numeralDigits base n → d < base := fun d => numeralDigits_lt h1
  constructor
  · exact List.ne_nil_of_length_pos (numeral_length_pos n)
  · intro c hc
    rw [numeral, List.mem_reverse, List.mem_map] at hc
    obtain ⟨d, hd, rfl⟩ := hc
    exact digitChar_mem h16 (hlt d hd)
  · intro hhead
    rw [numeral, List.head?_reverse, List.getLast?_map] at hhead
    by_cases hn : n = 0
    · subst hn
      exact ⟨rfl, rfl⟩
    · -- the first digit is the last of `Nat.digits`, which is not 0
      have hne := (Nat.digits_ne_nil_iff_ne_zero (b := base)).mpr hn
      have hdigits : numeralDigits base n = Nat.digits base n := if_neg hn
      rw [hdigits, List.getLast?_eq_some_getLast hne, Option.map_some] at hhead
      have hlast := hlt ((Nat.digits base n).getLast hne)
        (by rw [hdigits]; exact List.getLast_mem hne)
      have hvalue := congrArg charDigit (Option.some.inj hhead)
      rw [charDigit_digitChar _ (by omega)] at hvalue
      exact absurd hvalue (Nat.getLast_digit_ne_zero base hn)
  · rw [numeral, readNumeral_reverse _ fun d hd => Nat.lt_of_lt_of_le (hlt d hd) h16]
    unfold numeralDigits
    split
    · rename_i hzero
      rw [hzero, Nat.ofDigits_singleton]
    · exact Nat.ofDigits_digits base n

end Numerals

/-! ## The conversion -/

/-- **The division loop** stores the digits one behind the other, and stays in the array as long as
    that has room for them. -/
theorem uint64Digits_spec {base : Nat} (h1 : 1 < base) (h16 : base ≤ 16) : ∀ (room num : Nat)
    (buffer : Mem) (i : Nat), (Nat.digits base num).length ≤ room →
    ∃ buffer', uint64Digits base room buffer i num
        = .ok (buffer', i + (Nat.digits base num).length) ∧
      ∀ x, buffer' x = if i ≤ x ∧ x < i + (Nat.digits base num).length
        then digitChar ((Nat.digits base num).getD (x - i) 0) else buffer x := by
  intro room
  induction room with
  | zero =>
    intro num buffer i hroom
    have hnum : num = 0 := by
      by_contra hne
      exact (Nat.digits_ne_nil_iff_ne_zero (b := base)).mpr hne
        (List.length_eq_zero_iff.mp (Nat.le_zero.mp hroom))
    rw [hnum, Nat.digits_zero]
    refine ⟨buffer, rfl, fun x => ?_⟩
    rw [List.length_nil, if_neg (by omega)]
  | succ room ih =>
    intro num buffer i hroom
    rw [uint64Digits]
    by_cases hnum : 0 < num
    · have hdigits := Nat.digits_def' h1 hnum
      have hmod : num % base < base := Nat.mod_lt num (by omega)
      have hint : toInt32 (num % base : Nat) = (num % base : Nat) :=
        toInt32_of_range (by omega) (by omega)
      rw [hdigits, List.length_cons] at hroom ⊢
      obtain ⟨buffer', hloop, hall⟩ := ih (num / base)
        (Function.update buffer i (digitChar (num % base))) (i + 1) (by omega)
      refine ⟨buffer', ?_, fun x => ?_⟩
      · rw [if_pos hnum, hint]
        dsimp only
        rw [modChar_eq _ (by omega), hloop, Nat.add_assoc, Nat.add_comm 1]
      · rw [hall x]
        by_cases hx : x = i
        · subst hx
          rw [if_neg (by omega), if_pos (by omega), Function.update_self, Nat.sub_self,
            List.getD_cons_zero]
        · by_cases hin : i + 1 ≤ x ∧ x < i + 1 + (Nat.digits base (num / base)).length
          · rw [if_pos hin, if_pos (by omega), show x - i = x - (i + 1) + 1 by omega,
              List.getD_cons_succ]
          · rw [if_neg hin, if_neg (by omega), Function.update_of_ne hx]
    · rw [if_neg hnum, show num = 0 by omega, Nat.digits_zero]
      refine ⟨buffer, rfl, fun x => ?_⟩
      rw [List.length_nil, if_neg (by omega)]

/-- The local array before `strrev`: a string of the digits. -/
theorem uint64Digits_string {base : Nat} (h1 : 1 < base) (h16 : base ≤ 16) (num : Nat)
    (stack : Mem) (hroom : (numeralDigits base num).length < 50) :
    let first := if num = 0 then (Function.update stack 0 (chr '0'), 1) else (stack, 0)
    ∃ buffer, uint64Digits base (50 - first.2) first.1 first.2 num
        = .ok (buffer, (numeralDigits base num).length) ∧
      CStringAt (Function.update buffer (numeralDigits base num).length 0) 0
        ((numeralDigits base num).map digitChar) := by
  by_cases hnum : num = 0
  · subst hnum
    have hdigits : (numeralDigits base 0).map digitChar = [chr '0'] := rfl
    rw [hdigits]
    refine ⟨Function.update stack 0 (chr '0'), rfl, by decide, fun i hi => ?_⟩
    rcases Nat.le_one_iff_eq_zero_or_eq_one.mp hi with rfl | rfl
    · rfl
    · rfl
  · have hdigits : numeralDigits base num = Nat.digits base num := if_neg hnum
    rw [if_neg hnum]
    rw [hdigits] at hroom ⊢
    obtain ⟨buffer, hloop, hall⟩ := uint64Digits_spec h1 h16 50 num stack 0 (by omega)
    rw [Nat.zero_add] at hloop
    refine ⟨buffer, hloop, ?_, fun i hi => ?_⟩
    · intro hzero
      rw [List.mem_map] at hzero
      obtain ⟨d, hd, hchar⟩ := hzero
      have hlt := Nat.digits_lt_base h1 hd
      exact digitChar_ne_zero d (by omega) hchar
    · rw [List.length_map] at hi
      rw [Nat.zero_add]
      rcases Nat.lt_or_eq_of_le hi with hlt | heq
      · rw [Function.update_of_ne (by omega), hall, if_pos (by omega), Nat.sub_zero,
          List.getD_eq_getElem _ _ hlt,
          List.getD_eq_getElem _ _ (by rw [List.length_map]; exact hlt), List.getElem_map]
      · rw [heq, Function.update_self, List.getD_eq_default _ _ (by rw [List.length_map])]

/-- **`uint64_to_string`** copies the numeral to its place. -/
theorem uint64ToString_eq {base : Nat} (h10 : 10 ≤ base) (h16 : base ≤ 16) (num : Word)
    (size p : Nat) (str stack : Mem) :
    uint64ToString size str p num base stack
      = if p + (numeral base num.toNat).length < size
        then .ok (strcpy (numeral base num.toNat) str p) else .error .outOfBounds := by
  have hlen := numeralDigits_length_le h10 num.isLt
  obtain ⟨buffer, hloop, hstring⟩ :=
    uint64Digits_string (by omega) h16 num.toNat stack (by omega)
  have hmap : ((numeralDigits base num.toNat).map digitChar).length < 50 := by
    rw [List.length_map]
    omega
  obtain ⟨reversed, hrev, hnumeral⟩ := strrev_eq hstring hmap (by omega)
  unfold uint64ToString
  rw [if_neg (by omega)]
  dsimp only at hloop ⊢
  rw [hloop, ok_bind]
  dsimp only
  rw [storeIn_of_lt _ _ (by omega), ok_bind, hrev, ok_bind,
    stringIn_eq hnumeral (by rw [List.length_reverse]; exact hmap), ok_bind, strcpyIn_eq]
  rfl

/-- **Number conversion.**  For every 64-bit number in base 10 or 16, and a destination with room
    for the numeral and its terminator, `uint64_to_string` stays in its 50 bytes, whatever they
    held, and leaves a string from which the number can be read back; no other number leaves that
    string.  The digits come from the last to the first, and `strrev` turns them around; the
    induction is on the number, which each round divides by the base. -/
theorem uint64_to_string_faithful (num : Word) (base : Nat) (hbase : base = 10 ∨ base = 16)
    (size p : Nat) (str stack : Mem) (hroom : p + (numeral base num.toNat).length < size) :
    ∃ s str', uint64ToString size str p num base stack = .ok str' ∧ CStringAt str' p s ∧
      FaithfulNumeral base num.toNat s ∧ (∀ x, x < p ∨ p + s.length < x → str' x = str x) ∧
      ∀ (num' : Word) (size' : Nat) (str0 stack' str'' : Mem),
        uint64ToString size' str0 p num' base stack' = .ok str'' → CStringAt str'' p s →
        num' = num := by
  have h10 : 10 ≤ base := by omega
  have h16 : base ≤ 16 := by omega
  refine ⟨numeral base num.toNat, strcpy (numeral base num.toNat) str p, ?_, ?_, ?_, ?_, ?_⟩
  · rw [uint64ToString_eq h10 h16, if_pos hroom]
  · exact cStringAt_strcpy (numeral_nonzero (by omega) h16 _) str p
  · exact numeral_faithful (by omega) h16 _
  · intro x hx
    rw [strcpy_apply, if_neg (by omega)]
  · intro num' size' str0 stack' str'' hother hsame
    rw [uint64ToString_eq h10 h16] at hother
    split at hother
    · obtain rfl := Except.ok.inj hother
      have hnumeral := CStringAt.unique
        (cStringAt_strcpy (numeral_nonzero (by omega) h16 num'.toNat) str0 p) hsame
      have h1 := (numeral_faithful (show 1 < base by omega) h16 num'.toNat).value
      have h2 := (numeral_faithful (show 1 < base by omega) h16 num.toNat).value
      rw [hnumeral] at h1
      exact BitVec.eq_of_toNat_eq (h1.symm.trans h2)
    · cases hother

/-- 255 in base 16 has two digits. -/
theorem uint64_to_string_255 : ∃ s str',
    uint64ToString 3 (fun _ => 0) 0 255 16 (fun _ => 7) = .ok str' ∧ CStringAt str' 0 s ∧
      FaithfulNumeral 16 255 s := by
  obtain ⟨s, str', hconv, hstring, hfaithful, -⟩ := uint64_to_string_faithful 255 16 (Or.inr rfl) 3 0
    (fun _ => 0) (fun _ => 7) (by decide)
  exact ⟨s, str', hconv, hstring, hfaithful⟩

example : numeral 16 255 = [chr 'f', chr 'f'] := by decide

end TinyKernel
