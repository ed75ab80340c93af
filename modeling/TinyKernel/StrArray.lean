/-
  The string routines of `kernel/string.c` on arrays of a known size.

  A store behind the end of an array, and a search for the terminator that leaves it, end in
  `Fault.outOfBounds`; a loop over an array is a recursion on the bytes that are left of it.  The
  source of a copy is given by its characters, as in `Str`: `stringIn` reads them from an array.

  `strcpyIn_eq` and `strcatIn_eq` say when a copy stays inside its destination; then it is the
  `strcpy` of `Str`.  `strrevLoop_spec` is the two-pointer reversal for every length.
-/
import TinyKernel.Str

namespace TinyKernel

/-! ## The source -/

/-- `a[i] = c` in an array of `size` bytes. -/
def storeIn (size : Nat) (a : Mem) (i : Nat) (c : Byte) : Except Fault Mem :=
  if i < size then .ok (Function.update a i c) else .error .outOfBounds

/-- The characters of the string at `p`, in an array that ends `room` bytes behind `p`. -/
def stringIn (a : Mem) : Nat → Nat → Except Fault (List Byte)
  | 0, _ => .error .outOfBounds
  | room + 1, p =>
    if a p = 0 then .ok []
    else do
      let s ← stringIn a room (p + 1)
      return a p :: s

/-- `strlen` of a string with these characters. -/
def strlen (s : List Byte) : Int := toInt32 s.length

/-- `while (*dest != 0) dest++`, in an array that ends `room` bytes behind `dest`. -/
def strEnd (a : Mem) : Nat → Nat → Except Fault Nat
  | 0, _ => .error .outOfBounds
  | room + 1, dest => if a dest = 0 then .ok dest else strEnd a room (dest + 1)

/-- `strcpy(a + dest, s)` into an array of `size` bytes. -/
def strcpyIn (size : Nat) : List Byte → Mem → Nat → Except Fault Mem
  | [], a, dest => storeIn size a dest 0
  | c :: s, a, dest => do
    let a ← storeIn size a dest c
    strcpyIn size s a (dest + 1)

/-- `strcat(a + dest, s)` in an array of `size` bytes. -/
def strcatIn (size : Nat) (a : Mem) (dest : Nat) (s : List Byte) : Except Fault Mem := do
  let dest ← strEnd a (size - dest) dest
  strcpyIn size s a dest

/-- The body of the loop of `strrev`: `swap = str[left]`, and so on. -/
def swapIn (size : Nat) (a : Mem) (left right : Nat) : Except Fault Mem := do
  let a' ← storeIn size a left (a right)
  storeIn size a' right (a left)

/-- The loop of `strrev`. -/
def strrevLoop (size : Nat) : Nat → Mem → Int → Int → Except Fault Mem
  | 0, _, _, _ => .error .noReturn
  | rounds + 1, a, left, right =>
    if left < right then do
      let a ← swapIn size a left.toNat right.toNat
      strrevLoop size rounds a (left + 1) (right - 1)
    else .ok a

/-- `strrev(a)`; each round uses up two characters, so `strlen` rounds are enough. -/
def strrev (size : Nat) (a : Mem) : Except Fault Mem := do
  let s ← stringIn a size 0
  strrevLoop size (s.length + 1) a 0 (strlen s - 1)

/-! ## Stores -/

theorem storeIn_of_lt {size i : Nat} (a : Mem) (c : Byte) (hi : i < size) :
    storeIn size a i c = .ok (Function.update a i c) := if_pos hi

theorem storeIn_of_le {size i : Nat} (a : Mem) (c : Byte) (hi : size ≤ i) :
    storeIn size a i c = .error .outOfBounds := if_neg (Nat.not_lt.mpr hi)

/-- A copy is a `strcpy` if the array has room for the characters and the terminator, and leaves the
    array otherwise. -/
theorem strcpyIn_eq (size : Nat) : ∀ (s : List Byte) (a : Mem) (dest : Nat),
    strcpyIn size s a dest
      = if dest + s.length < size then .ok (strcpy s a dest) else .error .outOfBounds := by
  intro s
  induction s with
  | nil =>
    intro a dest
    rfl
  | cons c s ih =>
    intro a dest
    rw [strcpyIn, List.length_cons]
    by_cases hdest : dest < size
    · rw [storeIn_of_lt a c hdest, ok_bind, ih, strcpy,
        show dest + 1 + s.length = dest + (s.length + 1) by omega]
    · rw [storeIn_of_le a c (by omega), if_neg (by omega)]
      rfl

/-! ## Strings in arrays -/

section Strings

variable {a : Mem} {p : Nat} {s t : List Byte}

/-- A string that ends inside the array is read. -/
theorem stringIn_eq : ∀ {s : List Byte} {room p : Nat}, CStringAt a p s → s.length < room →
    stringIn a room p = .ok s := by
  intro s
  induction s with
  | nil =>
    intro room p hs hroom
    obtain ⟨room, rfl⟩ : ∃ k, room = k + 1 := ⟨room - 1, by rw [List.length_nil] at hroom; omega⟩
    rw [stringIn, if_pos (CStringAt.nil_iff.mp hs)]
  | cons c s ih =>
    intro room p hs hroom
    rw [List.length_cons] at hroom
    obtain ⟨room, rfl⟩ : ∃ k, room = k + 1 := ⟨room - 1, by omega⟩
    obtain ⟨hc, hfirst, hrest⟩ := CStringAt.cons_iff.mp hs
    rw [stringIn, if_neg (by rw [hfirst]; exact hc), ih hrest (by omega), hfirst]
    rfl

/-- Without a terminator in the array the reading leaves it. -/
theorem stringIn_unterminated : ∀ {room p : Nat}, (∀ x, p ≤ x → x < p + room → a x ≠ 0) →
    stringIn a room p = .error .outOfBounds := by
  intro room
  induction room with
  | zero =>
    intro p _
    rfl
  | succ room ih =>
    intro p hnone
    rw [stringIn, if_neg (hnone p (Nat.le_refl p) (by omega)),
      ih fun x h1 h2 => hnone x (by omega) (by omega)]
    rfl

/-- The end of a string. -/
theorem strEnd_eq : ∀ {s : List Byte} {room p : Nat}, CStringAt a p s → s.length < room →
    strEnd a room p = .ok (p + s.length) := by
  intro s
  induction s with
  | nil =>
    intro room p hs hroom
    obtain ⟨room, rfl⟩ : ∃ k, room = k + 1 := ⟨room - 1, by rw [List.length_nil] at hroom; omega⟩
    rw [strEnd, if_pos (CStringAt.nil_iff.mp hs)]
    rfl
  | cons c s ih =>
    intro room p hs hroom
    rw [List.length_cons] at hroom
    obtain ⟨room, rfl⟩ : ∃ k, room = k + 1 := ⟨room - 1, by omega⟩
    obtain ⟨hc, hfirst, hrest⟩ := CStringAt.cons_iff.mp hs
    rw [strEnd, if_neg (by rw [hfirst]; exact hc), ih hrest (by omega), List.length_cons,
      show p + 1 + s.length = p + (s.length + 1) by omega]

/-- What a copy leaves is the string that was copied. -/
theorem cStringAt_strcpy (hs : 0 ∉ s) (a : Mem) (p : Nat) : CStringAt (strcpy s a p) p s := by
  refine ⟨hs, fun i hi => ?_⟩
  rw [strcpy_apply, if_pos (by omega), Nat.add_sub_cancel_left]

/-- `strcat` is a `strcpy` behind the string in the array, if there is room for both. -/
theorem strcatIn_eq {size : Nat} (hs : CStringAt a p s) (hroom : p + s.length < size)
    (t : List Byte) : strcatIn size a p t
      = if p + s.length + t.length < size then .ok (strcpy t a (p + s.length))
        else .error .outOfBounds := by
  rw [strcatIn, strEnd_eq hs (by omega), ok_bind, strcpyIn_eq]

/-- The two strings of a `strcat` are one string. -/
theorem cStringAt_strcat (hs : CStringAt a p s) (ht : 0 ∉ t) :
    CStringAt (strcpy t a (p + s.length)) p (s ++ t) := by
  constructor
  · rw [List.mem_append, not_or]
    exact ⟨hs.nonzero, ht⟩
  · intro i hi
    rw [List.length_append] at hi
    rw [strcpy_apply]
    rcases Nat.lt_or_ge i s.length with hlow | hhigh
    · rw [if_neg (by omega), hs.bytes i (Nat.le_of_lt hlow), List.getD_append _ _ _ _ hlow]
    · rw [if_pos (by omega), List.getD_append_right _ _ _ _ hhigh]
      congr 1
      omega

end Strings

/-! ## Reversing -/

/-- Two bytes change places. -/
theorem swapIn_eq {size left right : Nat} (a : Mem) (hl : left < size) (hr : right < size) :
    swapIn size a left right
      = .ok (Function.update (Function.update a left (a right)) right (a left)) := by
  rw [swapIn, storeIn_of_lt a _ hl, ok_bind, storeIn_of_lt _ _ hr]

/-- **The two pointers** meet in the middle, and what was between them is reversed. -/
theorem strrevLoop_spec (size : Nat) : ∀ (rounds : Nat) (a : Mem) (left right : Int), 0 ≤ left →
    left ≤ right + 1 → right < size → right + 1 - left < rounds →
    ∃ a', strrevLoop size rounds a left right = .ok a' ∧ ∀ x : Nat,
      a' x = if left ≤ x ∧ (x : Int) ≤ right then a (left + right - x).toNat else a x := by
  intro rounds
  induction rounds with
  | zero =>
    intro a left right _ hmeet _ hrounds
    omega
  | succ rounds ih =>
    intro a left right h0 hmeet hsize hrounds
    rw [strrevLoop]
    by_cases hlt : left < right
    · rw [if_pos hlt, swapIn_eq a (by omega) (by omega), ok_bind]
      obtain ⟨a', hloop, hall⟩ := ih
        (Function.update (Function.update a left.toNat (a right.toNat)) right.toNat (a left.toNat))
        (left + 1) (right - 1) (by omega) (by omega) (by omega) (by omega)
      refine ⟨a', hloop, fun x => ?_⟩
      rw [hall x, show left + 1 + (right - 1) - (x : Int) = left + right - x by omega]
      by_cases hinside : left < x ∧ (x : Int) < right
      · -- between the two characters that changed places
        rw [if_pos (by omega), if_pos (by omega), Function.update_of_ne (by omega),
          Function.update_of_ne (by omega)]
      · rw [if_neg (by omega)]
        rcases Nat.lt_trichotomy x right.toNat with hbelow | hright | habove
        · rw [Function.update_of_ne (by omega)]
          by_cases hleft : x = left.toNat
          · rw [hleft, Function.update_self, if_pos (by omega)]
            congr 1
            omega
          · rw [Function.update_of_ne hleft, if_neg (by omega)]
        · rw [hright, Function.update_self, if_pos (by omega)]
          congr 1
          omega
        · rw [Function.update_of_ne (by omega), Function.update_of_ne (by omega), if_neg (by omega)]
    · rw [if_neg hlt]
      refine ⟨a, rfl, fun x => ?_⟩
      by_cases hone : left ≤ x ∧ (x : Int) ≤ right
      · rw [if_pos hone]
        congr 1
        omega
      · rw [if_neg hone]

/-- **`strrev`** reverses a string in its place. -/
theorem strrev_eq {size : Nat} {a : Mem} {s : List Byte} (hs : CStringAt a 0 s)
    (hroom : s.length < size) (hint : s.length ≤ 2147483647) :
    ∃ a', strrev size a = .ok a' ∧ CStringAt a' 0 s.reverse := by
  have hlen : strlen s = s.length := toInt32_of_range (by omega) (by omega)
  obtain ⟨a', hloop, hall⟩ := strrevLoop_spec size (s.length + 1) a 0 (s.length - 1 : Int)
    (by omega) (by omega) (by omega) (by omega)
  refine ⟨a', ?_, ?_, ?_⟩
  · rw [strrev, stringIn_eq hs hroom, ok_bind, hlen]
    exact hloop
  · rw [List.mem_reverse]
    exact hs.nonzero
  · intro i hi
    rw [List.length_reverse] at hi
    rw [Nat.zero_add, hall]
    rcases Nat.lt_or_eq_of_le hi with hlt | heq
    · have hmirror : s.length - 1 - i < s.length := by omega
      rw [if_pos (by omega), show ((0 : Int) + ((s.length : Int) - 1) - (i : Int)).toNat
        = 0 + (s.length - 1 - i) by omega, hs.getElem hmirror,
        List.getD_eq_getElem _ _ (by rw [List.length_reverse]; exact hlt), List.getElem_reverse]
    · rw [if_neg (by omega), heq, ← Nat.zero_add s.length, hs.stop,
        List.getD_eq_default _ _ (by rw [List.length_reverse]; omega)]

end TinyKernel
