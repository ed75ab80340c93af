/-
  Byte-addressed memory with little-endian multi-byte access.

  `Mem` is a total map from addresses to bytes.  Reading an address nobody wrote is not an
  error: it yields whatever byte is there, which is what makes uninitialised and
  out-of-bounds reads expressible.  Multi-byte access goes through two width-generic
  operations:

  * `loadNat m a n`     — the `n` bytes from `a` as a little-endian number;
  * `storeNat m a n v`  — the low `n` bytes of `v`, little-endian, at `a`.

  The laws every proof above uses are `loadNat_storeNat_same` (read back what was stored, up to
  the width), `loadNat_storeNat_disjoint` (a store leaves disjoint loads alone) and
  `loadNat_congr` (a load depends on its own bytes only).  `load64` and `store64`
  are their readings at `BitVec 64`.

  `copyBytes` copies bytes one by one between two sequences of addresses.
-/
import Mathlib.Logic.Function.Basic
import Mathlib.Tactic.Ring
import Mathlib.Tactic.Linarith

namespace TinyKernel

/-- A byte of memory. -/
abbrev Byte := BitVec 8

/-- Memory: every address holds a byte. -/
abbrev Mem := Nat → Byte

/-- A 64-bit machine word. -/
abbrev Word := BitVec 64

/-! ## Width-generic little-endian access -/

/-- The `n` bytes from `a` read as a little-endian number. -/
def loadNat (m : Mem) : Nat → Nat → Nat
  | _, 0 => 0
  | a, n + 1 => (m a).toNat + 256 * loadNat m (a + 1) n

/-- The low `n` bytes of `v` written little-endian from `a`. -/
def storeNat (m : Mem) (a n v : Nat) : Mem := fun x =>
  if a ≤ x ∧ x < a + n then BitVec.ofNat 8 (v / 256 ^ (x - a)) else m x

/-- A load depends only on the bytes it covers. -/
theorem loadNat_congr {m m' : Mem} : ∀ {n a b : Nat},
    (∀ i, i < n → m (a + i) = m' (b + i)) → loadNat m a n = loadNat m' b n := by
  intro n
  induction n with
  | zero =>
    intro a b _
    rfl
  | succ n ih =>
    intro a b h
    have h0 : m a = m' b := h 0 (by omega)
    have ht : loadNat m (a + 1) n = loadNat m' (b + 1) n := by
      apply ih
      intro i hi
      have := h (i + 1) (by omega)
      rwa [show a + (i + 1) = a + 1 + i by omega, show b + (i + 1) = b + 1 + i by omega] at this
    rw [loadNat, loadNat, h0, ht]

theorem loadNat_lt (m : Mem) : ∀ (n a : Nat), loadNat m a n < 256 ^ n := by
  intro n
  induction n with
  | zero =>
    intro a
    simp [loadNat]
  | succ n ih =>
    intro a
    have h1 := ih (a + 1)
    have h2 : (m a).toNat < 256 := (m a).isLt
    rw [loadNat, pow_succ]
    omega

/-- Loading zero bytes yields zero. -/
theorem loadNat_eq_zero {m : Mem} : ∀ {n a : Nat}, (∀ i, i < n → m (a + i) = 0) →
    loadNat m a n = 0 := by
  intro n
  induction n with
  | zero =>
    intro a _
    rfl
  | succ n ih =>
    intro a h
    have h0 : m a = 0 := h 0 (by omega)
    have ht : loadNat m (a + 1) n = 0 := by
      apply ih
      intro i hi
      have := h (i + 1) (by omega)
      rwa [show a + (i + 1) = a + 1 + i by omega] at this
    rw [loadNat, h0, ht]
    rfl

/-- Outside its own bytes a store changes nothing. -/
theorem storeNat_of_disjoint {m : Mem} {a n v x : Nat} (h : x < a ∨ a + n ≤ x) :
    storeNat m a n v x = m x := by
  unfold storeNat
  rw [if_neg (by omega)]

/-- A store leaves every load of disjoint bytes alone. -/
theorem loadNat_storeNat_disjoint {m : Mem} {a n v b k : Nat} (h : b + k ≤ a ∨ a + n ≤ b) :
    loadNat (storeNat m a n v) b k = loadNat m b k := by
  apply loadNat_congr
  intro i hi
  exact storeNat_of_disjoint (by omega)

/-- A load reads back what the store at that address and width wrote, cut to the width. -/
theorem loadNat_storeNat_same (m : Mem) : ∀ (n a v : Nat),
    loadNat (storeNat m a n v) a n = v % 256 ^ n := by
  intro n
  induction n with
  | zero =>
    intro a v
    simp [loadNat, Nat.mod_one]
  | succ n ih =>
    intro a v
    have hhead : (storeNat m a (n + 1) v a).toNat = v % 256 := by
      unfold storeNat
      rw [if_pos (by omega)]
      simp
    have htail : loadNat (storeNat m a (n + 1) v) (a + 1) n = v / 256 % 256 ^ n := by
      rw [← ih (a + 1) (v / 256)]
      apply loadNat_congr
      intro i hi
      unfold storeNat
      rw [if_pos (by omega), if_pos (by omega), show a + 1 + i - a = i + 1 by omega,
        show a + 1 + i - (a + 1) = i by omega, pow_succ, Nat.mul_comm, Nat.div_div_eq_div_mul]
    rw [loadNat, hhead, htail, pow_succ, Nat.mul_comm (256 ^ n) 256, Nat.mod_mul]

/-! ## Fixed-width words -/

/-- The 64-bit word at `a`. -/
def load64 (m : Mem) (a : Nat) : Word := BitVec.ofNat 64 (loadNat m a 8)

/-- Write the 64-bit word `v` at `a`. -/
def store64 (m : Mem) (a : Nat) (v : Word) : Mem := storeNat m a 8 v.toNat

@[simp] theorem load64_store64_same (m : Mem) (a : Nat) (v : Word) :
    load64 (store64 m a v) a = v := by
  have hv : v.toNat < 256 ^ 8 := v.isLt
  rw [load64, store64, loadNat_storeNat_same, Nat.mod_eq_of_lt hv, BitVec.ofNat_toNat,
    BitVec.setWidth_eq]

theorem load64_store64_disjoint {m : Mem} {a b : Nat} {v : Word} (h : b + 8 ≤ a ∨ a + 8 ≤ b) :
    load64 (store64 m a v) b = load64 m b := by
  rw [load64, store64, loadNat_storeNat_disjoint h, load64]

theorem store64_of_disjoint {m : Mem} {a x : Nat} {v : Word} (h : x < a ∨ a + 8 ≤ x) :
    store64 m a v x = m x :=
  storeNat_of_disjoint h

theorem load64_congr {m m' : Mem} {a : Nat} (h : ∀ i, i < 8 → m (a + i) = m' (a + i)) :
    load64 m a = load64 m' a := by
  rw [load64, load64, loadNat_congr h]

theorem load64_eq_zero {m : Mem} {a : Nat} (h : ∀ i, i < 8 → m (a + i) = 0) :
    load64 m a = 0 := by
  rw [load64, loadNat_eq_zero h]
  rfl

/-! ## Copying -/

/-- Byte by byte and upwards, the byte at `s i` is stored at `d i`, for the first `n` indices. -/
def copyBytes (d s : Nat → Nat) : Nat → Mem → Mem
  | 0, m => m
  | n + 1, m =>
    let m' := copyBytes d s n m
    Function.update m' (d n) (m' (s n))

/-- A copy changes the destination only. -/
theorem copyBytes_of_ne {d s : Nat → Nat} {m : Mem} {x : Nat} : ∀ {n : Nat},
    (∀ i, i < n → x ≠ d i) → copyBytes d s n m x = m x := by
  intro n
  induction n with
  | zero =>
    intro _
    rfl
  | succ n ih =>
    intro h
    rw [copyBytes, Function.update_of_ne (h n (by omega))]
    exact ih fun i hi => h i (by omega)

/-- One byte of a copy: no other byte is copied to its place, and it is read before its source
    could be written over. -/
theorem copyBytes_at {d s : Nat → Nat} {m : Mem} {k : Nat} : ∀ {n : Nat},
    (∀ i, i < n → d k = d i → k = i) → (∀ i, i < k → s k ≠ d i) → k < n →
    copyBytes d s n m (d k) = m (s k) := by
  intro n
  induction n with
  | zero =>
    intro _ _ hk
    exact absurd hk (Nat.not_lt_zero k)
  | succ n ih =>
    intro hd hs hk
    rw [copyBytes]
    by_cases hkn : k = n
    · subst hkn
      rw [Function.update_self]
      exact copyBytes_of_ne hs
    · have hne : d k ≠ d n := fun h => hkn (hd n (by omega) h)
      rw [Function.update_of_ne hne]
      exact ih (fun i hi => hd i (by omega)) hs (by omega)

/-- A copy to addresses that differ from each other and from the source. -/
theorem copyBytes_apply {d s : Nat → Nat} {m : Mem} {k n : Nat}
    (hd : ∀ i j, i < n → j < n → d i = d j → i = j) (hs : ∀ i j, i < n → j < n → s i ≠ d j)
    (hk : k < n) : copyBytes d s n m (d k) = m (s k) := by
  apply copyBytes_at
  · exact fun i hi => hd k i hk hi
  · exact fun i hi => hs k i hk (Nat.lt_trans hi hk)
  · exact hk

end TinyKernel
