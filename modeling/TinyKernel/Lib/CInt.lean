/-
  The C integer conversions of the LP64 target, as functions on `Int` and `Nat`.

  `int` is 32-bit two's complement, `size_t` and pointers are 64-bit unsigned.  A value that
  is stored in an `int` is cut by `toInt32`; a value that is stored in a `size_t` (or used as a
  pointer) is cut by `toSize`.  Both are written with literal moduli so that `omega` decides
  goals about them after one `unfold` (they are irreducible, so unification never tries to
  compute with the moduli); the `_of_range` lemmas are the no-overflow readings.

  Undefined behaviour is not given a value.  A function whose C body can reach it returns in
  `Except Fault`, and the `Fault` says which rule of the language was broken.  A call that never
  returns ends in a `Fault` too.
-/

namespace TinyKernel

/-- The ways in which modelled code can fail to return a value. -/
inductive Fault
  /-- A shift by a negative amount. -/
  | negativeShift
  /-- An `int` computation left the range of `int`. -/
  | signedOverflow
  /-- A division by zero. -/
  | divisionByZero
  /-- An access through a null pointer. -/
  | nullPointer
  /-- An access behind the end of an array. -/
  | outOfBounds
  /-- An access to an address that is not mapped. -/
  | dataAbort
  /-- The call does not return: an empty endless loop, or a loop that did not end within the
      number of rounds its model was given. -/
  | noReturn
  deriving Repr, DecidableEq

/-- A computation that has not faulted goes on with its value. -/
@[simp] theorem ok_bind {α β : Type} (a : α) (f : α → Except Fault β) :
    ((Except.ok a : Except Fault α) >>= f) = f a := rfl

/-- A computation that returns did so step by step. -/
theorem bind_eq_ok {α β : Type} {x : Except Fault α} {f : α → Except Fault β} {b : β}
    (h : x >>= f = .ok b) : ∃ a, x = .ok a ∧ f a = .ok b := by
  cases x with
  | ok a => exact ⟨a, rfl, h⟩
  | error e => exact absurd h (by simp [bind, Except.bind])

/-- A computation that returns has not taken a branch that faults. -/
theorem guard_eq_ok {α β : Type} {c : Prop} [Decidable c] {e : Fault} {f : α → Except Fault β}
    {x : Except Fault β} {b : β} (h : (if c then Except.error e >>= f else x) = .ok b) :
    ¬ c ∧ x = .ok b := by
  split at h
  · cases h
  · exact ⟨‹_›, h⟩

/-- A loop that is given a number of rounds RETURNS `a`: from some number of rounds on, `a` is its
    result. -/
def Returns {α : Type} (f : Nat → Except Fault α) (a : α) : Prop :=
  ∃ enough, ∀ rounds, enough ≤ rounds → f rounds = .ok a

theorem Returns.unique {α : Type} {f : Nat → Except Fault α} {a b : α} (ha : Returns f a)
    (hb : Returns f b) : a = b := by
  obtain ⟨n, hn⟩ := ha
  obtain ⟨k, hk⟩ := hb
  have h1 := hn (n + k) (by omega)
  have h2 := hk (n + k) (by omega)
  exact Except.ok.inj (h1.symm.trans h2)

/-- Conversion of an integer to `int`. -/
@[irreducible] def toInt32 (x : Int) : Int := (x + 2147483648) % 4294967296 - 2147483648

/-- Conversion of an integer to `size_t`, or to an address. -/
@[irreducible] def toSize (x : Int) : Nat := (x % 18446744073709551616).toNat

/-- Conversion of an integer to `uint32_t`. -/
def toUint32 (x : Int) : Nat := (x % 4294967296).toNat

theorem toInt32_of_range {x : Int} (h1 : -2147483648 ≤ x) (h2 : x < 2147483648) :
    toInt32 x = x := by
  unfold toInt32; omega

theorem toInt32_natCast_le (n : Nat) : toInt32 (n : Int) ≤ n := by
  unfold toInt32; omega

theorem toInt32_add (x y : Int) : toInt32 (toInt32 x + y) = toInt32 (x + y) := by
  unfold toInt32; omega

theorem toInt32_sub (x y : Int) : toInt32 (toInt32 x - y) = toInt32 (x - y) := by
  unfold toInt32; omega

/-- A natural number below `2^64` survives the conversion to `size_t`. -/
theorem toSize_natCast {n : Nat} (h : n < 18446744073709551616) : toSize (n : Int) = n := by
  unfold toSize; omega

/-- A natural number below `2^32` survives the conversion to `uint32_t`. -/
theorem toUint32_natCast {n : Nat} (h : n < 4294967296) : toUint32 (n : Int) = n := by
  unfold toUint32; omega

end TinyKernel
