/-
  `strcmp` as an order on strings.

  `strcmpReads` is the loop on two pointers, with the addresses it reads through each.  It tests for
  the terminator of the first string only; it stays inside the second one because it goes on only
  over characters that are equal, and so not the terminator of either (`strcmpReads_returns`).

  The result is the difference of the two bytes at the first place where the strings differ, the
  terminators included.  A terminator is below every character, so that the sign of the result is
  the lexicographic order of the strings (`strcmp_neg_iff`, `strcmp_pos_iff`), which is a total one.
-/
import TinyKernel.Str

namespace TinyKernel

/-! ## The source -/

/-- `strcmp(s1, s2)`: the result, and the addresses read through `s1` and through `s2`. -/
def strcmpReads (m : Mem) : Nat → Nat → Nat → Except Fault (Int × List Nat × List Nat)
  | 0, _, _ => .error .noReturn
  | rounds + 1, s1, s2 =>
    if m s1 ≠ 0 ∧ m s1 = m s2 then do
      let (diff, reads1, reads2) ← strcmpReads m rounds (s1 + 1) (s2 + 1)
      return (diff, s1 :: reads1, s2 :: reads2)
    -- `*s2` is read here, also where the loop ended at the terminator of `s1`
    else .ok ((m s1).toNat - (m s2).toNat, [s1], [s2])

/-- `strcmp(s1, s2)` returns `diff`. -/
def StrcmpReturns (m : Mem) (s1 s2 : Nat) (diff : Int) : Prop :=
  ∃ reads1 reads2, Returns (fun rounds => strcmpReads m rounds s1 s2) (diff, reads1, reads2)

/-- No read is in front of the string of `len` characters at `p`, or behind its terminator. -/
def ReadsInside (p len : Nat) (reads : List Nat) : Prop := ∀ x ∈ reads, p ≤ x ∧ x ≤ p + len

theorem ReadsInside.first (p len : Nat) : ReadsInside p len [p] := by
  intro x hx
  rw [List.mem_singleton] at hx
  omega

theorem ReadsInside.cons {p len : Nat} {reads : List Nat} (h : ReadsInside (p + 1) len reads) :
    ReadsInside p (len + 1) (p :: reads) := by
  intro x hx
  rcases List.mem_cons.mp hx with rfl | hx
  · omega
  · have := h x hx
    omega

/-! ## The reads -/

/-- **`strcmp` stays inside its strings**, and returns what it does for the characters of the first
    one. -/
theorem strcmpReads_returns {m : Mem} : ∀ {s t : List Byte} {p q : Nat}, CStringAt m p s →
    CStringAt m q t → ∃ reads1 reads2,
      (∀ rounds, s.length < rounds →
        strcmpReads m rounds p q = .ok (strcmp s m q, reads1, reads2)) ∧
      ReadsInside p s.length reads1 ∧ ReadsInside q t.length reads2 := by
  intro s
  induction s with
  | nil =>
    intro t p q hs _
    have hzero := CStringAt.nil_iff.mp hs
    refine ⟨[p], [q], fun rounds hrounds => ?_, .first _ _, .first _ _⟩
    obtain ⟨rounds, rfl⟩ : ∃ k, rounds = k + 1 := ⟨rounds - 1, by omega⟩
    rw [strcmpReads, if_neg (fun h => h.1 hzero), hzero]
    rfl
  | cons c s ih =>
    intro t p q hs ht
    obtain ⟨hc, hfirst, hrest⟩ := CStringAt.cons_iff.mp hs
    by_cases hsame : c = m q
    · -- an equal character is not the terminator of the second string either
      cases t with
      | nil => exact absurd (hsame.trans (CStringAt.nil_iff.mp ht)) hc
      | cons d t =>
        obtain ⟨-, -, htrest⟩ := CStringAt.cons_iff.mp ht
        obtain ⟨reads1, reads2, hret, hin1, hin2⟩ := ih hrest htrest
        refine ⟨p :: reads1, q :: reads2, fun rounds hrounds => ?_, hin1.cons, hin2.cons⟩
        rw [List.length_cons] at hrounds
        obtain ⟨rounds, rfl⟩ : ∃ k, rounds = k + 1 := ⟨rounds - 1, by omega⟩
        rw [strcmpReads, if_pos ⟨by rw [hfirst]; exact hc, hfirst.trans hsame⟩,
          hret rounds (by omega), strcmp, if_pos hsame]
        rfl
    · refine ⟨[p], [q], fun rounds hrounds => ?_, .first _ _, .first _ _⟩
      obtain ⟨rounds, rfl⟩ : ∃ k, rounds = k + 1 := ⟨rounds - 1, by omega⟩
      rw [strcmpReads, if_neg (fun h => hsame (hfirst.symm.trans h.2)), strcmp, if_neg hsame,
        hfirst]

/-! ## The order -/

/-- The sign of the result is the lexicographic order. -/
theorem strcmp_sign {m : Mem} : ∀ {s t : List Byte} {q : Nat}, 0 ∉ s → CStringAt m q t →
    (strcmp s m q < 0 ↔ s < t) ∧ (0 < strcmp s m q ↔ t < s) := by
  intro s
  induction s with
  | nil =>
    intro t q _ ht
    rw [strcmp]
    cases t with
    | nil =>
      rw [CStringAt.nil_iff.mp ht]
      simp
    | cons d t =>
      obtain ⟨hd, hfirst, -⟩ := CStringAt.cons_iff.mp ht
      have hpos : 0 < d.toNat := Nat.pos_of_ne_zero fun h => hd (BitVec.eq_of_toNat_eq h)
      rw [hfirst]
      exact ⟨iff_of_true (by omega) (List.nil_lt_cons _ _),
        iff_of_false (by omega) (List.not_lt_nil _)⟩
  | cons c s ih =>
    intro t q hs ht
    rw [List.mem_cons, not_or] at hs
    rw [strcmp]
    cases t with
    | nil =>
      have hc : 0 < c.toNat := Nat.pos_of_ne_zero fun h => hs.1 (BitVec.eq_of_toNat_eq h.symm)
      rw [CStringAt.nil_iff.mp ht, if_neg (fun h => hs.1 h.symm),
        show (0 : Byte).toNat = 0 from rfl]
      exact ⟨iff_of_false (by omega) (List.not_lt_nil _),
        iff_of_true (by omega) (List.nil_lt_cons _ _)⟩
    | cons d t =>
      obtain ⟨-, hfirst, htrest⟩ := CStringAt.cons_iff.mp ht
      rw [hfirst, List.cons_lt_cons_iff, List.cons_lt_cons_iff]
      by_cases hcd : c = d
      · subst hcd
        rw [if_pos rfl, (ih hs.2 htrest).1, (ih hs.2 htrest).2]
        simp
      · have hne : c.toNat ≠ d.toNat := fun h => hcd (BitVec.eq_of_toNat_eq h)
        rw [if_neg hcd, BitVec.lt_def, BitVec.lt_def]
        constructor
        · exact ⟨fun h => Or.inl (by omega), fun h => by
            have := h.resolve_right (fun h => hcd h.1)
            omega⟩
        · exact ⟨fun h => Or.inl (by omega), fun h => by
            have := h.resolve_right (fun h => hcd h.1.symm)
            omega⟩

/-- What `strcmp` returns for two strings. -/
theorem StrcmpReturns.eq {m : Mem} {p q : Nat} {s t : List Byte} {diff : Int}
    (h : StrcmpReturns m p q diff) (hs : CStringAt m p s) (ht : CStringAt m q t) :
    diff = strcmp s m q := by
  obtain ⟨reads1, reads2, hret⟩ := h
  obtain ⟨reads1', reads2', hloop, -, -⟩ := strcmpReads_returns hs ht
  have hother : Returns (fun rounds => strcmpReads m rounds p q) (strcmp s m q, reads1', reads2') :=
    ⟨s.length + 1, fun rounds hrounds => hloop rounds hrounds⟩
  exact congrArg Prod.fst (hret.unique hother)

/-- The result of a call is negative, 0 or positive as the strings are ordered. -/
theorem StrcmpReturns.sign {m : Mem} {p q : Nat} {s t : List Byte} {diff : Int}
    (h : StrcmpReturns m p q diff) (hs : CStringAt m p s) (ht : CStringAt m q t) :
    (diff < 0 ↔ s < t) ∧ (diff = 0 ↔ s = t) ∧ (0 < diff ↔ t < s) := by
  obtain ⟨hneg, hpos⟩ := strcmp_sign hs.nonzero ht
  rw [h.eq hs ht]
  exact ⟨hneg, (strcmp_eq_zero_iff hs.nonzero ht).trans eq_comm, hpos⟩

/-- **`strcmp` is a total order test.**  For all strings, wherever they lie in memory: the call
    returns and reads no byte behind either terminator; the sign of its result is the lexicographic
    order, and 0 means that the strings are equal.  Swapping the strings turns the sign around, and
    "less or equal" is transitive, strictly so if either comparison is strict. -/
theorem strcmp_total_order {m : Mem} {p q : Nat} {s t : List Byte} (hs : CStringAt m p s)
    (ht : CStringAt m q t) : ∃ diff reads1 reads2,
      Returns (fun rounds => strcmpReads m rounds p q) (diff, reads1, reads2) ∧
      ReadsInside p s.length reads1 ∧ ReadsInside q t.length reads2 ∧
      (diff < 0 ↔ s < t) ∧ (diff = 0 ↔ s = t) ∧ (0 < diff ↔ t < s) ∧
      (∀ diff', StrcmpReturns m q p diff' → diff'.sign = -diff.sign) ∧
      ∀ w u diff' diff'', CStringAt m w u → StrcmpReturns m q w diff' →
        StrcmpReturns m p w diff'' → diff ≤ 0 → diff' ≤ 0 →
        diff'' ≤ 0 ∧ (diff < 0 ∨ diff' < 0 → diff'' < 0) := by
  obtain ⟨reads1, reads2, hloop, hin1, hin2⟩ := strcmpReads_returns hs ht
  have hret : Returns (fun rounds => strcmpReads m rounds p q) (strcmp s m q, reads1, reads2) :=
    ⟨s.length + 1, fun rounds hrounds => hloop rounds hrounds⟩
  generalize strcmp s m q = diff at *
  obtain ⟨hneg, hzero, hpos⟩ := StrcmpReturns.sign ⟨reads1, reads2, hret⟩ hs ht
  refine ⟨diff, reads1, reads2, hret, hin1, hin2, hneg, hzero, hpos, ?_, ?_⟩
  · intro diff' hswap
    obtain ⟨hneg', hzero', hpos'⟩ := hswap.sign ht hs
    rcases Int.lt_trichotomy diff 0 with h | h | h
    · rw [Int.sign_eq_neg_one_of_neg h, Int.sign_eq_one_of_pos (hpos'.mpr (hneg.mp h))]
      rfl
    · rw [h, hzero'.mpr (hzero.mp h).symm]
      rfl
    · rw [Int.sign_eq_one_of_pos h, Int.sign_eq_neg_one_of_neg (hneg'.mpr (hpos.mp h))]
  · intro w u diff' diff'' hu h' h'' hle hle'
    obtain ⟨hneg', hzero', -⟩ := h'.sign ht hu
    obtain ⟨hneg'', hzero'', -⟩ := h''.sign hs hu
    rcases Int.lt_or_eq_of_le hle with hlt | heq
    · have hst := hneg.mp hlt
      have hsu : s < u := by
        rcases Int.lt_or_eq_of_le hle' with hlt' | heq'
        · exact List.lt_trans hst (hneg'.mp hlt')
        · exact hzero'.mp heq' ▸ hst
      have hlt'' := hneg''.mpr hsu
      exact ⟨Int.le_of_lt hlt'', fun _ => hlt''⟩
    · obtain rfl := hzero.mp heq
      rcases Int.lt_or_eq_of_le hle' with hlt' | heq'
      · have hlt'' := hneg''.mpr (hneg'.mp hlt')
        exact ⟨Int.le_of_lt hlt'', fun _ => hlt''⟩
      · exact ⟨Int.le_of_eq (hzero''.mpr (hzero'.mp heq')), fun h => absurd h (by omega)⟩

/-- "ab" at 16, and its prefix "a" at 32. -/
def twoStrings : Mem := fun x => if x = 16 ∨ x = 32 then 97 else if x = 17 then 98 else 0

/-- "ab" against "a": one character is equal, and the terminator decides. -/
theorem strcmp_total_order_prefix : ∃ diff reads1 reads2,
    Returns (fun rounds => strcmpReads twoStrings rounds 16 32) (diff, reads1, reads2) ∧
    ReadsInside 32 1 reads2 ∧ 0 < diff := by
  have hab : CStringAt twoStrings 16 [97, 98] := ⟨by decide, by decide⟩
  have ha : CStringAt twoStrings 32 [97] := ⟨by decide, by decide⟩
  obtain ⟨diff, reads1, reads2, hret, -, hin2, -, -, hpos, -, -⟩ := strcmp_total_order hab ha
  exact ⟨diff, reads1, reads2, hret, hin2, hpos.mpr (by decide)⟩

end TinyKernel
