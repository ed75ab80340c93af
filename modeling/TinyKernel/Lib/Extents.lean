/-
  Tables that encode a set of disjoint extents by a tag per entry.

  An `Extent` is a non-empty range of table entries.  `Encodes ext tag blank n table L` says
  that the first `n` entries of `table` encode exactly the extents of the list `L`: the
  extents lie inside the table and are pairwise disjoint, an entry covered by an extent holds
  the extent's tag, and every other entry holds `blank`.  The extent of a list element is read
  off by `ext`, so `L` may carry more than the ranges themselves.

  `Encodes.insert` and `Encodes.erase` are the two updates: a table that was retagged on
  a fresh extent encodes one element more, a table that was blanked on one of its extents
  encodes one element less.  `card_filter_flip` counts entries across such an update.
  `Encodes.unique` says that there is one such table for a list, whatever its order.
-/
import Mathlib.Data.List.Nodup
import Mathlib.Order.Interval.Finset.Nat

namespace TinyKernel

/-- The entries `start, …, start + len - 1`. -/
structure Extent where
  start : Nat
  len : Nat
  deriving Repr, DecidableEq

/-- Entry `j` belongs to the extent. -/
def Extent.Covers (e : Extent) (j : Nat) : Prop := e.start ≤ j ∧ j < e.start + e.len

theorem Extent.covers_mk {i k j : Nat} : (⟨i, k⟩ : Extent).Covers j ↔ i ≤ j ∧ j < i + k := Iff.rfl

/-- No entry belongs to both extents. -/
def Extent.Disjoint (e f : Extent) : Prop := ∀ j, e.Covers j → ¬ f.Covers j

theorem Extent.Disjoint.symm {e f : Extent} (h : e.Disjoint f) : f.Disjoint e :=
  fun j hf he => h j he hf

/-- Disjoint non-empty extents are ordered. -/
theorem Extent.Disjoint.ordered {e f : Extent} (h : e.Disjoint f) (he : 0 < e.len)
    (hf : 0 < f.len) : e.start + e.len ≤ f.start ∨ f.start + f.len ≤ e.start := by
  rcases Nat.lt_or_ge f.start (e.start + e.len) with h1 | h1
  · rcases Nat.lt_or_ge e.start (f.start + f.len) with h2 | h2
    · -- otherwise the larger of the two starts is covered twice
      exfalso
      rcases Nat.le_total e.start f.start with hle | hle
      · exact h f.start ⟨hle, h1⟩ ⟨Nat.le_refl _, by omega⟩
      · exact h e.start ⟨Nat.le_refl _, by omega⟩ ⟨hle, h2⟩
    · exact Or.inr h2
  · exact Or.inl h1

variable {α β : Type} {ext : α → Extent} {tag : Extent → Nat → β} {blank : β} {n : Nat}
  {table table' : Nat → β} {L : List α} {a : α}

/-- The first `n` entries of `table` encode exactly the extents of `L`. -/
structure Encodes (ext : α → Extent) (tag : Extent → Nat → β) (blank : β) (n : Nat)
    (table : Nat → β) (L : List α) : Prop where
  nonempty : ∀ a ∈ L, 0 < (ext a).len
  inside : ∀ a ∈ L, (ext a).start + (ext a).len ≤ n
  disjoint : L.Pairwise fun a b => (ext a).Disjoint (ext b)
  tagged : ∀ a ∈ L, ∀ j, (ext a).Covers j → table j = tag (ext a) j
  blank : ∀ j < n, (∀ a ∈ L, ¬ (ext a).Covers j) → table j = blank

/-- An all-blank table encodes no extent. -/
theorem Encodes.nil (h : ∀ j < n, table j = blank) : Encodes ext tag blank n table [] where
  nonempty := fun _ hm => absurd hm List.not_mem_nil
  inside := fun _ hm => absurd hm List.not_mem_nil
  disjoint := List.Pairwise.nil
  tagged := fun _ hm => absurd hm List.not_mem_nil
  blank := fun j hj _ => h j hj

/-- Disjoint non-empty extents are carried by distinct list elements. -/
theorem Encodes.nodup (h : Encodes ext tag blank n table L) : L.Nodup := by
  refine h.disjoint.imp_of_mem ?_
  rintro a b ha _ hd rfl
  exact hd (ext a).start ⟨Nat.le_refl _, Nat.lt_add_of_pos_right (h.nonempty a ha)⟩
    ⟨Nat.le_refl _, Nat.lt_add_of_pos_right (h.nonempty a ha)⟩

/-- Two different elements have disjoint extents, whichever comes first in the list. -/
theorem Encodes.disjoint_of_ne (h : Encodes ext tag blank n table L) {b : α} (ha : a ∈ L)
    (hb : b ∈ L) (hne : a ≠ b) : (ext a).Disjoint (ext b) :=
  haveI : Std.Symm fun a b : α => (ext a).Disjoint (ext b) := ⟨fun _ _ hd => hd.symm⟩
  h.disjoint.forall ha hb hne

/-- **Adding an extent.**  If the table is retagged on a fresh extent and nowhere else, it encodes
    the list with that extent added. -/
theorem Encodes.insert (h : Encodes ext tag blank n table L) (hpos : 0 < (ext a).len)
    (hin : (ext a).start + (ext a).len ≤ n) (hfresh : ∀ b ∈ L, (ext a).Disjoint (ext b))
    (htag : ∀ j, (ext a).Covers j → table' j = tag (ext a) j)
    (hkeep : ∀ j < n, ¬ (ext a).Covers j → table' j = table j) :
    Encodes ext tag blank n table' (a :: L) where
  nonempty := List.forall_mem_cons.mpr ⟨hpos, h.nonempty⟩
  inside := List.forall_mem_cons.mpr ⟨hin, h.inside⟩
  disjoint := List.pairwise_cons.mpr ⟨hfresh, h.disjoint⟩
  tagged := by
    intro b hb j hj
    rcases List.mem_cons.mp hb with rfl | hb
    · exact htag j hj
    · have hjn : j < n := Nat.lt_of_lt_of_le hj.2 (h.inside b hb)
      rw [hkeep j hjn ((hfresh b hb).symm j hj), h.tagged b hb j hj]
  blank := by
    intro j hj hcov
    obtain ⟨ha, hL⟩ := List.forall_mem_cons.mp hcov
    rw [hkeep j hj ha, h.blank j hj hL]

/-- **Removing an extent.**  If the table is blanked on one of its extents and changed nowhere
    else, it encodes the list without that extent. -/
theorem Encodes.erase [BEq α] [LawfulBEq α] (h : Encodes ext tag blank n table L) (ha : a ∈ L)
    (hblank : ∀ j, (ext a).Covers j → table' j = blank)
    (hkeep : ∀ j < n, ¬ (ext a).Covers j → table' j = table j) :
    Encodes ext tag blank n table' (L.erase a) where
  nonempty := fun b hb => h.nonempty b (List.mem_of_mem_erase hb)
  inside := fun b hb => h.inside b (List.mem_of_mem_erase hb)
  disjoint := h.disjoint.sublist List.erase_sublist
  tagged := by
    intro b hb j hj
    obtain ⟨hne, hbL⟩ := (h.nodup.mem_erase_iff).mp hb
    have hjn : j < n := Nat.lt_of_lt_of_le hj.2 (h.inside b hbL)
    rw [hkeep j hjn ((h.disjoint_of_ne hbL ha hne) j hj), h.tagged b hbL j hj]
  blank := by
    intro j hj hcov
    by_cases haj : (ext a).Covers j
    · exact hblank j haj
    · rw [hkeep j hj haj]
      apply h.blank j hj
      intro b hb
      by_cases hba : b = a
      · rw [hba]; exact haj
      · exact hcov b ((h.nodup.mem_erase_iff).mpr ⟨hba, hb⟩)

/-- **The list says it all.**  Two tables that encode the same elements, in whatever order, are the
    same. -/
theorem Encodes.unique {L' : List α} (h : Encodes ext tag blank n table L)
    (h' : Encodes ext tag blank n table' L') (hperm : L'.Perm L) : ∀ j < n, table' j = table j := by
  intro j hj
  by_cases hcov : ∃ a ∈ L, (ext a).Covers j
  · obtain ⟨a, ha, hcov⟩ := hcov
    rw [h.tagged a ha j hcov, h'.tagged a (hperm.mem_iff.mpr ha) j hcov]
  · have hout : ∀ a ∈ L, ¬ (ext a).Covers j := fun a ha hc => hcov ⟨a, ha, hc⟩
    rw [h.blank j hj hout, h'.blank j hj fun a ha => hout a (hperm.mem_iff.mp ha)]

/-- Turning `P` off on a range of `k` entries where it held, and nowhere else, lowers the
    number of entries satisfying it by `k`. -/
theorem card_filter_flip {P Q : Nat → Prop} [DecidablePred P] [DecidablePred Q] {i k : Nat}
    (hin : i + k ≤ n) (hP : ∀ j, i ≤ j → j < i + k → P j) (hQ : ∀ j, i ≤ j → j < i + k → ¬ Q j)
    (hkeep : ∀ j < n, ¬ (i ≤ j ∧ j < i + k) → (Q j ↔ P j)) :
    ((Finset.range n).filter P).card = ((Finset.range n).filter Q).card + k := by
  have hunion : (Finset.range n).filter P = (Finset.range n).filter Q ∪ Finset.Ico i (i + k) := by
    ext j
    simp only [Finset.mem_union, Finset.mem_filter, Finset.mem_range, Finset.mem_Ico]
    by_cases hj : i ≤ j ∧ j < i + k
    · exact ⟨fun _ => Or.inr hj, fun _ => ⟨by omega, hP j hj.1 hj.2⟩⟩
    · constructor
      · rintro ⟨hjn, hPj⟩
        exact Or.inl ⟨hjn, (hkeep j hjn hj).mpr hPj⟩
      · rintro (⟨hjn, hQj⟩ | hj')
        · exact ⟨hjn, (hkeep j hjn hj).mp hQj⟩
        · exact absurd hj' hj
  have hdisj : Disjoint ((Finset.range n).filter Q) (Finset.Ico i (i + k)) := by
    rw [Finset.disjoint_left]
    intro j hj hj'
    exact hQ j (Finset.mem_Ico.mp hj').1 (Finset.mem_Ico.mp hj').2 (Finset.mem_filter.mp hj).2
  rw [hunion, Finset.card_union_of_disjoint hdisj, Nat.card_Ico]
  omega

end TinyKernel
