/-
  Circular singly-linked lists, as a successor function on nodes.

  `Linked next a l z` says that from `a` the links lead through `l`, in order, to `z`.  A RING is
  a `Linked next a l a` without repetitions: `a` is where one stands, `l` the others in order.
  The operations on rings are statements about `Linked`:

  * `Linked.insert`   — a fresh node is spliced in right behind `a`;
  * `Linked.rotate`   — stepping on moves the node one stood at to the end of the order;
  * `Linked.redirect` — pointing the last node at a new target, which is how a node is unlinked.

  `orbit next n a` is what an observer sees who follows the links `n` times; `Linked.orbit_eq`
  says that in a ring he sees every node once and is back where he started.
-/
import Mathlib.Data.List.Nodup
import Mathlib.Logic.Function.Iterate

namespace TinyKernel

variable {α : Type} {next next' : α → α}

/-- From `a` the links lead through `l` to `z`. -/
def Linked (next : α → α) : α → List α → α → Prop
  | a, [], z => next a = z
  | a, b :: l, z => next a = b ∧ Linked next b l z

/-- The first `n` nodes met from `a` on. -/
def orbit (next : α → α) : Nat → α → List α
  | 0, _ => []
  | n + 1, a => a :: orbit next n (next a)

/-- Following the links of a ring visits its nodes in order and comes back. -/
theorem Linked.orbit_eq : ∀ {l : List α} {a z : α}, Linked next a l z →
    orbit next (a :: l).length a = a :: l ∧ next^[(a :: l).length] a = z := by
  intro l
  induction l with
  | nil =>
    intro a z h
    exact ⟨rfl, h⟩
  | cons b l ih =>
    rintro a z ⟨hab, hbl⟩
    obtain ⟨ho, hz⟩ := ih hbl
    subst hab
    constructor
    · rw [List.length_cons, orbit, ho]
    · rw [List.length_cons, Function.iterate_succ_apply, hz]

/-- A link of the chain leads on along the chain. -/
theorem Linked.next_mem : ∀ {l : List α} {a z x : α}, Linked next a l z → x ∈ a :: l →
    next x ∈ l ++ [z] := by
  intro l
  induction l with
  | nil =>
    intro a z x h hx
    rw [List.mem_singleton.mp hx, show next a = z from h]
    exact List.mem_cons_self
  | cons b l ih =>
    rintro a z x ⟨hab, hbl⟩ hx
    rcases List.mem_cons.mp hx with rfl | hx
    · rw [hab]; exact List.mem_cons_self
    · exact List.mem_cons_of_mem _ (ih hbl hx)

/-- However long one follows the links of a ring, one stays in it. -/
theorem Linked.iterate_mem {a : α} {l : List α} (h : Linked next a l a) :
    ∀ i, next^[i] a ∈ a :: l := by
  intro i
  induction i with
  | zero => exact List.mem_cons_self
  | succ i ih =>
    rw [Function.iterate_succ_apply']
    have := h.next_mem ih
    rwa [List.mem_append, List.mem_singleton, or_comm, ← List.mem_cons] at this

/-- Where one is after `i + 1` links. -/
theorem Linked.getElem?_iterate : ∀ {l : List α} {a z : α}, Linked next a l z → ∀ i,
    i < (l ++ [z]).length → (l ++ [z])[i]? = some (next^[i + 1] a) := by
  intro l
  induction l with
  | nil =>
    intro a z h i hi
    cases i with
    | zero => exact congrArg some (show next a = z from h).symm
    | succ i => exact absurd hi (by simp)
  | cons b l ih =>
    rintro a z ⟨hab, hbl⟩ i hi
    cases i with
    | zero => exact congrArg some hab.symm
    | succ i =>
      rw [List.cons_append, List.getElem?_cons_succ, Function.iterate_succ_apply, hab]
      exact ih hbl i (by simpa using hi)

/-- Only the links out of the nodes passed matter. -/
theorem Linked.congr : ∀ {l : List α} {a z : α}, (∀ x ∈ a :: l, next' x = next x) →
    Linked next a l z → Linked next' a l z := by
  intro l
  induction l with
  | nil =>
    intro a z hag h
    show next' a = z
    rw [hag a List.mem_cons_self]
    exact h
  | cons b l ih =>
    rintro a z hag ⟨hab, hbl⟩
    constructor
    · rw [hag a List.mem_cons_self, hab]
    · exact ih (fun x hx => hag x (List.mem_cons_of_mem _ hx)) hbl

/-- The last link, taken off. -/
theorem Linked.snoc : ∀ {l : List α} {a y z : α}, Linked next a l y → next y = z →
    Linked next a (l ++ [y]) z := by
  intro l
  induction l with
  | nil =>
    intro a y z h hy
    exact ⟨h, hy⟩
  | cons b l ih =>
    rintro a y z ⟨hab, hbl⟩ hy
    exact ⟨hab, ih hbl hy⟩

/-- Stepping from `a` to the next node of the ring. -/
theorem Linked.rotate {a b : α} {l : List α} (h : Linked next a (b :: l) a) :
    Linked next b (l ++ [a]) b :=
  h.2.snoc h.1

/-- Splicing a fresh node in behind `a`. -/
theorem Linked.insert {a b z : α} {l : List α} (h : Linked next a l z) (hb : b ∉ a :: l)
    (hnd : (a :: l).Nodup) (ha : next' a = b) (hbn : next' b = next a)
    (hag : ∀ x, x ≠ a → x ≠ b → next' x = next x) : Linked next' a (b :: l) z := by
  refine ⟨ha, ?_⟩
  cases l with
  | nil => exact hbn.trans h
  | cons c l =>
    refine ⟨hbn.trans h.1, h.2.congr fun x hx => hag x ?_ ?_⟩
    · rintro rfl
      exact (List.nodup_cons.mp hnd).1 hx
    · rintro rfl
      exact hb (List.mem_cons_of_mem _ hx)

/-- Pointing the last node at a new target. -/
theorem Linked.redirect : ∀ {l : List α} {a z w : α}, Linked next a l z → (a :: l).Nodup →
    next' ((a :: l).getLast (List.cons_ne_nil a l)) = w →
    (∀ x, x ≠ (a :: l).getLast (List.cons_ne_nil a l) → next' x = next x) → Linked next' a l w := by
  intro l
  induction l with
  | nil =>
    intro a z w _ _ hw _
    exact hw
  | cons b l ih =>
    rintro a z w ⟨hab, hbl⟩ hnd hw hag
    have hlast : (a :: b :: l).getLast (List.cons_ne_nil a _)
        = (b :: l).getLast (List.cons_ne_nil b l) := List.getLast_cons (List.cons_ne_nil b l)
    rw [hlast] at hw hag
    have hane : a ≠ (b :: l).getLast (List.cons_ne_nil b l) := by
      intro h
      exact (List.nodup_cons.mp hnd).1 (h ▸ List.getLast_mem (List.cons_ne_nil b l))
    constructor
    · rw [hag a hane, hab]
    · exact ih hbl (List.nodup_cons.mp hnd).2 hw hag

end TinyKernel
