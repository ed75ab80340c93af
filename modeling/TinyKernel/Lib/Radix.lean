/-
  Radix trees kept in tables: the walk, the ownership discipline, and what an insertion does.

  A TABLE (named by a `T`) maps indices to entries.  A path is a list of indices; all paths from
  a root have the same length, the depth of the tree.  An entry met before the last index is
  invalid, a block (a leaf that covers everything below it) or a pointer to the next table; at
  the last index it is a leaf or not.  `walk` is that descent and returns the leaf together with
  the number of indices it left unread.

  Nothing in the tables says that the tree IS a tree.  The ghost map `role` does: it assigns to
  every table in use the root it belongs to and the path that leads to it, and `Owned` says that
  the pointers in the tables agree with it.  Two different paths then never meet in one table,
  which is the whole content of the frame lemmas.

  * `walk_congr`    — a walk depends only on the tables at or below the one it starts in;
  * `Insert`        — what the insertion algorithm may do, one constructor per branch;
  * `Insert.effect` — the insertion maps its own path, keeps every other path of the same root,
    and keeps every entry of every table that is not below the one it started in;
  * `Insert.missing_eq` — the tables that other paths still lack after it.
-/
import Mathlib.Data.List.Infix
import Mathlib.Logic.Function.Basic

namespace TinyKernel

namespace Radix

/-- How an entry is read before the last level. -/
inductive Kind (T : Type)
  | invalid
  | block
  | next (t : T)

/-- How entries are read.  `last` is what the walk accepts as a leaf at the last level and
    `occupied` is what the insertion refuses to overwrite there. -/
structure Format (T E : Type) where
  inner : E → Kind T
  last : E → Bool
  occupied : E → Bool
  occupied_of_last : ∀ e, last e = true → occupied e = true

/-- The tables in use: the root each belongs to, and the path to it. -/
abbrev Role (T I : Type) := T → Option (T × List I)

variable {T I E : Type} {F : Format T E} {tab tab' : T → I → E} {role role' : Role T I}
  {depth : Nat}

/-! ## The walk -/

/-- The descent along a path: the leaf met, with the number of indices left unread. -/
def walk (F : Format T E) (tab : T → I → E) : T → List I → Option (Nat × E)
  | _, [] => none
  | t, [k] => if F.last (tab t k) then some (0, tab t k) else none
  | t, k :: k' :: ks =>
    match F.inner (tab t k) with
    | .invalid => none
    | .block => some (ks.length + 1, tab t k)
    | .next t' => walk F tab t' (k' :: ks)

/-- The number of tables that an insertion along a path has to create. -/
def missing (F : Format T E) (tab : T → I → E) : T → List I → Nat
  | _, [] => 0
  | _, [_] => 0
  | t, k :: k' :: ks =>
    match F.inner (tab t k) with
    | .invalid => ks.length + 1
    | .block => 0
    | .next t' => missing F tab t' (k' :: ks)

/-- No entry of the table is in use, at whatever level it stands. -/
def Blank (F : Format T E) (tab : T → I → E) (t : T) : Prop :=
  ∀ j, F.inner (tab t j) = .invalid ∧ F.occupied (tab t j) = false

/-- A block ends the walk. -/
theorem walk_block {t : T} {k k' : I} {ks : List I} (h : F.inner (tab t k) = .block) :
    walk F tab t (k :: k' :: ks) = some (ks.length + 1, tab t k) := by
  rw [walk, h]

theorem walk_blank {t : T} (hb : Blank F tab t) : ∀ (ks : List I), walk F tab t ks = none := by
  rintro (_ | ⟨k, _ | ⟨k', ks⟩⟩)
  · rfl
  · have hlast : ¬ F.last (tab t k) = true := fun hl =>
      absurd (F.occupied_of_last _ hl) (by rw [(hb k).2]; decide)
    rw [walk, if_neg hlast]
  · rw [walk, (hb k).1]

theorem missing_blank {t : T} (hb : Blank F tab t) : ∀ (k : I) (ks : List I),
    missing F tab t (k :: ks) = ks.length
  | _, [] => rfl
  | k, k' :: ks => by rw [missing, (hb k).1]; rfl

/-- Below the table it starts in, an insertion creates at most one table per further index. -/
theorem missing_le : ∀ (t : T) (k : I) (ks : List I), missing F tab t (k :: ks) ≤ ks.length
  | _, _, [] => Nat.le_refl _
  | t, k, k' :: ks => by
    rw [missing]
    split
    · exact Nat.le_refl _
    · exact Nat.zero_le _
    · exact Nat.le_succ_of_le (missing_le _ k' ks)

/-- Next to a path that is walked to its end, only the tables below the fork are missing. -/
theorem missing_sibling {e : E} : ∀ (p : List I) (t : T) (a b : I) (as bs : List I),
    as.length = bs.length → walk F tab t (p ++ a :: as) = some (0, e) →
    missing F tab t (p ++ b :: bs) ≤ bs.length
  | [], t, _, b, _, bs, _, _ => missing_le t b bs
  | k :: p, t, a, b, as, bs, hlen, hw => by
    obtain ⟨k1, ks1, h1⟩ := List.exists_cons_of_ne_nil (List.append_ne_nil_of_right_ne_nil p
      (List.cons_ne_nil a as))
    obtain ⟨k2, ks2, h2⟩ := List.exists_cons_of_ne_nil (List.append_ne_nil_of_right_ne_nil p
      (List.cons_ne_nil b bs))
    rw [List.cons_append, h1, walk] at hw
    rw [List.cons_append, h2, missing]
    split at hw
    · exact absurd hw (by simp)
    · simp at hw
    · rename_i t' _
      rw [← h1] at hw
      rw [← h2]
      exact missing_sibling p t' a b as bs hlen hw

/-! ## Ownership -/

/-- The pointers in the tables agree with the roles, and the last level holds no entry that is
    occupied without being a leaf. -/
structure Owned (F : Format T E) (depth : Nat) (tab : T → I → E) (role : Role T I) : Prop where
  child : ∀ t r p k t', role t = some (r, p) → p.length + 1 < depth →
    F.inner (tab t k) = .next t' → role t' = some (r, p ++ [k])
  clean : ∀ t r p k, role t = some (r, p) → p.length + 1 = depth →
    F.occupied (tab t k) = true → F.last (tab t k) = true

/-- **A walk reads only its own subtree.**  Two table stores that agree on the tables at or below
    the path `p` give the same walks from the table at `p`. -/
theorem walk_congr (ho : Owned F depth tab role) {r : T} : ∀ (ks : List I) (t : T) (p : List I),
    role t = some (r, p) → p.length + ks.length = depth →
    (∀ u q, role u = some (r, q) → p <+: q → ∀ j, tab' u j = tab u j) →
    walk F tab' t ks = walk F tab t ks
  | [], _, _, _, _, _ => rfl
  | [k], t, p, ht, _, hag => by
    rw [walk, walk, hag t p ht (List.prefix_refl p) k]
  | k :: k' :: ks, t, p, ht, hlen, hag => by
    rw [walk, walk, hag t p ht (List.prefix_refl p) k]
    simp only [List.length_cons] at hlen
    split
    · rfl
    · rfl
    · rename_i t' hk
      refine walk_congr ho (k' :: ks) t' (p ++ [k]) (ho.child t r p k t' ht (by omega) hk)
        (by simp only [List.length_append, List.length_cons, List.length_nil]; omega) ?_
      intro u q hu hq
      exact hag u q hu ((List.prefix_append p [k]).trans hq)

/-- Tables at paths of different lengths are different. -/
theorem ne_of_length_ne {t u r r' : T} {p q : List I} (ht : role t = some (r, p))
    (hu : role u = some (r', q)) (h : q.length ≠ p.length) : u ≠ t := by
  rintro rfl
  obtain ⟨rfl, rfl⟩ := Prod.mk.inj (Option.some.inj (ht.symm.trans hu))
  exact h rfl

/-- Two different one-step extensions of a path have no common extension. -/
theorem not_both_prefix {p q : List I} {j k : I} (hne : j ≠ k) (hj : p ++ [j] <+: q)
    (hk : p ++ [k] <+: q) : False := by
  have hle : (p ++ [j]).length ≤ (p ++ [k]).length := by simp
  have heq := (List.prefix_of_prefix_length_le hj hk hle).eq_of_length (by simp)
  exact hne (List.singleton_inj.mp (List.append_cancel_left heq))

theorem not_prefix_self {p : List I} {k : I} : ¬ p ++ [k] <+: p := by
  intro h
  have hle := h.length_le
  simp only [List.length_append, List.length_cons, List.length_nil] at hle
  omega

/-- A walk through entry `j` of table `t` reads that entry and the subtree below it. -/
theorem walk_cons_congr (ho : Owned F depth tab role) {r t : T} {p js : List I} {j : I}
    (ht : role t = some (r, p)) (hlen : p.length + (j :: js).length = depth)
    (hj : tab' t j = tab t j)
    (hag : ∀ u q, role u = some (r, q) → p ++ [j] <+: q → ∀ i, tab' u i = tab u i) :
    walk F tab' t (j :: js) = walk F tab t (j :: js) := by
  cases js with
  | nil => rw [walk, walk, hj]
  | cons j' js =>
    simp only [List.length_cons] at hlen
    rw [walk, walk, hj]
    split
    · rfl
    · rfl
    · rename_i t' hk
      exact walk_congr ho (j' :: js) t' (p ++ [j]) (ho.child t r p j t' ht (by omega) hk)
        (by simp only [List.length_append, List.length_cons, List.length_nil]; omega) hag

/-- Two table stores that agree on every owned entry except entry `k` of table `t`. -/
def AgreeExcept (role : Role T I) (tab tab' : T → I → E) (t : T) (k : I) : Prop :=
  ∀ u, (role u).isSome → ∀ j, (u = t → j ≠ k) → tab' u j = tab u j

/-- The role map with one more table. -/
def assign [DecidableEq T] (role : Role T I) (t r : T) (p : List I) : Role T I :=
  Function.update role t (some (r, p))

/-! ## Insertion -/

/-- `Insert F new r role tab t p ks ok role' tab'`: started in table `t` (at path `p` under root
    `r`), the insertion of `new` along `ks` may turn the tables `tab` into `tab'`, creating the
    tables that `role'` has over `role`; `ok` says whether it succeeded. -/
inductive Insert [DecidableEq T] (F : Format T E) (new : E) (r : T) : Role T I → (T → I → E) → T →
    List I → List I → Bool → Role T I → (T → I → E) → Prop
  /-- The very entry is there already. -/
  | same {role tab t p k} (h : tab t k = new) : Insert F new r role tab t p [k] true role tab
  /-- Another leaf is in the way. -/
  | full {role tab t p k} (hne : tab t k ≠ new) (h : F.occupied (tab t k) = true) :
      Insert F new r role tab t p [k] false role tab
  /-- The slot is free: write the entry. -/
  | put {role tab t p k tab'} (h : F.occupied (tab t k) = false) (hw : tab' t k = new)
      (hk : AgreeExcept role tab tab' t k) : Insert F new r role tab t p [k] true role tab'
  /-- A block is in the way. -/
  | block {role tab t p k k' ks} (h : F.inner (tab t k) = .block) :
      Insert F new r role tab t p (k :: k' :: ks) false role tab
  /-- Descend into the next table. -/
  | next {role tab t p k k' ks t' ok role' tab'} (h : F.inner (tab t k) = .next t')
      (hr : Insert F new r role tab t' (p ++ [k]) (k' :: ks) ok role' tab') :
      Insert F new r role tab t p (k :: k' :: ks) ok role' tab'
  /-- Create the next table, blank and owned by nobody, hook it in and descend. -/
  | grow {role tab t p k k' ks t' tab₁ ok role' tab'} (h : F.inner (tab t k) = .invalid)
      (hfresh : role t' = none) (hblank : Blank F tab₁ t') (hw : F.inner (tab₁ t k) = .next t')
      (hk : AgreeExcept role tab tab₁ t k)
      (hr : Insert F new r (assign role t' r (p ++ [k])) tab₁ t' (p ++ [k]) (k' :: ks) ok role'
        tab') :
      Insert F new r role tab t p (k :: k' :: ks) ok role' tab'

/-- What an insertion along `ks`, started in the table `t` at path `p` under root `r`, does to
    the tree. -/
structure Effect (F : Format T E) (depth : Nat) (new : E) (r : T) (role : Role T I)
    (tab : T → I → E) (t : T) (p ks : List I) (ok : Bool) (role' : Role T I)
    (tab' : T → I → E) : Prop where
  /-- No table changes its role. -/
  keeps : ∀ u x, role u = some x → role' u = some x
  owned : Owned F depth tab' role'
  /-- Tables that are not at or below `p` under `r` keep their entries. -/
  frame : ∀ u r' q, role u = some (r', q) → ¬ (r' = r ∧ p <+: q) → ∀ j, tab' u j = tab u j
  /-- A failed insertion changes nothing. -/
  failed : ok = false → role' = role ∧ tab' = tab
  hit : ok = true → walk F tab' t ks = some (0, new)
  ok_iff : ok = true ↔ walk F tab t ks = none ∨ walk F tab t ks = some (0, new)
  miss : ∀ ks', ks'.length = ks.length → ks' ≠ ks → walk F tab' t ks' = walk F tab t ks'

theorem assign_same [DecidableEq T] (role : Role T I) (t r : T) (p : List I) :
    assign role t r p t = some (r, p) :=
  Function.update_self ..

theorem assign_of_some [DecidableEq T] {t r u : T} {p : List I} {x : T × List I}
    (hfresh : role t = none)
    (hu : role u = some x) : assign role t r p u = some x := by
  have hne : u ≠ t := by
    rintro rfl
    rw [hfresh] at hu
    exact absurd hu (by simp)
  rw [assign, Function.update_of_ne hne, hu]

theorem assign_cases [DecidableEq T] {t r u : T} {p : List I} {x : T × List I}
    (h : assign role t r p u = some x) : (u = t ∧ x = (r, p)) ∨ (u ≠ t ∧ role u = some x) := by
  by_cases hu : u = t
  · subst hu
    rw [assign_same] at h
    exact Or.inl ⟨rfl, (Option.some.inj h).symm⟩
  · rw [assign, Function.update_of_ne hu] at h
    exact Or.inr ⟨hu, h⟩

/-- Hooking a fresh blank table in at entry `k` of table `t` keeps the tree owned. -/
theorem Owned.grow [DecidableEq T] (ho : Owned F depth tab role) {t r t' : T} {p : List I} {k : I}
    {tab₁ : T → I → E} (ht : role t = some (r, p)) (hp : p.length + 1 < depth)
    (hfresh : role t' = none) (hblank : Blank F tab₁ t')
    (hw : F.inner (tab₁ t k) = .next t') (hk : AgreeExcept role tab tab₁ t k) :
    Owned F depth tab₁ (assign role t' r (p ++ [k])) where
  child := by
    intro u r' q j v hu hq hv
    rcases assign_cases hu with ⟨rfl, -⟩ | ⟨-, hu'⟩
    · rw [(hblank j).1] at hv
      exact absurd hv (by simp)
    · by_cases hj : u = t ∧ j = k
      · -- the entry that was just written points to the new table
        obtain ⟨rfl, rfl⟩ := hj
        obtain ⟨rfl, rfl⟩ := Prod.mk.inj (Option.some.inj (ht.symm.trans hu'))
        rw [hw] at hv
        injection hv with hv
        rw [← hv]
        exact assign_same ..
      · rw [hk u (by rw [hu']; rfl) j (fun hut hjk => hj ⟨hut, hjk⟩)] at hv
        exact assign_of_some hfresh (ho.child u r' q j v hu' hq hv)
  clean := by
    intro u r' q j hu hq hocc
    rcases assign_cases hu with ⟨rfl, -⟩ | ⟨-, hu⟩
    · rw [(hblank j).2] at hocc
      exact absurd hocc (by decide)
    · have hut : u ≠ t := ne_of_length_ne ht hu (by omega)
      rw [hk u (by rw [hu]; rfl) j (absurd · hut)] at hocc ⊢
      exact ho.clean u r' q j hu hq hocc

/-- Writing a leaf over a free entry of a last-level table keeps the tree owned. -/
theorem Owned.put (ho : Owned F depth tab role) {t r : T} {p : List I} {k : I} {new : E}
    (hnew : F.last new = true) (ht : role t = some (r, p)) (hp : p.length + 1 = depth)
    (hw : tab' t k = new) (hk : AgreeExcept role tab tab' t k) : Owned F depth tab' role where
  child := by
    intro u r' q j v hu hq hv
    have hut : u ≠ t := ne_of_length_ne ht hu (by omega)
    rw [hk u (by rw [hu]; rfl) j (absurd · hut)] at hv
    exact ho.child u r' q j v hu hq hv
  clean := by
    intro u r' q j hu hq hocc
    by_cases hj : u = t ∧ j = k
    · rw [hj.1, hj.2, hw]
      exact hnew
    · rw [hk u (by rw [hu]; rfl) j (fun hut hjk => hj ⟨hut, hjk⟩)] at hocc ⊢
      exact ho.clean u r' q j hu hq hocc

/-- An entry that was rewritten to a block keeps the tree owned: its old subtree is cut off. -/
theorem Owned.cut (ho : Owned F depth tab role) {t r : T} {p : List I} {k : I}
    (ht : role t = some (r, p)) (hp : p.length + 1 < depth)
    (hw : ∀ t', F.inner (tab' t k) ≠ .next t') (hk : AgreeExcept role tab tab' t k) :
    Owned F depth tab' role where
  child := by
    intro u r' q j v hu hq hv
    by_cases hj : u = t ∧ j = k
    · rw [hj.1, hj.2] at hv
      exact absurd hv (hw v)
    · rw [hk u (by rw [hu]; rfl) j (fun hut hjk => hj ⟨hut, hjk⟩)] at hv
      exact ho.child u r' q j v hu hq hv
  clean := by
    intro u r' q j hu hq hocc
    have hut : u ≠ t := ne_of_length_ne ht hu (by omega)
    rw [hk u (by rw [hu]; rfl) j (absurd · hut)] at hocc ⊢
    exact ho.clean u r' q j hu hq hocc

/-- A new root: a blank table that nobody owns becomes the root of an empty tree. -/
theorem Owned.root [DecidableEq T] (ho : Owned F depth tab role) {r : T} (hfresh : role r = none)
    (hblank : Blank F tab' r) (hk : ∀ u, (role u).isSome → ∀ j, tab' u j = tab u j) :
    Owned F depth tab' (assign role r r []) where
  child := by
    intro u r' q j v hu hq hv
    rcases assign_cases hu with ⟨rfl, -⟩ | ⟨-, hu⟩
    · rw [(hblank j).1] at hv
      exact absurd hv (by simp)
    · rw [hk u (by rw [hu]; rfl) j] at hv
      exact assign_of_some hfresh (ho.child u r' q j v hu hq hv)
  clean := by
    intro u r' q j hu hq hocc
    rcases assign_cases hu with ⟨rfl, -⟩ | ⟨-, hu⟩
    · rw [(hblank j).2] at hocc
      exact absurd hocc (by decide)
    · rw [hk u (by rw [hu]; rfl) j] at hocc ⊢
      exact ho.clean u r' q j hu hq hocc

/-! ## The effect of an insertion -/

variable {new : E} {r t : T} {p ks : List I} {k : I} {ok : Bool}

/-- An insertion that stops without writing: at the same entry, or at something in the way. -/
theorem Effect.unchanged (ho : Owned F depth tab role)
    (hiff : ok = true ↔ walk F tab t ks = none ∨ walk F tab t ks = some (0, new))
    (hhit : ok = true → walk F tab t ks = some (0, new)) :
    Effect F depth new r role tab t p ks ok role tab where
  keeps := fun _ _ h => h
  owned := ho
  frame := fun _ _ _ _ _ _ => rfl
  failed := fun _ => ⟨rfl, rfl⟩
  hit := hhit
  ok_iff := hiff
  miss := fun _ _ _ => rfl

/-- Writing the leaf into a free entry of a last-level table. -/
theorem Effect.put (hnew : F.last new = true) (ho : Owned F depth tab role)
    (ht : role t = some (r, p)) (hlen : p.length + 1 = depth)
    (hfree : F.occupied (tab t k) = false) (hw : tab' t k = new)
    (hk : AgreeExcept role tab tab' t k) :
    Effect F depth new r role tab t p [k] true role tab' where
  keeps := fun _ _ h => h
  owned := ho.put hnew ht hlen hw hk
  frame := by
    intro u r' q hu hnot j
    refine hk u (by rw [hu]; rfl) j ?_
    rintro rfl
    obtain ⟨rfl, rfl⟩ := Prod.mk.inj (Option.some.inj (ht.symm.trans hu))
    exact absurd ⟨rfl, List.prefix_refl p⟩ hnot
  failed := fun h => absurd h (by decide)
  hit := fun _ => by rw [walk, hw, if_pos hnew]
  ok_iff := by
    have hlast : ¬ F.last (tab t k) = true := fun hl =>
      absurd (F.occupied_of_last _ hl) (by rw [hfree]; decide)
    rw [walk, if_neg hlast]
    simp
  miss := by
    intro ks' hl hne
    obtain ⟨j, rfl⟩ := List.length_eq_one_iff.mp hl
    have hjk : j ≠ k := fun h => hne (by rw [h])
    rw [walk, walk, hk t (by rw [ht]; rfl) j (fun _ => hjk)]

/-- An insertion below entry `k` changes no other entry of the table, and nothing behind one. -/
theorem Effect.next_beside {t' : T} {ks' : List I} {j : I} (ht : role t = some (r, p))
    (he : Effect F depth new r role tab t' (p ++ [k]) ks' ok role' tab') (hjk : j ≠ k) :
    tab' t j = tab t j ∧
      ∀ u q, role u = some (r, q) → p ++ [j] <+: q → ∀ i, tab' u i = tab u i := by
  constructor
  · exact he.frame t r p ht (fun h => not_prefix_self h.2) j
  · intro u q hu hq
    exact he.frame u r q hu (fun h => not_both_prefix hjk hq h.2)

/-- The same where the table below the entry is a new one. -/
theorem Effect.grow_beside [DecidableEq T] {t' : T} {ks' : List I} {j : I} {tab₁ : T → I → E}
    (ht : role t = some (r, p)) (hfresh : role t' = none) (hk : AgreeExcept role tab tab₁ t k)
    (he : Effect F depth new r (assign role t' r (p ++ [k])) tab₁ t' (p ++ [k]) ks' ok role' tab')
    (hjk : j ≠ k) :
    tab' t j = tab t j ∧
      ∀ u q, role u = some (r, q) → p ++ [j] <+: q → ∀ i, tab' u i = tab u i := by
  constructor
  · rw [he.frame t r p (assign_of_some hfresh ht) (fun h => not_prefix_self h.2) j,
      hk t (by rw [ht]; rfl) j (fun _ => hjk)]
  · intro u q hu hq i
    have hut : u ≠ t := by
      refine ne_of_length_ne ht hu ?_
      have := hq.length_le
      simp only [List.length_append, List.length_cons, List.length_nil] at this
      omega
    rw [he.frame u r q (assign_of_some hfresh hu) (fun h => not_both_prefix hjk hq h.2) i]
    exact hk u (by rw [hu]; rfl) i (absurd · hut)

/-- Passing the effect of an insertion into the next table up to this one. -/
theorem Effect.next {t' : T} {k' : I} (ho : Owned F depth tab role) (ht : role t = some (r, p))
    (hlen : p.length + (k :: k' :: ks).length = depth) (hk : F.inner (tab t k) = .next t')
    (he : Effect F depth new r role tab t' (p ++ [k]) (k' :: ks) ok role' tab') :
    Effect F depth new r role tab t p (k :: k' :: ks) ok role' tab' := by
  have hrow : ∀ j, tab' t j = tab t j :=
    he.frame t r p ht (fun h => not_prefix_self h.2)
  have hwalk : walk F tab t (k :: k' :: ks) = walk F tab t' (k' :: ks) := by rw [walk, hk]
  refine ⟨he.keeps, he.owned, ?_, he.failed, ?_, ?_, ?_⟩
  · intro u r' q hu hnot
    exact he.frame u r' q hu
      (fun h => hnot ⟨h.1, (List.prefix_append p [k]).trans h.2⟩)
  · intro hok
    rw [walk, hrow k, hk]
    exact he.hit hok
  · rw [hwalk]
    exact he.ok_iff
  · intro ks' hl hne
    obtain ⟨j, j', js, rfl⟩ : ∃ j j' js, ks' = j :: j' :: js := by
      match ks', hl with
      | j :: j' :: js, _ => exact ⟨j, j', js, rfl⟩
    by_cases hjk : j = k
    · subst hjk
      rw [walk, walk, hrow j, hk]
      exact he.miss (j' :: js) (by simpa using hl) (fun h => hne (by rw [h]))
    · obtain ⟨hj, hag⟩ := he.next_beside ht hjk
      exact walk_cons_congr ho ht (by rw [hl]; exact hlen) hj hag

/-- Passing the effect of an insertion into a freshly created table up to this one. -/
theorem Effect.grow [DecidableEq T] {t' : T} {k' : I} {tab₁ : T → I → E} (ho : Owned F depth tab role)
    (ht : role t = some (r, p)) (hlen : p.length + (k :: k' :: ks).length = depth)
    (h : F.inner (tab t k) = .invalid) (hfresh : role t' = none) (hblank : Blank F tab₁ t')
    (hw : F.inner (tab₁ t k) = .next t') (hk : AgreeExcept role tab tab₁ t k)
    (he : Effect F depth new r (assign role t' r (p ++ [k])) tab₁ t' (p ++ [k]) (k' :: ks) ok
      role' tab') :
    Effect F depth new r role tab t p (k :: k' :: ks) ok role' tab' := by
  -- nothing is in the way in a blank table
  have hok : ok = true := he.ok_iff.mpr (Or.inl (walk_blank hblank _))
  have hnone : ∀ js, walk F tab t (k :: k' :: js) = none := fun js => by rw [walk, h]
  have hrow : ∀ j, tab' t j = tab₁ t j :=
    he.frame t r p (assign_of_some hfresh ht) (fun h => not_prefix_self h.2)
  refine ⟨fun u x hu => he.keeps u x (assign_of_some hfresh hu), he.owned, ?_,
    fun hf => absurd hf (by rw [hok]; decide), ?_, ?_, ?_⟩
  · intro u r' q hu hnot j
    have hut : u ≠ t := by
      rintro rfl
      obtain ⟨rfl, rfl⟩ := Prod.mk.inj (Option.some.inj (ht.symm.trans hu))
      exact hnot ⟨rfl, List.prefix_refl p⟩
    rw [he.frame u r' q (assign_of_some hfresh hu)
      (fun h => hnot ⟨h.1, (List.prefix_append p [k]).trans h.2⟩) j]
    exact hk u (by rw [hu]; rfl) j (absurd · hut)
  · intro _
    rw [walk, hrow k, hw]
    exact he.hit hok
  · rw [hnone ks, hok]
    simp
  · intro ks' hl hne
    obtain ⟨j, j', js, rfl⟩ : ∃ j j' js, ks' = j :: j' :: js := by
      match ks', hl with
      | j :: j' :: js, _ => exact ⟨j, j', js, rfl⟩
    by_cases hjk : j = k
    · -- below the new table nothing else is mapped, as nothing was mapped below the entry
      subst hjk
      rw [walk, walk, hrow j, hw, h]
      simp only
      rw [he.miss (j' :: js) (by simpa using hl) (fun h => hne (by rw [h])),
        walk_blank hblank]
    · obtain ⟨hj, hag⟩ := he.grow_beside ht hfresh hk hjk
      exact walk_cons_congr ho ht (by rw [hl]; exact hlen) hj hag

/-- **What an insertion does.**  Every derivation of `Insert` has the `Effect`. -/
theorem Insert.effect [DecidableEq T] (hnew : F.last new = true)
    (h : Insert F new r role tab t p ks ok role' tab') (ho : Owned F depth tab role)
    (ht : role t = some (r, p)) (hlen : p.length + ks.length = depth) :
    Effect F depth new r role tab t p ks ok role' tab' := by
  induction h with
  | same h =>
    have hwalk : ∀ {tab : T → I → E} {t : T} {k : I}, tab t k = new →
        walk F tab t [k] = some (0, new) := by
      intro tab t k h
      rw [walk, h, if_pos hnew]
    exact Effect.unchanged ho (by simp [hwalk h]) (fun _ => hwalk h)
  | @full role tab t p k hne h =>
    have hlast : F.last (tab t k) = true := ho.clean t r p k ht (by simpa using hlen) h
    refine Effect.unchanged ho ?_ (fun h => absurd h (by decide))
    rw [walk, if_pos hlast]
    simp [hne]
  | put h hw hk => exact Effect.put hnew ho ht (by simpa using hlen) h hw hk
  | @block role tab t p k k' ks h =>
    refine Effect.unchanged ho ?_ (fun h => absurd h (by decide))
    rw [walk, h]
    simp
  | @next role tab t p k k' ks t' ok role' tab' h _ ih =>
    simp only [List.length_cons] at hlen
    have ht' : role t' = some (r, p ++ [k]) := ho.child t r p k t' ht (by omega) h
    refine Effect.next ho ht (by simpa using hlen) h (ih ho ht' ?_)
    simp only [List.length_append, List.length_cons, List.length_nil]
    omega
  | @grow role tab t p k k' ks t' tab₁ ok role' tab' h hfresh hblank hw hk _ ih =>
    simp only [List.length_cons] at hlen
    refine Effect.grow ho ht (by simpa using hlen) h hfresh hblank hw hk
      (ih (ho.grow ht (by omega) hfresh hblank hw hk) (assign_same ..) ?_)
    simp only [List.length_append, List.length_cons, List.length_nil]
    omega

/-! ## What is missing after an insertion -/

/-- The indices of the second path that are below its fork from the first. -/
def belowFork [DecidableEq I] : List I → List I → Nat
  | k :: ks, j :: js => if j = k then belowFork ks js else js.length
  | _, _ => 0

theorem belowFork_le [DecidableEq I] : ∀ (ks : List I) (j : I) (js : List I),
    belowFork ks (j :: js) ≤ js.length
  | [], _, _ => Nat.zero_le _
  | k :: ks, j, [] => by
    rw [belowFork]
    split
    · cases ks <;> exact Nat.le_refl 0
    · exact Nat.le_refl _
  | k :: ks, j, j' :: js => by
    rw [belowFork]
    split
    · exact Nat.le_succ_of_le (belowFork_le ks j' js)
    · exact Nat.le_refl _

/-- What is missing on a path depends on the tables at or below the one it starts in. -/
theorem missing_congr (ho : Owned F depth tab role) {r : T} : ∀ (ks : List I) (t : T) (p : List I),
    role t = some (r, p) → p.length + ks.length = depth →
    (∀ u q, role u = some (r, q) → p <+: q → ∀ j, tab' u j = tab u j) →
    missing F tab' t ks = missing F tab t ks
  | [], _, _, _, _, _ => rfl
  | [_], _, _, _, _, _ => rfl
  | k :: k' :: ks, t, p, ht, hlen, hag => by
    rw [missing, missing, hag t p ht (List.prefix_refl p) k]
    simp only [List.length_cons] at hlen
    split
    · rfl
    · rfl
    · rename_i t' hk
      refine missing_congr ho (k' :: ks) t' (p ++ [k]) (ho.child t r p k t' ht (by omega) hk)
        (by simp only [List.length_append, List.length_cons, List.length_nil]; omega) ?_
      intro u q hu hq
      exact hag u q hu ((List.prefix_append p [k]).trans hq)

/-- The same for a path through entry `j`: only the subtree behind that entry counts. -/
theorem missing_cons_congr (ho : Owned F depth tab role) {r t : T} {p js : List I} {j : I}
    (ht : role t = some (r, p)) (hlen : p.length + (j :: js).length = depth)
    (hj : tab' t j = tab t j)
    (hag : ∀ u q, role u = some (r, q) → p ++ [j] <+: q → ∀ i, tab' u i = tab u i) :
    missing F tab' t (j :: js) = missing F tab t (j :: js) := by
  cases js with
  | nil => rfl
  | cons j' js =>
    simp only [List.length_cons] at hlen
    rw [missing, missing, hj]
    split
    · rfl
    · rfl
    · rename_i t' hk
      refine missing_congr ho (j' :: js) t' (p ++ [j]) (ho.child t r p j t' ht (by omega) hk) ?_ hag
      simp only [List.length_append, List.length_cons, List.length_nil]
      omega

/-- **What is missing after an insertion**: of another path, no more than the tables below its
    fork from the inserted one, and nothing that was there before. -/
theorem Insert.missing_eq [DecidableEq T] [DecidableEq I] (hnew : F.last new = true)
    (h : Insert F new r role tab t p ks ok role' tab') (ho : Owned F depth tab role)
    (ht : role t = some (r, p)) (hlen : p.length + ks.length = depth) (hok : ok = true) :
    ∀ js, js.length = ks.length →
      missing F tab' t js = min (missing F tab t js) (belowFork ks js) := by
  induction h with
  | same h =>
    intro js hjs
    obtain ⟨j, rfl⟩ := List.length_eq_one_iff.mp hjs
    exact (Nat.zero_min _).symm
  | full hne h => exact absurd hok Bool.false_ne_true
  | put h hw hk =>
    intro js hjs
    obtain ⟨j, rfl⟩ := List.length_eq_one_iff.mp hjs
    exact (Nat.zero_min _).symm
  | block h => exact absurd hok Bool.false_ne_true
  | @next role tab t p k k' ks t' ok role' tab' h hr ih =>
    intro js hjs
    simp only [List.length_cons] at hlen
    have ht' : role t' = some (r, p ++ [k]) := ho.child t r p k t' ht (by omega) h
    have hlen' : (p ++ [k]).length + (k' :: ks).length = depth := by
      simp only [List.length_append, List.length_cons, List.length_nil]
      omega
    have he := hr.effect hnew ho ht' hlen'
    have hrow : ∀ j, tab' t j = tab t j := he.frame t r p ht (fun h => not_prefix_self h.2)
    obtain ⟨j, j', js, rfl⟩ : ∃ j j' js', js = j :: j' :: js' := by
      match js, hjs with
      | j :: j' :: js, _ => exact ⟨j, j', js, rfl⟩
    rw [belowFork]
    by_cases hjk : j = k
    · subst hjk
      rw [if_pos rfl, missing, missing, hrow j, h]
      exact ih ho ht' hlen' hok (j' :: js) (by simpa using hjs)
    · obtain ⟨hj, hag⟩ := he.next_beside ht hjk
      rw [if_neg hjk, missing_cons_congr ho ht (by rw [hjs]; exact hlen) hj hag,
        Nat.min_eq_left (missing_le t j (j' :: js))]
  | @grow role tab t p k k' ks t' tab₁ ok role' tab' h hfresh hblank hw hk hr ih =>
    intro js hjs
    simp only [List.length_cons] at hlen
    have ho₁ := ho.grow ht (by omega) hfresh hblank hw hk
    have hlen' : (p ++ [k]).length + (k' :: ks).length = depth := by
      simp only [List.length_append, List.length_cons, List.length_nil]
      omega
    have he := hr.effect hnew ho₁ (assign_same ..) hlen'
    have hrow : ∀ j, tab' t j = tab₁ t j :=
      he.frame t r p (assign_of_some hfresh ht) (fun h => not_prefix_self h.2)
    obtain ⟨j, j', js, rfl⟩ : ∃ j j' js', js = j :: j' :: js' := by
      match js, hjs with
      | j :: j' :: js, _ => exact ⟨j, j', js, rfl⟩
    rw [belowFork]
    by_cases hjk : j = k
    · -- the new table had nothing below it, as the entry had before
      subst hjk
      have hbelow := belowFork_le (k' :: ks) j' js
      rw [if_pos rfl, missing, missing, hrow j, hw, h]
      simp only
      rw [ih ho₁ (assign_same ..) hlen' hok (j' :: js) (by simpa using hjs),
        missing_blank hblank]
      omega
    · obtain ⟨hj, hag⟩ := he.grow_beside ht hfresh hk hjk
      rw [if_neg hjk, missing_cons_congr ho ht (by rw [hjs]; exact hlen) hj hag,
        Nat.min_eq_left (missing_le t j (j' :: js))]

/-- Walks from another root do not see the insertion. -/
theorem Effect.other_root (ho : Owned F depth tab role)
    (he : Effect F depth new r role tab t p ks ok role' tab') {r' : T} (hne : r' ≠ r)
    (hr : role r' = some (r', [])) {ks' : List I} (hlen : ks'.length = depth) :
    walk F tab' r' ks' = walk F tab r' ks' := by
  refine walk_congr ho ks' r' [] hr (by simpa using hlen) ?_
  intro u q hu _
  exact he.frame u r' q hu (fun h => hne h.1)

end Radix

end TinyKernel
