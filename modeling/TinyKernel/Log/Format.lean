/-
  `sprintf_internal` of `kernel/log.c`.

  The output is advanced in two ways: by stores at the cursor, and by `strcat` from the cursor, which
  looks for a terminator first.  The second one needs every byte behind the cursor to be 0 still, and
  the invariant is that it is.

  The arguments are typed: an `uint64_t`, or a string with its characters.  A format is split into
  `pieces`, one for each store and each `strcat`, and `putPieces` writes them
  (`sprintfInternal_eq`).  What they leave is `putPieces_room` and, when the destination is too small,
  `putPieces_no_room`.

  The value that is returned counts the stores only (`sprintf_length_iff`): the lengths of what is
  appended are declared once more inside the loop.
-/
import TinyKernel.Log.Numeral

namespace TinyKernel

/-- A string of C: its characters, whose number is what `strlen` can return. -/
structure CString where
  chars : List Byte
  nonzero : 0 ∉ chars
  short : chars.length ≤ 2147483647

/-- An argument behind the format. -/
inductive FormatArg
  | number (num : Word)
  | string (s : CString)

/-- What the local arrays hold at first. -/
structure FormatStack where
  /-- `buffer` of `sprintf_internal`. -/
  buffer : Mem
  /-- `buffer` of `uint64_to_string`. -/
  digits : Mem

/-! ## The source -/

/-- The loop of `sprintf_internal`: what is left of the format and of the arguments, the array of
    `size` bytes that `str` points into at `cursor`, `buffer` and `inserted`.  An argument that does
    not match the format has no meaning. -/
def sprintfLoop (size : Nat) (stack : Mem) :
    List Byte → List FormatArg → Mem → Nat → Mem → Nat → Except Fault (Mem × Int)
  | [], _, str, cursor, _, inserted => do
    let str ← storeIn size str cursor 0
    return (str, toInt32 inserted)
  | c :: format, vars, str, cursor, buffer, inserted =>
    if c = chr '%' then
      match format with
      -- no next element to format
      | [] => .ok (str, -1)
      | type :: rest =>
        if type = chr 'x' ∨ type = chr 'q' then
          match vars with
          | .number num :: vars => do
            let base := if type = chr 'x' then 16 else 10
            let buffer ← uint64ToString 100 buffer 0 num base stack
            let s ← stringIn buffer 100 0
            let str ← strcatIn size str cursor s
            sprintfLoop size stack rest vars str ((cursor : Int) + strlen s).toNat buffer inserted
          | _ => .error .dataAbort
        else if type = chr 's' then
          match vars with
          | .string strarg :: vars => do
            let str ← strcatIn size str cursor strarg.chars
            sprintfLoop size stack rest vars str ((cursor : Int) + strlen strarg.chars).toNat buffer
              inserted
          | _ => .error .dataAbort
        else do
          let str ← storeIn size str cursor (chr '?')
          sprintfLoop size stack (type :: rest) vars str (cursor + 1) buffer (inserted + 1)
    else do
      let str ← storeIn size str cursor c
      sprintfLoop size stack format vars str (cursor + 1) buffer (inserted + 1)

/-- `sprintf_internal(str, format, vars)`: the array that `str` points to, and the result. -/
def sprintfInternal (size : Nat) (stack : FormatStack) (str : Mem) (format : CString)
    (vars : List FormatArg) : Except Fault (Mem × Int) :=
  sprintfLoop size stack.digits format.chars vars str 0 (memset stack.buffer 0 0 100) 0

/-- `sprintf(str, format, ...)`. -/
def sprintf (size : Nat) (stack : FormatStack) (str : Mem) (format : CString)
    (vars : List FormatArg) : Except Fault (Mem × Int) :=
  sprintfInternal size stack str format vars

/-! ## What a format means -/

/-- A piece of the output. -/
inductive Piece
  /-- A character of the format, or '?'. -/
  | char (c : Byte)
  /-- An argument. -/
  | text (s : List Byte)

/-- The characters of a piece. -/
def Piece.chars : Piece → List Byte
  | .char c => [c]
  | .text s => s

/-- The pieces of a format with these arguments, from left to right; none if an argument is missing
    or of the wrong kind.  A '%' at the end stands for nothing. -/
def pieces : List Byte → List FormatArg → Option (List Piece)
  | [], _ => some []
  | c :: format, vars =>
    if c = chr '%' then
      match format with
      | [] => some []
      | type :: rest =>
        if type = chr 'x' ∨ type = chr 'q' then
          match vars with
          | .number num :: vars => (pieces rest vars).map
              (.text (numeral (if type = chr 'x' then 16 else 10) num.toNat) :: ·)
          | _ => none
        else if type = chr 's' then
          match vars with
          | .string s :: vars => (pieces rest vars).map (.text s.chars :: ·)
          | _ => none
        else (pieces (type :: rest) vars).map (.char (chr '?') :: ·)
    else (pieces format vars).map (.char c :: ·)

/-- The output. -/
def rendered (ps : List Piece) : List Byte := ps.flatMap Piece.chars

/-- The characters that are stored one by one. -/
def stores : List Piece → Nat
  | [] => 0
  | .char _ :: ps => stores ps + 1
  | .text _ :: ps => stores ps

/-- The format ends in a lone '%'. -/
def EndsInPercent (format : List Byte) : Prop := format.getLast? = some (chr '%')

instance (format : List Byte) : Decidable (EndsInPercent format) := by
  unfold EndsInPercent
  infer_instance

/-- `sprintf_internal` piece by piece: `inserted` counts the stores. -/
def putPieces (size : Nat) (lone : Prop) [Decidable lone] :
    List Piece → Mem → Nat → Nat → Except Fault (Mem × Int)
  | [], str, cursor, inserted =>
    if lone then .ok (str, -1)
    else do
      let str ← storeIn size str cursor 0
      return (str, toInt32 inserted)
  | .char c :: ps, str, cursor, inserted => do
    let str ← storeIn size str cursor c
    putPieces size lone ps str (cursor + 1) (inserted + 1)
  | .text s :: ps, str, cursor, inserted => do
    let str ← strcatIn size str cursor s
    putPieces size lone ps str (cursor + s.length) inserted

/-! ## Formats and pieces -/

/-- Induction along the pieces of a format. -/
theorem pieces_induct {motive : List Byte → List FormatArg → List Piece → Prop}
    (nil : ∀ vars, motive [] vars [])
    (lone : ∀ vars, motive [chr '%'] vars [])
    (number : ∀ type rest num vars ps, type = chr 'x' ∨ type = chr 'q' → motive rest vars ps →
      motive (chr '%' :: type :: rest) (.number num :: vars)
        (.text (numeral (if type = chr 'x' then 16 else 10) num.toNat) :: ps))
    (string : ∀ rest s vars ps, motive rest vars ps →
      motive (chr '%' :: chr 's' :: rest) (.string s :: vars) (.text s.chars :: ps))
    (other : ∀ type rest vars ps, ¬ (type = chr 'x' ∨ type = chr 'q') → type ≠ chr 's' →
      motive (type :: rest) vars ps →
      motive (chr '%' :: type :: rest) vars (.char (chr '?') :: ps))
    (char : ∀ c format vars ps, c ≠ chr '%' → motive format vars ps →
      motive (c :: format) vars (.char c :: ps)) :
    ∀ format vars ps, pieces format vars = some ps → motive format vars ps := by
  intro format vars
  induction format, vars using pieces.induct with
  | case1 vars =>
    intro ps h
    obtain rfl := Option.some.inj h
    exact nil vars
  | case2 vars =>
    intro ps h
    obtain rfl := Option.some.inj h
    exact lone vars
  | case3 type rest htype num vars ih =>
    intro ps h
    simp only [pieces, if_pos, if_pos htype, Option.map_eq_some_iff] at h
    obtain ⟨qs, hqs, rfl⟩ := h
    exact number type rest num vars qs htype (ih qs hqs)
  | case4 vars type rest htype hnone =>
    intro ps h
    simp only [pieces, if_pos, if_pos htype] at h
    cases vars with
    | nil => cases h
    | cons v vars =>
      cases v with
      | number num => exact absurd rfl (hnone num vars)
      | string s => cases h
  | case5 rest s vars htype ih =>
    intro ps h
    simp only [pieces, if_pos, if_neg htype, Option.map_eq_some_iff] at h
    obtain ⟨qs, hqs, rfl⟩ := h
    exact string rest s vars qs (ih qs hqs)
  | case6 vars rest hnone htype =>
    intro ps h
    simp only [pieces, if_pos, if_neg htype] at h
    cases vars with
    | nil => cases h
    | cons v vars =>
      cases v with
      | number num => cases h
      | string s => exact absurd rfl (hnone s vars)
  | case7 vars type rest htype hs ih =>
    intro ps h
    rw [pieces.eq_def] at h
    dsimp only at h
    rw [if_pos rfl, if_neg htype, if_neg hs, Option.map_eq_some_iff] at h
    obtain ⟨qs, hqs, rfl⟩ := h
    exact other type rest vars qs htype hs (ih qs hqs)
  | case8 c format vars hc ih =>
    intro ps h
    rw [pieces.eq_def] at h
    dsimp only at h
    rw [if_neg hc, Option.map_eq_some_iff] at h
    obtain ⟨qs, hqs, rfl⟩ := h
    exact char c format vars qs hc (ih qs hqs)

theorem endsInPercent_cons {c : Byte} (hc : c ≠ chr '%') (format : List Byte) :
    EndsInPercent (c :: format) ↔ EndsInPercent format := by
  unfold EndsInPercent
  cases format with
  | nil =>
    rw [List.getLast?_singleton]
    constructor
    · exact fun h => absurd (Option.some.inj h) hc
    · intro h
      cases h
  | cons d format => rw [List.getLast?_cons_cons]

theorem endsInPercent_percent (c : Byte) (format : List Byte) :
    EndsInPercent (chr '%' :: c :: format) ↔ EndsInPercent (c :: format) := by
  unfold EndsInPercent
  rw [List.getLast?_cons_cons]

/-- No piece has a terminator in it. -/
theorem rendered_nonzero : ∀ format vars ps, pieces format vars = some ps → 0 ∉ format →
    0 ∉ rendered ps := by
  apply pieces_induct
  · exact fun _ _ => List.not_mem_nil
  · exact fun _ _ => List.not_mem_nil
  · intro type rest num vars ps _ ih hformat
    rw [rendered, List.flatMap_cons, List.mem_append, not_or]
    have hbase : 1 < (if type = chr 'x' then 16 else 10) ∧ (if type = chr 'x' then 16 else 10) ≤ 16 := by
      split <;> omega
    exact ⟨numeral_nonzero hbase.1 hbase.2 _,
      ih fun h => hformat (List.mem_cons_of_mem _ (List.mem_cons_of_mem _ h))⟩
  · intro rest s vars ps ih hformat
    rw [rendered, List.flatMap_cons, List.mem_append, not_or]
    exact ⟨s.nonzero, ih fun h => hformat (List.mem_cons_of_mem _ (List.mem_cons_of_mem _ h))⟩
  · intro type rest vars ps _ _ ih hformat
    rw [rendered, List.flatMap_cons, List.mem_append, not_or]
    exact ⟨by decide, ih fun h => hformat (List.mem_cons_of_mem _ h)⟩
  · intro c format vars ps _ ih hformat
    rw [List.mem_cons, not_or] at hformat
    rw [rendered, List.flatMap_cons, List.mem_append, not_or, Piece.chars, List.mem_singleton]
    exact ⟨hformat.1, ih hformat.2⟩

/-- Every store takes a character of the format. -/
theorem stores_le : ∀ format vars ps, pieces format vars = some ps → stores ps ≤ format.length := by
  apply pieces_induct
  · exact fun _ => Nat.le_refl 0
  · exact fun _ => Nat.zero_le 1
  · intro type rest num vars ps _ ih
    exact Nat.le_succ_of_le (Nat.le_succ_of_le ih)
  · intro rest s vars ps ih
    exact Nat.le_succ_of_le (Nat.le_succ_of_le ih)
  · intro type rest vars ps _ _ ih
    exact Nat.succ_le_succ ih
  · intro c format vars ps _ ih
    exact Nat.succ_le_succ ih

/-- A number conversion appends the numeral. -/
theorem sprintf_number (size : Nat) (stack : Mem) {type : Byte} (htype : type = chr 'x' ∨ type = chr 'q')
    (rest : List Byte) (num : Word) (vars : List FormatArg) (str : Mem) (cursor : Nat) (buffer : Mem)
    (inserted : Nat) : ∃ buffer',
    sprintfLoop size stack (chr '%' :: type :: rest) (.number num :: vars) str cursor buffer inserted
      = (do
        let str ← strcatIn size str cursor (numeral (if type = chr 'x' then 16 else 10) num.toNat)
        sprintfLoop size stack rest vars str
          (cursor + (numeral (if type = chr 'x' then 16 else 10) num.toNat).length) buffer'
          inserted) := by
  have hbase : 10 ≤ (if type = chr 'x' then 16 else 10) ∧ (if type = chr 'x' then 16 else 10) ≤ 16 := by
    split <;> omega
  rw [sprintfLoop, if_pos rfl]
  dsimp only
  rw [if_pos htype]
  generalize (if type = chr 'x' then 16 else 10) = base at *
  have hlen : (numeral base num.toNat).length ≤ 20 := by
    rw [numeral_length]
    exact numeralDigits_length_le hbase.1 num.isLt
  have hstrlen : strlen (numeral base num.toNat) = (numeral base num.toNat).length :=
    toInt32_of_range (by omega) (by omega)
  have hstring := cStringAt_strcpy
    (numeral_nonzero (show 1 < base by omega) hbase.2 num.toNat) buffer 0
  refine ⟨strcpy (numeral base num.toNat) buffer 0, ?_⟩
  rw [uint64ToString_eq hbase.1 hbase.2, if_pos (by omega), ok_bind,
    stringIn_eq hstring (by omega), ok_bind, hstrlen]
  rfl

/-- **The loop writes the pieces.** -/
theorem sprintfLoop_eq (size : Nat) (stack : Mem) : ∀ format vars ps,
    pieces format vars = some ps → ∀ str cursor buffer inserted,
      sprintfLoop size stack format vars str cursor buffer inserted
        = putPieces size (EndsInPercent format) ps str cursor inserted := by
  apply pieces_induct
  · intro vars str cursor buffer inserted
    rw [putPieces, if_neg (by decide)]
    rfl
  · intro vars str cursor buffer inserted
    rw [putPieces, if_pos (by decide)]
    rfl
  · intro type rest num vars ps htype ih str cursor buffer inserted
    obtain ⟨buffer', hnumber⟩ := sprintf_number size stack htype rest num vars str cursor buffer inserted
    have hne : type ≠ chr '%' := by
      rcases htype with rfl | rfl <;> decide
    rw [hnumber, putPieces]
    simp only [ih, endsInPercent_percent, endsInPercent_cons hne]
  · intro rest s vars ps ih str cursor buffer inserted
    have hstrlen : strlen s.chars = s.chars.length :=
      toInt32_of_range (by omega) (by have := s.short; omega)
    have hsum : ((cursor : Int) + (s.chars.length : Nat)).toNat = cursor + s.chars.length := by omega
    rw [sprintfLoop, if_pos rfl]
    rw [if_neg (by decide), if_pos rfl, putPieces, hstrlen, hsum]
    simp only [ih, endsInPercent_percent, endsInPercent_cons (show chr 's' ≠ chr '%' by decide)]
  · intro type rest vars ps htype hs ih str cursor buffer inserted
    rw [sprintfLoop.eq_def]
    dsimp only
    rw [if_pos rfl, if_neg htype, if_neg hs, putPieces]
    simp only [ih, endsInPercent_percent]
  · intro c format vars ps hc ih str cursor buffer inserted
    rw [sprintfLoop.eq_def]
    dsimp only
    rw [if_neg hc, putPieces]
    simp only [ih, endsInPercent_cons hc]

/-! ## What the pieces leave -/

/-- A copy behind a copy. -/
theorem strcpy_append (s t : List Byte) (a : Mem) (p : Nat) :
    strcpy t (strcpy s a p) (p + s.length) = strcpy (s ++ t) a p := by
  funext x
  rw [strcpy_apply, strcpy_apply, strcpy_apply, List.length_append]
  rcases Nat.lt_or_ge x (p + s.length) with hlow | hhigh
  · rw [if_neg (by omega)]
    by_cases hp : p ≤ x
    · rw [if_pos (by omega), if_pos (by omega), List.getD_append _ _ _ _ (by omega)]
    · rw [if_neg (by omega), if_neg (by omega)]
  · by_cases hend : x ≤ p + s.length + t.length
    · rw [if_pos (by omega), if_pos (by omega), List.getD_append_right _ _ _ _ (by omega),
        Nat.sub_sub]
    · rw [if_neg (by omega), if_neg (by omega), if_neg (by omega)]

/-- Nothing is changed by the terminator that is there. -/
theorem strcpy_nil {a : Mem} {p : Nat} (hzero : a p = 0) : strcpy [] a p = a := by
  rw [strcpy, ← hzero, Function.update_eq_self]

/-- Behind a copy the bytes are the ones from before. -/
theorem strcpy_zero_behind {size : Nat} {s : List Byte} {a : Mem} {p : Nat}
    (hzero : ∀ x, p ≤ x → x < size → a x = 0) :
    ∀ x, p + s.length ≤ x → x < size → strcpy s a p x = 0 := by
  intro x hx hlt
  rw [strcpy_apply]
  split
  · rw [List.getD_eq_default _ _ (by omega)]
  · exact hzero x (by omega) hlt

/-- `strcat` onto the terminator. -/
theorem strcatIn_end {size cursor : Nat} {a : Mem} (hzero : a cursor = 0) (hlt : cursor < size)
    (s : List Byte) : strcatIn size a cursor s
      = if cursor + s.length < size then .ok (strcpy s a cursor) else .error .outOfBounds := by
  have hempty : CStringAt a cursor [] := CStringAt.nil_iff.mpr hzero
  have hcat := strcatIn_eq hempty (show cursor + [].length < size from hlt) s
  rwa [List.length_nil, Nat.add_zero] at hcat

/-- The array has characters up to the cursor, and zeros from there on. -/
structure FilledTo (size cursor : Nat) (a : Mem) : Prop where
  chars : ∀ x, x < cursor → a x ≠ 0
  zeros : ∀ x, cursor ≤ x → x < size → a x = 0

namespace FilledTo

variable {size cursor : Nat} {a : Mem}

/-- One character more. -/
theorem store (h : FilledTo size cursor a) {c : Byte} (hc : c ≠ 0) :
    FilledTo size (cursor + 1) (Function.update a cursor c) where
  chars := by
    intro x hx
    by_cases hcursor : x = cursor
    · rw [hcursor, Function.update_self]
      exact hc
    · rw [Function.update_of_ne hcursor]
      exact h.chars x (by omega)
  zeros := by
    intro x hx hlt
    rw [Function.update_of_ne (by omega)]
    exact h.zeros x (by omega) hlt

/-- A string more. -/
theorem copy (h : FilledTo size cursor a) {s : List Byte} (hs : 0 ∉ s) :
    FilledTo size (cursor + s.length) (strcpy s a cursor) where
  chars := by
    intro x hx
    rw [strcpy_apply]
    split
    · rw [List.getD_eq_getElem _ _ (by omega)]
      exact fun hzero => hs (hzero ▸ List.getElem_mem _)
    · exact h.chars x (by omega)
  zeros := strcpy_zero_behind h.zeros

end FilledTo

section Pieces

variable (size : Nat) (lone : Prop) [Decidable lone]

/-- **With room for the output**, in an array that is zero from the cursor on, the pieces are one
    copy, and what is behind stays zero. -/
theorem putPieces_room : ∀ (ps : List Piece) (str : Mem) (cursor inserted : Nat),
    (∀ x, cursor ≤ x → x < size → str x = 0) → cursor + (rendered ps).length < size →
    putPieces size lone ps str cursor inserted
      = .ok (strcpy (rendered ps) str cursor,
          if lone then -1 else toInt32 ((inserted + stores ps : Nat) : Int)) := by
  intro ps
  induction ps with
  | nil =>
    intro str cursor inserted hzero hroom
    have hcursor : cursor < size := by omega
    have hkeep := strcpy_nil (hzero cursor (Nat.le_refl _) hcursor)
    rw [putPieces, storeIn_of_lt str 0 hcursor]
    split
    · rw [rendered, List.flatMap_nil, hkeep]
    · rfl
  | cons piece ps ih =>
    intro str cursor inserted hzero hroom
    rw [rendered, List.flatMap_cons, List.length_append] at hroom
    cases piece with
    | char c =>
      have hstep : ∀ x, cursor + 1 ≤ x → x < size → Function.update str cursor c x = 0 := by
        intro x hx hlt
        rw [Function.update_of_ne (by omega)]
        exact hzero x (by omega) hlt
      rw [Piece.chars, List.length_singleton] at hroom
      rw [putPieces, storeIn_of_lt str c (by omega), ok_bind,
        ih _ (cursor + 1) (inserted + 1) hstep (by rw [rendered]; omega), stores, Nat.add_assoc,
        Nat.add_comm 1]
      rfl
    | text s =>
      rw [Piece.chars] at hroom
      have hend : str cursor = 0 := hzero cursor (Nat.le_refl _) (by omega)
      rw [putPieces, strcatIn_end hend (by omega), if_pos (by omega), ok_bind, ih _ (cursor + s.length) inserted (strcpy_zero_behind hzero)
        (by rw [rendered]; omega), strcpy_append, stores]
      rfl

/-- **Without room** a store leaves the array, or a lone '%' ends the loop in time, and there is no
    terminator in the array. -/
theorem putPieces_no_room : ∀ (ps : List Piece) (str : Mem) (cursor inserted : Nat),
    FilledTo size cursor str → 0 ∉ rendered ps → cursor ≤ size →
    size ≤ cursor + (rendered ps).length →
    putPieces size lone ps str cursor inserted = .error .outOfBounds ∨
      lone ∧ ∃ str' ret, putPieces size lone ps str cursor inserted = .ok (str', ret) ∧
        ∀ x, x < size → str' x ≠ 0 := by
  intro ps
  induction ps with
  | nil =>
    intro str cursor inserted hfilled _ hle hfull
    have hcursor : cursor = size := Nat.le_antisymm hle hfull
    rw [putPieces, storeIn_of_le str 0 (by omega)]
    split
    · exact Or.inr ⟨‹lone›, str, -1, rfl, fun x hx => hfilled.chars x (by omega)⟩
    · exact Or.inl rfl
  | cons piece ps ih =>
    intro str cursor inserted hfilled hnonzero hle hfull
    rw [rendered, List.flatMap_cons, List.length_append] at hfull
    rw [rendered, List.flatMap_cons, List.mem_append, not_or] at hnonzero
    obtain ⟨hfirst, hrest⟩ := hnonzero
    cases piece with
    | char c =>
      rw [Piece.chars, List.length_singleton] at hfull
      rw [Piece.chars, List.mem_singleton] at hfirst
      rw [putPieces]
      rcases Nat.lt_or_eq_of_le hle with hlt | heq
      · rw [storeIn_of_lt str c hlt, ok_bind]
        exact ih _ (cursor + 1) _ (hfilled.store (Ne.symm hfirst)) hrest hlt
          (by rw [rendered]; omega)
      · rw [storeIn_of_le str c (by omega)]
        exact Or.inl rfl
    | text s =>
      rw [Piece.chars] at hfull hfirst
      rw [putPieces]
      rcases Nat.lt_or_eq_of_le hle with hlt | heq
      · rw [strcatIn_end (hfilled.zeros cursor (Nat.le_refl _) hlt) hlt]
        by_cases hfits : cursor + s.length < size
        · rw [if_pos hfits, ok_bind]
          exact ih _ (cursor + s.length) _ (hfilled.copy hfirst) hrest (Nat.le_of_lt hfits)
            (by rw [rendered]; omega)
        · rw [if_neg hfits]
          exact Or.inl rfl
      · -- `strcat` looks for a terminator behind the array
        rw [strcatIn, heq, Nat.sub_self]
        exact Or.inl rfl

end Pieces

/-! ## The results -/

/-- **`sprintf_internal`** writes the pieces. -/
theorem sprintfInternal_eq {format : CString} {vars : List FormatArg} {ps : List Piece}
    (hmatch : pieces format.chars vars = some ps) (size : Nat) (stack : FormatStack) (str : Mem) :
    sprintfInternal size stack str format vars
      = putPieces size (EndsInPercent format.chars) ps str 0 0 :=
  sprintfLoop_eq size stack.digits _ _ _ hmatch str 0 _ 0

/-- **Formatting renders correctly.**  For every format, arguments that match it, and an array of
    zeros with room for the output and its terminator, whatever the local arrays held: the output is
    the pieces of the format, one behind the other.  (A lone '%' at the end is left out.) -/
theorem sprintf_internal_renders (format : CString) (vars : List FormatArg) (ps : List Piece)
    (hmatch : pieces format.chars vars = some ps) (size : Nat) (stack : FormatStack) (str : Mem)
    (hzero : ∀ x, x < size → str x = 0) (hroom : (rendered ps).length < size) :
    ∃ str' ret, sprintfInternal size stack str format vars = .ok (str', ret) ∧
      CStringAt str' 0 (rendered ps) ∧ ∀ x, (rendered ps).length < x → str' x = str x := by
  have hput := putPieces_room size (EndsInPercent format.chars) ps str 0 0 (fun x _ => hzero x)
    (by rw [Nat.zero_add]; exact hroom)
  rw [← sprintfInternal_eq hmatch size stack] at hput
  refine ⟨_, _, hput, ?_, fun x hx => ?_⟩
  · exact cStringAt_strcpy (rendered_nonzero _ _ _ hmatch format.nonzero) str 0
  · rw [strcpy_apply, if_neg (by omega)]

/-- "%x%s%d" with 255 and "ok" is "ffok?d". -/
theorem sprintf_internal_renders_all : ∃ str' ret,
    sprintfInternal 7 ⟨fun _ => 7, fun _ => 7⟩ (fun _ => 0)
      ⟨[ '%', 'x', '%', 's', '%', 'd'].map chr, by decide, by decide⟩
      [.number 255, .string ⟨[ 'o', 'k'].map chr, by decide, by decide⟩] = .ok (str', ret) ∧
    CStringAt str' 0 ([ 'f', 'f', 'o', 'k', '?', 'd'].map chr) := by
  obtain ⟨str', ret, hret, hstring, -⟩ := sprintf_internal_renders
    ⟨[ '%', 'x', '%', 's', '%', 'd'].map chr, by decide, by decide⟩
    [.number 255, .string ⟨[ 'o', 'k'].map chr, by decide, by decide⟩]
    [.text ([ 'f', 'f'].map chr), .text ([ 'o', 'k'].map chr), .char (chr '?'), .char (chr 'd')]
    rfl 7 ⟨fun _ => 7, fun _ => 7⟩ (fun _ => 0) (fun _ _ => rfl) (by decide)
  exact ⟨str', ret, hret, hstring⟩

/-- The value that `sprintf` returns is the length of the string it leaves. -/
def ReturnsLength (size : Nat) (stack : FormatStack) (str : Mem) (format : CString)
    (vars : List FormatArg) : Prop :=
  ∃ str' ret s, sprintf size stack str format vars = .ok (str', ret) ∧ CStringAt str' 0 s ∧
    ret = s.length

/-- What is stored is part of the output. -/
theorem stores_le_length : ∀ ps : List Piece, stores ps ≤ (rendered ps).length := by
  intro ps
  induction ps with
  | nil => exact Nat.le_refl 0
  | cons piece ps ih =>
    rw [rendered, List.flatMap_cons, List.length_append, ← rendered]
    cases piece with
    | char c =>
      rw [stores, Piece.chars, List.length_singleton]
      omega
    | text s =>
      rw [stores]
      omega

/-- The stores are the whole output exactly if the other pieces are empty. -/
theorem stores_eq_length : ∀ ps : List Piece,
    (stores ps = (rendered ps).length ↔ ∀ s, Piece.text s ∈ ps → s = []) := by
  intro ps
  induction ps with
  | nil =>
    constructor
    · intro _ s hs
      exact absurd hs List.not_mem_nil
    · exact fun _ => rfl
  | cons piece ps ih =>
    have hle := stores_le_length ps
    rw [rendered, List.flatMap_cons, List.length_append, ← rendered]
    cases piece with
    | char c =>
      rw [stores, Piece.chars, List.length_singleton]
      constructor
      · intro hlen s hs
        rcases List.mem_cons.mp hs with hs | hs
        · cases hs
        · exact ih.mp (by omega) s hs
      · intro hall
        have hsame := ih.mpr fun s hs => hall s (List.mem_cons_of_mem _ hs)
        omega
    | text t =>
      rw [stores, Piece.chars]
      constructor
      · intro hlen s hs
        rcases List.mem_cons.mp hs with hs | hs
        · obtain rfl := Piece.text.inj hs
          exact List.length_eq_zero_iff.mp (by omega)
        · exact ih.mp (by omega) s hs
      · intro hall
        have hsame := ih.mpr fun s hs => hall s (List.mem_cons_of_mem _ hs)
        rw [hall t List.mem_cons_self, List.length_nil]
        omega

/-- **The value that is returned.**  For every format that does not end in a lone '%', matching
    arguments and an array of zeros that is large enough, it is the length of the string exactly if
    every argument that is rendered is an empty string; so there is no number among them.  The
    variable that is returned is hidden by another one of its name in the two cases that insert an
    argument. -/
theorem sprintf_length_iff (format : CString) (vars : List FormatArg) (ps : List Piece)
    (hmatch : pieces format.chars vars = some ps) (hlone : ¬ EndsInPercent format.chars)
    (size : Nat) (stack : FormatStack) (str : Mem) (hzero : ∀ x, x < size → str x = 0)
    (hroom : (rendered ps).length < size) :
    ReturnsLength size stack str format vars ↔ ∀ s, Piece.text s ∈ ps → s = [] := by
  have hput := putPieces_room size (EndsInPercent format.chars) ps str 0 0 (fun x _ => hzero x)
    (by rw [Nat.zero_add]; exact hroom)
  rw [if_neg hlone, Nat.zero_add] at hput
  have hstring := cStringAt_strcpy (rendered_nonzero _ _ _ hmatch format.nonzero) str 0
  have hcount : toInt32 (stores ps : Nat) = (stores ps : Nat) := by
    have hformat := stores_le _ _ _ hmatch
    have hshort := format.short
    exact toInt32_of_range (by omega) (by omega)
  rw [hcount] at hput
  rw [← stores_eq_length]
  constructor
  · rintro ⟨str', ret, s, hret, hs, hlen⟩
    rw [sprintf, sprintfInternal_eq hmatch, hput] at hret
    obtain ⟨rfl, rfl⟩ := Prod.mk.inj (Except.ok.inj hret)
    rw [hs.unique hstring] at hlen
    omega
  · intro hsame
    refine ⟨_, _, rendered ps, ?_, hstring, congrArg Nat.cast hsame⟩
    rw [sprintf, sprintfInternal_eq hmatch, hput]

/-- The literal text of a format is counted: "a%d" is "a?d" and returns 3. -/
theorem sprintf_length_text : ReturnsLength 4 ⟨fun _ => 7, fun _ => 7⟩ (fun _ => 0)
    ⟨[ 'a', '%', 'd'].map chr, by decide, by decide⟩ [] := by
  refine (sprintf_length_iff ⟨[ 'a', '%', 'd'].map chr, by decide, by decide⟩ []
    [.char (chr 'a'), .char (chr '?'), .char (chr 'd')] rfl (by decide) 4 ⟨fun _ => 7, fun _ => 7⟩
    (fun _ => 0) (fun _ _ => rfl) (by decide)).mpr fun s hs => ?_
  rcases List.mem_cons.mp hs with hs | hs
  · cases hs
  · rcases List.mem_cons.mp hs with hs | hs
    · cases hs
    · cases List.mem_singleton.mp hs

/-- "[%q] " with 7 leaves "[7] ", four characters, and returns 3. -/
theorem sprintf_returns_three : ¬ ReturnsLength 15 ⟨fun _ => 7, fun _ => 7⟩ (fun _ => 0)
    ⟨[ '[', '%', 'q', ']', ' '].map chr, by decide, by decide⟩ [.number 7] := by
  rintro ⟨str', ret, s, hret, hs, hlen⟩
  have hmatch : pieces ([ '[', '%', 'q', ']', ' '].map chr) [.number 7]
      = some [.char (chr '['), .text [chr '7'], .char (chr ']'), .char (chr ' ')] := rfl
  have hput := putPieces_room 15 (EndsInPercent ([ '[', '%', 'q', ']', ' '].map chr))
    [.char (chr '['), .text [chr '7'], .char (chr ']'), .char (chr ' ')] (fun _ => 0) 0 0
    (fun _ _ _ => rfl) (by decide)
  rw [sprintf, sprintfInternal_eq hmatch, hput] at hret
  obtain ⟨rfl, rfl⟩ := Prod.mk.inj (Except.ok.inj hret)
  have hstring := cStringAt_strcpy (s := [chr '[', chr '7', chr ']', chr ' ']) (by decide)
    (fun _ => 0) 0
  rw [hs.unique hstring, if_neg (by decide), toInt32_of_range (by decide) (by decide)] at hlen
  exact absurd hlen (by decide)

end TinyKernel
