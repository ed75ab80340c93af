/-
  Looking up a file name in the root directory of a FAT volume, for every name.

  A name "N.E" of up to 8 and up to 3 characters is found exactly: the first entry with these
  characters, upper-cased and padded (`fat_lookup_exact`).  For any other name `fatfs_open` relies
  on what it is not given: a '.' in the name, room for 9 characters in each of two arrays, and a
  stack that does not hold the name of a file by chance (`fat_open_safe_iff`).

  From bottom to top:

  * `fatfsCopyUntil_eq` and `fatfsSplit_eq` — what the two copying loops leave of a name are its
    halves.  Each loop stops at its own character and at nothing else, so where that character
    is missing it leaves the name, or the array (`fatfsCopyUntil_runs_out`);
  * `fatUppercaseAndPad_fits` and `fatUppercaseAndPad_long` — a half that fits its field is put into
    the form of the directory; for one that does not, the field keeps what was on the stack;
  * `fatGetEntryByFile_eq_some` and `fatGetEntryByFile_eq_none` — the loop over the directory
    returns the first entry that passes its test, or `NULL`;
  * `HalvesAgree.exists_stack` — the direction that makes the condition exact: to an entry that agrees
    with the halves that fit there IS a stack on which it is found, so that the result would depend
    on what earlier calls left there.
-/
import Mathlib.Data.List.Forall2
import Mathlib.Data.List.TakeWhile
import TinyKernel.Fs.FatName

namespace TinyKernel

/-! ## The lookup of `fatfs_open` -/

/-- The part of `fatfs_open` that looks at the name: the index of the entry, `none` for `NULL`. -/
def fatfsLookup (h : FatHandle) (stackName stackExt : List Byte) (m : Mem) (p : Nat) :
    Except Fault (Option Nat) := do
  let (name, ext) ← fatfsSplit m p
  return fatGetEntryByFile h stackName stackExt name ext

/-- The positions that a copying loop reads, in order. -/
def fatfsCopyReads (m : Mem) (stop : Byte) : Nat → Nat → List Nat
  | 0, p => [p]
  | room + 1, p => p :: if m p = stop then [] else fatfsCopyReads m stop room (p + 1)

/-- The positions that `fatfs_open` reads to split the name. -/
def fatfsSplitReads (m : Mem) (p : Nat) : List Nat :=
  fatfsCopyReads m 0x2e 10 p ++
    match fatfsCopyUntil m 0x2e 10 p with
    | .ok (_, dot) => fatfsCopyReads m 0 10 (dot + 1)
    | .error _ => []

/-! ## Splitting -/

/-- A copying loop and the first stop character, behind the characters of `s`. -/
theorem fatfsCopyUntil_eq {m : Mem} {stop : Byte} : ∀ (s : List Byte) (room p : Nat), stop ∉ s →
    (∀ i (hi : i < s.length), m (p + i) = s[i]) → m (p + s.length) = stop →
    fatfsCopyUntil m stop room p
      = if s.length < room then .ok (s, p + s.length) else .error .outOfBounds := by
  intro s
  induction s with
  | nil =>
    intro room p _ _ hstop
    cases room with
    | zero => rfl
    | succ room =>
      have hhere : m p = stop := hstop
      rw [fatfsCopyUntil, if_pos hhere, List.length_nil, if_pos (Nat.succ_pos room)]
      rfl
  | cons c s ih =>
    intro room p hnot hchars hstop
    rw [List.mem_cons, not_or] at hnot
    cases room with
    | zero => rfl
    | succ room =>
      have hhead : m p = c := hchars 0 (Nat.succ_pos _)
      have hlast : p + 1 + s.length = p + (c :: s).length := by
        rw [List.length_cons]
        omega
      have htail := ih room (p + 1) hnot.2
        (fun i hi => by
          rw [show p + 1 + i = p + (i + 1) by omega]
          exact hchars (i + 1) (Nat.succ_lt_succ hi))
        (by rw [hlast]; exact hstop)
      rw [fatfsCopyUntil, hhead, if_neg (Ne.symm hnot.1), htail, hlast]
      by_cases hroom : s.length < room
      · have hmore : (c :: s).length < room + 1 := Nat.succ_lt_succ hroom
        rw [if_pos hroom, if_pos hmore]
        rfl
      · have hmore : ¬ (c :: s).length < room + 1 := fun hlt => hroom (Nat.lt_of_succ_lt_succ hlt)
        rw [if_neg hroom, if_neg hmore]
        rfl

/-- Without a stop character in reach the loop leaves its array. -/
theorem fatfsCopyUntil_runs_out {m : Mem} {stop : Byte} : ∀ (room p : Nat),
    (∀ i, i < room → m (p + i) ≠ stop) → fatfsCopyUntil m stop room p = .error .outOfBounds := by
  intro room
  induction room with
  | zero =>
    intro p _
    rfl
  | succ room ih =>
    intro p hnot
    have htail := ih (p + 1) (fun i hi => by
      rw [show p + 1 + i = p + (i + 1) by omega]
      exact hnot (i + 1) (Nat.succ_lt_succ hi))
    have hhere : m p ≠ stop := hnot 0 (Nat.succ_pos room)
    rw [fatfsCopyUntil, if_neg hhere, htail]
    rfl

/-- A copying loop reads up to the first stop character .. -/
theorem fatfsCopyReads_le {m : Mem} {stop : Byte} : ∀ (n room p : Nat), m (p + n) = stop →
    ∀ x ∈ fatfsCopyReads m stop room p, x ≤ p + n := by
  intro n
  induction n with
  | zero =>
    intro room p hstop x hx
    cases room with
    | zero => exact Nat.le_of_eq (List.mem_singleton.mp hx)
    | succ room =>
      have hhere : m p = stop := hstop
      rw [fatfsCopyReads, if_pos hhere] at hx
      exact Nat.le_of_eq (List.mem_singleton.mp hx)
  | succ n ih =>
    intro room p hstop x hx
    cases room with
    | zero =>
      have hpos : x = p := List.mem_singleton.mp hx
      omega
    | succ room =>
      rw [fatfsCopyReads, List.mem_cons] at hx
      rcases hx with rfl | hx
      · omega
      · split at hx
        · exact absurd hx List.not_mem_nil
        · have hlater := ih room (p + 1) (by rw [← hstop]; congr 1; omega) x hx
          omega

/-- .. and up to there, as long as there is room. -/
theorem mem_fatfsCopyReads {m : Mem} {stop : Byte} : ∀ (n room p : Nat), n ≤ room →
    (∀ i, i < n → m (p + i) ≠ stop) → p + n ∈ fatfsCopyReads m stop room p := by
  intro n
  induction n with
  | zero =>
    intro room p _ _
    cases room with
    | zero => exact List.mem_singleton.mpr rfl
    | succ room => exact List.mem_cons_self
  | succ n ih =>
    intro room p hroom hnot
    cases room with
    | zero => omega
    | succ room =>
      have hhere : m p ≠ stop := hnot 0 (Nat.succ_pos n)
      rw [fatfsCopyReads, if_neg hhere, show p + (n + 1) = p + 1 + n by omega]
      refine List.mem_cons_of_mem _ (ih room (p + 1) (Nat.le_of_succ_le_succ hroom) ?_)
      intro i hi
      rw [show p + 1 + i = p + (i + 1) by omega]
      exact hnot (i + 1) (Nat.succ_lt_succ hi)

section Name

variable {m : Mem} {p : Nat} {name ext : List Byte}

/-- The first loop stops at the first '.'. -/
theorem fatfsCopyUntil_dot (hdot : 0x2e ∉ name) (hs : CStringAt m p (name ++ 0x2e :: ext)) :
    fatfsCopyUntil m 0x2e 10 p
      = if name.length < 10 then .ok (name, p + name.length) else .error .outOfBounds := by
  have hlen : (name ++ 0x2e :: ext).length = name.length + (ext.length + 1) := by
    rw [List.length_append, List.length_cons]
  apply fatfsCopyUntil_eq name 10 p hdot
  · intro i hi
    rw [hs.getElem (by omega), List.getElem_append_left hi]
  · rw [hs.getElem (by omega), List.getElem_append_right (Nat.le_refl _)]
    simp

/-- The extension stands behind the '.'. -/
theorem CStringAt.behindDot (hs : CStringAt m p (name ++ 0x2e :: ext)) :
    CStringAt m (p + name.length + 1) ext :=
  CStringAt.drop (s := [0x2e]) hs.drop

/-- **Splitting a name** that has a '.'. -/
theorem fatfsSplit_eq (hdot : 0x2e ∉ name) (hs : CStringAt m p (name ++ 0x2e :: ext)) :
    fatfsSplit m p = if name.length < 10 ∧ ext.length < 10 then .ok (name, ext)
      else .error .outOfBounds := by
  have hext : fatfsCopyUntil m 0 10 (p + name.length + 1)
      = if ext.length < 10 then .ok (ext, p + name.length + 1 + ext.length)
        else .error .outOfBounds :=
    fatfsCopyUntil_eq ext 10 _ hs.behindDot.nonzero (fun i hi => hs.behindDot.getElem hi) hs.behindDot.stop
  rw [fatfsSplit, fatfsCopyUntil_dot hdot hs]
  by_cases hname : name.length < 10
  · rw [if_pos hname, ok_bind]
    dsimp only
    rw [hext]
    by_cases hlen : ext.length < 10
    · rw [if_pos hlen, if_pos ⟨hname, hlen⟩]
      rfl
    · rw [if_neg hlen, if_neg fun h => hlen h.2]
      rfl
  · rw [if_neg hname, if_neg fun h => hname h.1]
    rfl

end Name

/-! ## The root directory -/

/-- The `dim` bytes at `p` are the characters of `s`, upper-cased, and then spaces. -/
def FieldIs (m : Mem) (p dim : Nat) (s : List Byte) : Prop :=
  ∀ j, j < dim → m (p + j) = (s.map fatCharGetUppercase).getD j 0x20

/-- Entry `i` of the root directory has this name and this extension. -/
structure EntryNamed (h : FatHandle) (name ext : List Byte) (i : Nat) : Prop where
  filename : FieldIs h.entries (fat16DirEntrySize * i) 8 name
  extension : FieldIs h.entries (fat16DirEntrySize * i + 8) 3 ext

/-- The first such entry. -/
structure FirstNamed (h : FatHandle) (name ext : List Byte) (i : Nat) : Prop where
  index : i < h.header.possibleRootEntries
  named : EntryNamed h name ext i
  least : ∀ j, j < i → ¬ EntryNamed h name ext j

/-- Two characters that differ in the case of an ASCII letter at most. -/
def SameLetter (c d : Byte) : Prop :=
  c = d ∨ (0x61 ≤ c.toNat ∧ c.toNat ≤ 0x7a ∧ c.toNat = d.toNat + 0x20) ∨
    (0x61 ≤ d.toNat ∧ d.toNat ≤ 0x7a ∧ d.toNat = c.toNat + 0x20)

theorem fatCharArrayEqual_iff {a : List Byte} {m : Mem} {p len : Nat} :
    fatCharArrayEqual a m p len = true ↔ ∀ j, j < len → m (p + j) = a.getD j 0 := by
  unfold fatCharArrayEqual
  rw [List.all_eq_true]
  constructor
  · intro hall j hj
    exact (of_decide_eq_true (hall j (List.mem_range.mpr hj))).symm
  · intro hall j hj
    exact decide_eq_true (hall j (List.mem_range.mp hj)).symm

theorem cString_eq_self {s : List Byte} (hs : 0 ∉ s) : cString s = s := by
  unfold cString
  rw [List.takeWhile_eq_self_iff]
  intro c hc
  exact decide_eq_true fun hzero => hs (hzero ▸ hc)

/-- A half that fits is normalised .. -/
theorem fatUppercaseAndPad_fits {dim : Nat} {s : List Byte} (hs : 0 ∉ s) (hfit : s.length ≤ dim)
    (dest : List Byte) : fatUppercaseAndPad dest s dim
      = s.map fatCharGetUppercase ++ List.replicate (dim - s.length) 0x20 := by
  simp only [fatUppercaseAndPad, cString_eq_self hs]
  exact if_pos hfit

theorem fatUppercaseAndPad_match {m : Mem} {p dim : Nat} {s : List Byte} (hs : 0 ∉ s)
    (hfit : s.length ≤ dim) (dest : List Byte) :
    fatCharArrayEqual (fatUppercaseAndPad dest s dim) m p dim = true ↔ FieldIs m p dim s := by
  have hpad : ∀ j, j < dim → (fatUppercaseAndPad dest s dim).getD j 0
      = (s.map fatCharGetUppercase).getD j 0x20 := by
    intro j hj
    rw [fatUppercaseAndPad_fits hs hfit]
    rcases Nat.lt_or_ge j s.length with hin | hout
    · have hmap : j < (s.map fatCharGetUppercase).length := by
        rw [List.length_map]
        exact hin
      rw [List.getD_append _ _ _ _ hmap, List.getD_eq_getElem _ _ hmap,
        List.getD_eq_getElem _ _ hmap]
    · have hmap : (s.map fatCharGetUppercase).length ≤ j := by
        rw [List.length_map]
        exact hout
      rw [List.getD_append_right _ _ _ _ hmap, List.getD_eq_default _ _ hmap, List.length_map,
        List.getD_replicate _ (by omega)]
  rw [fatCharArrayEqual_iff]
  constructor
  · intro hall j hj
    rw [hall j hj, hpad j hj]
  · intro hall j hj
    rw [hall j hj, hpad j hj]

/-- .. and one that is too long leaves what was on the stack. -/
theorem fatUppercaseAndPad_long {dim : Nat} {s : List Byte} (hs : 0 ∉ s) (hlong : dim < s.length)
    (dest : List Byte) : fatUppercaseAndPad dest s dim = dest := by
  simp only [fatUppercaseAndPad, cString_eq_self hs]
  exact if_neg (Nat.not_le.mpr hlong)

/-- The test that the loop of `fat_get_entry_by_file` makes at entry `i`. -/
def entryMatches (h : FatHandle) (fatName fatExt : List Byte) (i : Nat) : Bool :=
  fatCharArrayEqual fatName h.entries (fat16DirEntrySize * i) 8 &&
    fatCharArrayEqual fatExt h.entries (fat16DirEntrySize * i + 8) 3

/-- The loop returns the first entry that passes, or `NULL`. -/
theorem fatGetEntryByFile_eq_none {h : FatHandle} {stackName stackExt name ext : List Byte} :
    fatGetEntryByFile h stackName stackExt name ext = none ↔
      ∀ i, i < h.header.possibleRootEntries → entryMatches h (fatUppercaseAndPad stackName name 8)
        (fatUppercaseAndPad stackExt ext 3) i = false := by
  show List.find? _ _ = none ↔ _
  rw [List.find?_range_eq_none]
  simp only [Bool.not_eq_true']
  rfl

section Fits

variable {h : FatHandle} {name ext : List Byte}

theorem entryMatches_iff (hname : 0 ∉ name) (hext : 0 ∉ ext) (h8 : name.length ≤ 8)
    (h3 : ext.length ≤ 3) (stackName stackExt : List Byte) (i : Nat) :
    entryMatches h (fatUppercaseAndPad stackName name 8) (fatUppercaseAndPad stackExt ext 3) i
      = true ↔ EntryNamed h name ext i := by
  unfold entryMatches
  rw [Bool.and_eq_true, fatUppercaseAndPad_match hname h8, fatUppercaseAndPad_match hext h3]
  constructor
  · rintro ⟨h1, h2⟩
    exact ⟨h1, h2⟩
  · rintro ⟨h1, h2⟩
    exact ⟨h1, h2⟩

/-- **A name that fits is looked up exactly**, whatever was on the stack. -/
theorem fatGetEntryByFile_eq_some (hname : 0 ∉ name) (hext : 0 ∉ ext) (h8 : name.length ≤ 8)
    (h3 : ext.length ≤ 3) (stackName stackExt : List Byte) (i : Nat) :
    fatGetEntryByFile h stackName stackExt name ext = some i ↔ FirstNamed h name ext i := by
  have htest := entryMatches_iff (h := h) hname hext h8 h3 stackName stackExt
  show List.find? (entryMatches h _ _) _ = some i ↔ _
  rw [List.find?_range_eq_some]
  constructor
  · rintro ⟨hmatch, hmem, hbefore⟩
    refine ⟨List.mem_range.mp hmem, (htest i).mp hmatch, fun j hj hnamed => ?_⟩
    have hnot := hbefore j hj
    rw [(htest j).mpr hnamed] at hnot
    exact absurd hnot (by decide)
  · rintro ⟨hlt, hnamed, hleast⟩
    refine ⟨(htest i).mpr hnamed, List.mem_range.mpr hlt, fun j hj => ?_⟩
    rw [Bool.not_eq_true', ← Bool.not_eq_true]
    exact fun hmatch => hleast j hj ((htest j).mp hmatch)

end Fits

/-- The case of a letter does not matter. -/
theorem SameLetter.uppercase_eq {c d : Byte} (hcd : SameLetter c d) :
    fatCharGetUppercase c = fatCharGetUppercase d := by
  unfold fatCharGetUppercase
  rcases hcd with rfl | ⟨h1, h2, h3⟩ | ⟨h1, h2, h3⟩
  · rfl
  · rw [if_pos ⟨h1, h2⟩, if_neg (by omega)]
    bv_omega
  · rw [if_neg (by omega), if_pos ⟨h1, h2⟩]
    bv_omega

theorem map_uppercase_eq {s t : List Byte} (h : List.Forall₂ SameLetter s t) :
    s.map fatCharGetUppercase = t.map fatCharGetUppercase := by
  induction h with
  | nil => rfl
  | cons hcd _ ih => rw [List.map_cons, List.map_cons, hcd.uppercase_eq, ih]

/-- A character that is no letter stands for itself. -/
theorem SameLetter.not_mem {s t : List Byte} {c : Byte} (h : List.Forall₂ SameLetter s t)
    (hc : ∀ d, SameLetter d c → d = c) (hs : c ∉ s) : c ∉ t := by
  induction h with
  | nil => exact List.not_mem_nil
  | cons hcd _ ih =>
    rw [List.mem_cons, not_or] at hs
    rw [List.mem_cons, not_or]
    constructor
    · intro heq
      exact hs.1 (hc _ (heq ▸ hcd)).symm
    · exact ih hs.2

/-- **8.3 lookup is exact.**  For every root directory and every name "N.E" of up to 8 and up to 3
    characters, the lookup of `fatfs_open` returns the first entry with these characters,
    upper-cased and padded, `NULL` without one, and the same for every other spelling of the name
    in upper and lower case. -/
theorem fat_lookup_exact (h : FatHandle) {m : Mem} {p : Nat} {name ext : List Byte}
    (h8 : name.length ≤ 8) (hdot : 0x2e ∉ name) (h3 : ext.length ≤ 3)
    (hs : CStringAt m p (name ++ 0x2e :: ext)) (stackName stackExt : List Byte) :
    ∃ r, fatfsLookup h stackName stackExt m p = .ok r ∧
      (∀ i, r = some i ↔ FirstNamed h name ext i) ∧
      (r = none ↔ ∀ i, i < h.header.possibleRootEntries → ¬ EntryNamed h name ext i) ∧
      ∀ m' p' name' ext' stackName' stackExt', List.Forall₂ SameLetter name name' →
        List.Forall₂ SameLetter ext ext' → CStringAt m' p' (name' ++ 0x2e :: ext') →
        fatfsLookup h stackName' stackExt' m' p' = .ok r := by
  have hname : 0 ∉ name := fun hzero => hs.nonzero (List.mem_append_left _ hzero)
  have hext : 0 ∉ ext := hs.behindDot.nonzero
  refine ⟨fatGetEntryByFile h stackName stackExt name ext, ?_,
    fatGetEntryByFile_eq_some hname hext h8 h3 stackName stackExt, ?_, ?_⟩
  · rw [fatfsLookup, fatfsSplit_eq hdot hs, if_pos (by omega)]
    rfl
  · rw [fatGetEntryByFile_eq_none]
    have htest := entryMatches_iff (h := h) hname hext h8 h3 stackName stackExt
    constructor
    · intro hall i hi hnamed
      exact absurd (hall i hi) (by rw [(htest i).mpr hnamed]; decide)
    · intro hall i hi
      rw [← Bool.not_eq_true]
      exact fun hmatch => hall i hi ((htest i).mp hmatch)
  · intro m' p' name' ext' stackName' stackExt' hnames hexts hs'
    have hdot' : 0x2e ∉ name' := by
      refine SameLetter.not_mem hnames ?_ hdot
      intro d hd
      unfold SameLetter at hd
      bv_omega
    have hlen : name'.length = name.length := hnames.length_eq.symm
    have hlen' : ext'.length = ext.length := hexts.length_eq.symm
    have hname' : 0 ∉ name' := fun hzero => hs'.nonzero (List.mem_append_left _ hzero)
    rw [fatfsLookup, fatfsSplit_eq hdot' hs', if_pos (by omega)]
    -- the same bytes are looked for
    have hsame : fatGetEntryByFile h stackName' stackExt' name' ext'
        = fatGetEntryByFile h stackName stackExt name ext := by
      unfold fatGetEntryByFile
      rw [fatUppercaseAndPad_fits hname' (by omega), fatUppercaseAndPad_fits hname h8,
        fatUppercaseAndPad_fits hs'.behindDot.nonzero (by omega), fatUppercaseAndPad_fits hext h3,
        ← map_uppercase_eq hnames, ← map_uppercase_eq hexts, hlen, hlen']
    exact congrArg Except.ok hsame

/-- A root directory with the file "A.B". -/
def oneFile : FatHandle where
  header := ⟨512, 1, 1, 1, 1, 8, 1, 0⟩
  sectors := 8
  fatSizeBytes := 16
  fatOffset := 512
  fat := fun _ => 0
  dirEntryOffset := 1024
  dirEntrySizeBytes := 32
  entries := fun x => if x = 0 then 0x41 else if x = 8 then 0x42 else 0x20
  dataOffset := 1056

theorem oneFile_first : FirstNamed oneFile [0x61] [0x62] 0 := by
  refine ⟨by decide, ⟨?_, ?_⟩, fun j hj => absurd hj (Nat.not_lt_zero j)⟩
  · unfold FieldIs
    decide
  · unfold FieldIs
    decide

theorem fat_lookup_exact_one :
    fatfsLookup oneFile [] [] (fun x => [0x61, 0x2e, 0x62].getD x 0) 0 = .ok (some 0) := by
  have hs : CStringAt (fun x => [0x61, 0x2e, 0x62].getD x 0) 0 ([0x61] ++ 0x2e :: [0x62]) :=
    CStringAt.exists_mem (by decide)
  obtain ⟨r, hlookup, hsome, -⟩ := fat_lookup_exact oneFile (by decide) (by decide) (by decide) hs
    [] []
  exact hlookup.trans (congrArg Except.ok ((hsome 0).mpr oneFile_first))

/-! ## Any string -/

/-- The characters before the first '.'. -/
def fileBase (s : List Byte) : List Byte := s.takeWhile (· ≠ 0x2e)

/-- The characters behind it. -/
def fileExt (s : List Byte) : List Byte := s.drop ((fileBase s).length + 1)

/-- `fatfs_open` of the string `s` at `p` is safe. -/
structure OpensSafely (h : FatHandle) (m : Mem) (p : Nat) (s : List Byte) : Prop where
  /-- Nothing behind the terminator is read. -/
  reads : ∀ x ∈ fatfsSplitReads m p, x ≤ p + s.length
  /-- Both arrays are long enough. -/
  writes : ∃ halves, fatfsSplit m p = .ok halves
  /-- What the other two arrays hold does not matter. -/
  stack : ∀ stackName stackExt stackName' stackExt' : List Byte,
    stackName.length = 8 → stackExt.length = 3 → stackName'.length = 8 → stackExt'.length = 3 →
    fatfsLookup h stackName stackExt m p = fatfsLookup h stackName' stackExt' m p
  long : 8 < (fileBase s).length ∨ 3 < (fileExt s).length → ∀ stackName stackExt : List Byte,
    stackName.length = 8 → stackExt.length = 3 → fatfsLookup h stackName stackExt m p = .ok none

/-- What fits of the name is the name of entry `i`. -/
def HalvesAgree (h : FatHandle) (s : List Byte) (i : Nat) : Prop :=
  ((fileBase s).length ≤ 8 → FieldIs h.entries (fat16DirEntrySize * i) 8 (fileBase s)) ∧
    ((fileExt s).length ≤ 3 → FieldIs h.entries (fat16DirEntrySize * i + 8) 3 (fileExt s))

/-- The names that `fatfs_open` can take. -/
structure Openable (h : FatHandle) (s : List Byte) : Prop where
  dot : 0x2e ∈ s
  base : (fileBase s).length ≤ 9
  ext : (fileExt s).length ≤ 9
  long : 8 < (fileBase s).length ∨ 3 < (fileExt s).length →
    ∀ i, i < h.header.possibleRootEntries → ¬ HalvesAgree h s i

theorem fileBase_dot_fileExt : ∀ s : List Byte, 0x2e ∈ s →
    s = fileBase s ++ 0x2e :: fileExt s ∧ 0x2e ∉ fileBase s := by
  intro s
  induction s with
  | nil =>
    intro hmem
    exact absurd hmem List.not_mem_nil
  | cons c s ih =>
    intro hmem
    by_cases hc : c = 0x2e
    · subst hc
      exact ⟨rfl, List.not_mem_nil⟩
    · have hbase : fileBase (c :: s) = c :: fileBase s :=
        List.takeWhile_cons_of_pos (decide_eq_true hc)
      have hext : fileExt (c :: s) = fileExt s := by
        unfold fileExt
        rw [hbase, List.length_cons, List.drop_succ_cons]
      obtain ⟨hsplit, hnot⟩ := ih ((List.mem_cons.mp hmem).resolve_left (Ne.symm hc))
      rw [hbase, hext]
      constructor
      · rw [List.cons_append, ← hsplit]
      · rw [List.mem_cons, not_or]
        exact ⟨Ne.symm hc, hnot⟩

theorem fileBase_nonzero {s : List Byte} (hs : 0 ∉ s) : 0 ∉ fileBase s :=
  fun hzero => hs ((List.takeWhile_prefix _).subset hzero)

theorem fileExt_nonzero {s : List Byte} (hs : 0 ∉ s) : 0 ∉ fileExt s :=
  fun hzero => hs (List.mem_of_mem_drop hzero)

section Any

variable {h : FatHandle} {m : Mem} {p : Nat} {s : List Byte}

/-- Without a '.' the first loop reads on behind the terminator. -/
theorem OpensSafely.dot (hs : CStringAt m p s) (hsafe : OpensSafely h m p s) : 0x2e ∈ s := by
  by_contra hdot
  have hnot : ∀ i, i ≤ s.length → m (p + i) ≠ 0x2e := by
    intro i hi heq
    rcases Nat.lt_or_ge i s.length with hlt | hge
    · rw [hs.getElem hlt] at heq
      exact hdot (heq ▸ List.getElem_mem hlt)
    · have hlast : i = s.length := by omega
      rw [hlast, hs.stop] at heq
      exact absurd heq (by decide)
  rcases Nat.lt_or_ge s.length 10 with hshort | hlong
  · have hread : p + (s.length + 1) ∈ fatfsCopyReads m 0x2e 10 p :=
      mem_fatfsCopyReads (s.length + 1) 10 p (by omega) (fun i hi => hnot i (by omega))
    have hle := hsafe.reads _ (List.mem_append_left _ hread)
    omega
  · obtain ⟨halves, hsplit⟩ := hsafe.writes
    rw [fatfsSplit, fatfsCopyUntil_runs_out 10 p (fun i hi => hnot i (by omega))] at hsplit
    cases hsplit

/-- The loop of `fat_get_entry_by_file` passes by an entry that the halves that fit rule out. -/
theorem entryMatches_agree (hs : 0 ∉ s) (stackName stackExt : List Byte) {i : Nat}
    (hmatch : entryMatches h (fatUppercaseAndPad stackName (fileBase s) 8)
      (fatUppercaseAndPad stackExt (fileExt s) 3) i = true) : HalvesAgree h s i := by
  have hbase := fileBase_nonzero hs
  have hext := fileExt_nonzero hs
  rw [entryMatches, Bool.and_eq_true] at hmatch
  constructor
  · intro hfit
    exact (fatUppercaseAndPad_match hbase hfit stackName).mp hmatch.1
  · intro hfit
    exact (fatUppercaseAndPad_match hext hfit stackExt).mp hmatch.2

/-- The bytes of a field, as a stack that holds them. -/
theorem field_stack (m : Mem) (p dim : Nat) : ∃ stack : List Byte, stack.length = dim ∧
    ∀ j, j < dim → m (p + j) = stack.getD j 0 := by
  refine ⟨(List.range dim).map fun j => m (p + j), ?_, fun j hj => ?_⟩
  · rw [List.length_map, List.length_range]
  · have hlen : j < ((List.range dim).map fun j => m (p + j)).length := by
      rw [List.length_map, List.length_range]
      exact hj
    rw [List.getD_eq_getElem _ _ hlen, List.getElem_map, List.getElem_range]

/-- **An entry that agrees with the halves that fit is found on some stack.** -/
theorem HalvesAgree.exists_stack (hs : 0 ∉ s) {i : Nat} (hagree : HalvesAgree h s i) :
    ∃ stackName stackExt : List Byte, stackName.length = 8 ∧ stackExt.length = 3 ∧
      entryMatches h (fatUppercaseAndPad stackName (fileBase s) 8)
        (fatUppercaseAndPad stackExt (fileExt s) 3) i = true := by
  have hbase := fileBase_nonzero hs
  have hext := fileExt_nonzero hs
  have hhalf : ∀ (t : List Byte) (p dim : Nat), 0 ∉ t →
      (t.length ≤ dim → FieldIs h.entries p dim t) → ∃ stack : List Byte, stack.length = dim ∧
        fatCharArrayEqual (fatUppercaseAndPad stack t dim) h.entries p dim = true := by
    intro t p dim ht hfield
    obtain ⟨stack, hlen, hbytes⟩ := field_stack h.entries p dim
    refine ⟨stack, hlen, ?_⟩
    rcases Nat.lt_or_ge dim t.length with hlong | hfit
    · rw [fatUppercaseAndPad_long ht hlong, fatCharArrayEqual_iff]
      exact hbytes
    · exact (fatUppercaseAndPad_match ht hfit stack).mpr (hfield hfit)
  obtain ⟨stackName, h8, hname⟩ := hhalf _ _ _ hbase hagree.1
  obtain ⟨stackExt, h3, hextension⟩ := hhalf _ _ _ hext hagree.2
  refine ⟨stackName, stackExt, h8, h3, ?_⟩
  rw [entryMatches, hname, hextension]
  rfl

/-- The lookup of a name whose halves fit their arrays. -/
theorem fatfsLookup_eq (hs : CStringAt m p s) (hdot : 0x2e ∈ s) (hbase : (fileBase s).length ≤ 9)
    (hext : (fileExt s).length ≤ 9) (stackName stackExt : List Byte) :
    fatfsLookup h stackName stackExt m p
      = .ok (fatGetEntryByFile h stackName stackExt (fileBase s) (fileExt s)) := by
  obtain ⟨hsplit, hnot⟩ := fileBase_dot_fileExt s hdot
  rw [hsplit] at hs
  rw [fatfsLookup, fatfsSplit_eq hnot hs, if_pos (by omega)]
  rfl

/-- Neither loop reads behind the terminator. -/
theorem fatfsSplitReads_le (hs : CStringAt m p s) (hdot : 0x2e ∈ s) (hbase : (fileBase s).length ≤ 9) :
    ∀ x ∈ fatfsSplitReads m p, x ≤ p + s.length := by
  obtain ⟨hsplit, hnot⟩ := fileBase_dot_fileExt s hdot
  have hend : s.length = (fileBase s).length + 1 + (fileExt s).length := by
    have hcongr := congrArg List.length hsplit
    rw [List.length_append, List.length_cons] at hcongr
    omega
  rw [hsplit] at hs
  intro x hx
  rw [fatfsSplitReads, fatfsCopyUntil_dot hnot hs, if_pos (by omega), List.mem_append] at hx
  rcases hx with hfirst | hsecond
  · have hstop : m (p + (fileBase s).length) = 0x2e := by
      rw [hs.getElem (by rw [List.length_append, List.length_cons]; omega),
        List.getElem_append_right (Nat.le_refl _)]
      simp
    have hle := fatfsCopyReads_le (fileBase s).length 10 p hstop x hfirst
    omega
  · have hle := fatfsCopyReads_le (fileExt s).length 10 _ hs.behindDot.stop x hsecond
    omega

/-- Where both halves fit, the stack is not looked at. -/
theorem fatGetEntryByFile_stack (hzero : 0 ∉ s)
    (hbase : (fileBase s).length ≤ 8) (hext : (fileExt s).length ≤ 3)
    (stackName stackExt stackName' stackExt' : List Byte) :
    fatGetEntryByFile h stackName stackExt (fileBase s) (fileExt s)
      = fatGetEntryByFile h stackName' stackExt' (fileBase s) (fileExt s) := by
  have hz := fileBase_nonzero hzero
  have hz' := fileExt_nonzero hzero
  unfold fatGetEntryByFile
  rw [fatUppercaseAndPad_fits hz hbase, fatUppercaseAndPad_fits hz hbase,
    fatUppercaseAndPad_fits hz' hext, fatUppercaseAndPad_fits hz' hext]

/-- Where one does not and no entry agrees with the other, nothing is found. -/
theorem Openable.lookup_none (ho : Openable h s) (hs : CStringAt m p s)
    (hlong : 8 < (fileBase s).length ∨ 3 < (fileExt s).length) (stackName stackExt : List Byte) :
    fatfsLookup h stackName stackExt m p = .ok none := by
  rw [fatfsLookup_eq hs ho.dot ho.base ho.ext, fatGetEntryByFile_eq_none.mpr]
  intro i hi
  rw [← Bool.not_eq_true]
  exact fun hmatch => ho.long hlong i hi (entryMatches_agree hs.nonzero stackName stackExt hmatch)

/-- **Which names `fatfs_open` can take.**  For every root directory and every string in every
    memory: opening it is safe if and only if it has a '.', no half has more than 9 characters, and
    no entry agrees with the rest of a name of which a half does not fit. -/
theorem fat_open_safe_iff (h : FatHandle) {m : Mem} {p : Nat} {s : List Byte}
    (hs : CStringAt m p s) : OpensSafely h m p s ↔ Openable h s := by
  constructor
  · intro hsafe
    have hdot := hsafe.dot hs
    obtain ⟨hsplit, hnot⟩ := fileBase_dot_fileExt s hdot
    have hlen : (fileBase s).length < 10 ∧ (fileExt s).length < 10 := by
      by_contra hover
      obtain ⟨halves, hok⟩ := hsafe.writes
      rw [fatfsSplit_eq hnot (by rw [← hsplit]; exact hs), if_neg hover] at hok
      cases hok
    refine ⟨hdot, by omega, by omega, fun hlong i hi hagree => ?_⟩
    obtain ⟨stackName, stackExt, h8, h3, hmatch⟩ := hagree.exists_stack hs.nonzero
    have hnull := hsafe.long hlong stackName stackExt h8 h3
    rw [fatfsLookup_eq hs hdot (by omega) (by omega)] at hnull
    rw [fatGetEntryByFile_eq_none.mp (Except.ok.inj hnull) i hi] at hmatch
    exact absurd hmatch (by decide)
  · intro ho
    have hbase := ho.base
    have hext := ho.ext
    constructor
    · exact fatfsSplitReads_le hs ho.dot hbase
    · obtain ⟨hsplit, hnot⟩ := fileBase_dot_fileExt s ho.dot
      exact ⟨_, by rw [fatfsSplit_eq hnot (by rw [← hsplit]; exact hs), if_pos (by omega)]⟩
    · intro stackName stackExt stackName' stackExt' _ _ _ _
      by_cases hlong : 8 < (fileBase s).length ∨ 3 < (fileExt s).length
      · rw [ho.lookup_none hs hlong, ho.lookup_none hs hlong]
      · rw [fatfsLookup_eq hs ho.dot hbase hext, fatfsLookup_eq hs ho.dot hbase hext,
          fatGetEntryByFile_stack hs.nonzero (by omega) (by omega)]
    · exact fun hlong stackName stackExt _ _ => ho.lookup_none hs hlong stackName stackExt

end Any

theorem fat_open_safe_one : OpensSafely oneFile (fun x => [0x61, 0x2e, 0x62].getD x 0) 0
    [0x61, 0x2e, 0x62] := by
  refine (fat_open_safe_iff oneFile (CStringAt.exists_mem (by decide))).mpr ⟨?_, ?_, ?_, ?_⟩
  · decide
  · decide
  · decide
  · intro hlong
    exact absurd hlong (by decide)

/-- "ab" has no '.', and the byte behind its terminator is read. -/
theorem fat_open_reads_on :
    CStringAt (fun x => [0x61, 0x62].getD x 0) 0 [0x61, 0x62] ∧
    ¬ OpensSafely oneFile (fun x => [0x61, 0x62].getD x 0) 0 [0x61, 0x62] := by
  have hs : CStringAt (fun x => [0x61, 0x62].getD x 0) 0 [0x61, 0x62] :=
    CStringAt.exists_mem (by decide)
  refine ⟨hs, fun hsafe => ?_⟩
  exact absurd (hsafe.dot hs) (by decide)

end TinyKernel
