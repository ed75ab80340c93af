/-
  `klog` and `klogf` of `kernel/log.c`, and the arrays they format into.

  A line of the log is the time in square brackets, the text and a newline.  The time is rendered in
  15 bytes, the arguments of `klogf` in 40, and the line in 50.  `klog_eq` and `klogf_eq` are exact:
  the time has at most 11 digits, the rendered text at most 39 characters, and together they are at
  most 45 characters, or a store leaves an array.  The system call 11 puts a string of the user
  program into the text.
-/
import TinyKernel.Log.Format

namespace TinyKernel

/-! ## The source -/

/-- The generic timer: CNTFRQ_EL0 and CNTPCT_EL0. -/
structure SystemCounter where
  frequency : BitVec 32
  count : Word

/-- `timer_read_systemcounter_usec`; the quotient by 0 is 0, as `udiv` computes it. -/
def timerReadSystemcounterUsec (clock : SystemCounter) : Word :=
  clock.count / (clock.frequency / 1000000).setWidth 64

/-- What the local arrays of `klog` hold at first. -/
structure KlogStack where
  buffer : Mem
  /-- `prefix`. -/
  head : Mem
  format : FormatStack

/-- "[%q] ". -/
def klogFormat : CString := ⟨[ '[', '%', 'q', ']', ' '].map chr, by decide, by decide⟩

/-- `klog(str)`: what it passes to `put_string`. -/
def klog (clock : SystemCounter) (str : List Byte) (stack : KlogStack) :
    Except Fault (List Byte) := do
  let head := memset stack.head 0 0 15
  let (head, _) ← sprintf 15 stack.format head klogFormat [.number (timerReadSystemcounterUsec clock)]
  let s ← stringIn head 15 0
  let buffer ← strcpyIn 50 s stack.buffer 0
  let buffer ← strcatIn 50 buffer 0 str
  let buffer ← strcatIn 50 buffer 0 [0x0a]
  stringIn buffer 50 0

/-- What the local arrays of `klogf` hold at first, and those of the functions it calls. -/
structure KlogfStack where
  buffer : Mem
  format : FormatStack
  klog : KlogStack

/-- `klogf(format, ...)`. -/
def klogf (clock : SystemCounter) (format : CString) (vars : List FormatArg) (stack : KlogfStack) :
    Except Fault (List Byte) := do
  let buffer := memset stack.buffer 0 0 40
  let (buffer, _) ← sprintfInternal 40 stack.format buffer format vars
  let s ← stringIn buffer 40 0
  klog clock s stack.klog

/-- "'%s': '%s'", the format of the system call 11. -/
def syscallLogFormat : CString :=
  ⟨[0x27, chr '%', chr 's', 0x27, chr ':', chr ' ', 0x27, chr '%', chr 's', 0x27],
    by decide, by decide⟩

/-! ## Rendering into an array -/

/-- The number of digits of the time. -/
def timeDigits (clock : SystemCounter) : Nat :=
  (numeral 10 (timerReadSystemcounterUsec clock).toNat).length

/-- A cleared array is zero. -/
theorem memset_cleared (m : Mem) {n : Nat} (hn : n < 2147483648) :
    ∀ x, x < n → memset m 0 0 n x = 0 := by
  intro x hx
  rw [memset_zero_apply m hn (by omega), if_pos (by omega)]

/-- Formatting into a cleared array and reading the string back: the output, if it fits. -/
theorem formatted_eq {format : CString} {vars : List FormatArg} {ps : List Piece}
    (hmatch : pieces format.chars vars = some ps) {size : Nat} (stack : FormatStack) {str : Mem}
    (hzero : ∀ x, x < size → str x = 0) {β : Type} (k : List Byte → Except Fault β) :
    (do
      let (str, _) ← sprintfInternal size stack str format vars
      let s ← stringIn str size 0
      k s) = if (rendered ps).length < size then k (rendered ps) else .error .outOfBounds := by
  have hnonzero := rendered_nonzero _ _ _ hmatch format.nonzero
  rw [sprintfInternal_eq hmatch]
  by_cases hroom : (rendered ps).length < size
  · rw [putPieces_room size _ ps str 0 0 (fun x _ => hzero x) (by omega), if_pos hroom, ok_bind]
    dsimp only
    rw [stringIn_eq (cStringAt_strcpy hnonzero str 0) hroom, ok_bind]
  · rw [if_neg hroom]
    have hfull := putPieces_no_room size (EndsInPercent format.chars) ps str 0 0
      ⟨fun x hx => absurd hx (Nat.not_lt_zero x), fun x _ => hzero x⟩ hnonzero (Nat.zero_le _)
      (by omega)
    rcases hfull with herror | ⟨-, str', ret, hput, hnone⟩
    · rw [herror]
      rfl
    · rw [hput, ok_bind]
      dsimp only
      rw [stringIn_unterminated fun x _ hx => hnone x (by omega)]
      rfl

/-! ## The lines -/

/-- The line that `klog` prints. -/
def klogLine (clock : SystemCounter) (str : List Byte) : List Byte :=
  chr '[' :: numeral 10 (timerReadSystemcounterUsec clock).toNat ++ [chr ']', chr ' '] ++ str
    ++ [0x0a]

/-- **`klog`** prints the line, or leaves an array. -/
theorem klog_eq (clock : SystemCounter) {str : List Byte} (hstr : 0 ∉ str) (stack : KlogStack) :
    klog clock str stack
      = if timeDigits clock ≤ 11 ∧ timeDigits clock + str.length ≤ 45
        then .ok (klogLine clock str) else .error .outOfBounds := by
  have hmatch : pieces klogFormat.chars [.number (timerReadSystemcounterUsec clock)]
      = some [.char (chr '['), .text (numeral 10 (timerReadSystemcounterUsec clock).toNat),
        .char (chr ']'), .char (chr ' ')] := rfl
  generalize hps : [Piece.char (chr '['), .text (numeral 10 (timerReadSystemcounterUsec clock).toNat),
    .char (chr ']'), .char (chr ' ')] = ps at hmatch
  have htext : rendered ps = chr '[' :: numeral 10 (timerReadSystemcounterUsec clock).toNat
      ++ [chr ']', chr ' '] := by
    rw [← hps]
    rfl
  have hlen : (rendered ps).length = timeDigits clock + 3 := by
    rw [htext, List.length_append, List.length_cons, timeDigits]
    rfl
  have hnonzero := rendered_nonzero _ _ _ hmatch klogFormat.nonzero
  have hline : klogLine clock str = rendered ps ++ str ++ [0x0a] := by
    rw [htext]
    rfl
  unfold klog sprintf
  rw [formatted_eq hmatch stack.format (memset_cleared stack.head (by decide)), hlen]
  by_cases htime : timeDigits clock ≤ 11
  · rw [if_pos (by omega), strcpyIn_eq, if_pos (by omega), ok_bind]
    have hhead := cStringAt_strcpy hnonzero stack.buffer 0
    rw [strcatIn_eq hhead (by omega)]
    by_cases hfits : 0 + (rendered ps).length + str.length < 50
    · have hboth := cStringAt_strcat hhead hstr
      have hlenboth : (rendered ps ++ str).length = timeDigits clock + 3 + str.length := by
        rw [List.length_append, hlen]
      rw [if_pos hfits, ok_bind, strcatIn_eq hboth (by omega)]
      by_cases hall : timeDigits clock + str.length ≤ 45
      · have hwhole := cStringAt_strcat hboth (show (0 : Byte) ∉ [0x0a] by decide)
        rw [if_pos (by rw [List.length_singleton]; omega), if_pos ⟨htime, hall⟩, ok_bind, hline,
          stringIn_eq hwhole (by rw [List.length_append, List.length_singleton]; omega)]
      · rw [if_neg (by rw [List.length_singleton]; omega), if_neg (by omega)]
        rfl
    · rw [if_neg hfits, if_neg (by omega)]
      rfl
  · rw [if_neg (by omega), if_neg (by omega)]

/-- **`klogf`** prints the line of the rendered text, or leaves an array. -/
theorem klogf_eq (clock : SystemCounter) {format : CString} {vars : List FormatArg}
    {ps : List Piece} (hmatch : pieces format.chars vars = some ps) (stack : KlogfStack) :
    klogf clock format vars stack
      = if (rendered ps).length ≤ 39 ∧ timeDigits clock ≤ 11 ∧
          timeDigits clock + (rendered ps).length ≤ 45
        then .ok (klogLine clock (rendered ps)) else .error .outOfBounds := by
  have hnonzero := rendered_nonzero _ _ _ hmatch format.nonzero
  unfold klogf
  rw [formatted_eq hmatch stack.format (memset_cleared stack.buffer (by decide)),
    klog_eq clock hnonzero]
  by_cases htext : (rendered ps).length ≤ 39
  · rw [if_pos (by omega)]
    by_cases htime : timeDigits clock ≤ 11 ∧ timeDigits clock + (rendered ps).length ≤ 45
    · rw [if_pos htime, if_pos ⟨htext, htime⟩]
    · rw [if_neg htime, if_neg fun h => htime h.2]
  · rw [if_neg (by omega), if_neg fun h => htext h.1]

/-- The call ends well exactly under the condition. -/
theorem ne_error_iff {α : Type} {c : Prop} [Decidable c] {a : α} {e : Fault} :
    (if c then Except.ok a else Except.error e) ≠ .error e ↔ c := by
  by_cases hc : c
  · rw [if_pos hc]
    exact ⟨fun _ => hc, fun _ h => by cases h⟩
  · rw [if_neg hc]
    exact ⟨fun h => absurd rfl h, fun h => absurd h hc⟩

/-- **Logging stays inside its arrays** for exactly the times and the texts that are short enough.
    `klogf` formats into 40 bytes, and nothing on the way compares the length of a text with the
    size of an array. -/
theorem klog_stays_inside_iff (clock : SystemCounter) (str format : CString)
    (vars : List FormatArg) (ps : List Piece) (hmatch : pieces format.chars vars = some ps) :
    ((∀ stack, klog clock str.chars stack ≠ .error .outOfBounds) ↔
      timeDigits clock ≤ 11 ∧ timeDigits clock + str.chars.length ≤ 45) ∧
    ((∀ stack, klogf clock format vars stack ≠ .error .outOfBounds) ↔
      (rendered ps).length ≤ 39 ∧ timeDigits clock ≤ 11 ∧
        timeDigits clock + (rendered ps).length ≤ 45) := by
  have hzero : FormatStack := ⟨fun _ => 0, fun _ => 0⟩
  have hklog : KlogStack := ⟨fun _ => 0, fun _ => 0, hzero⟩
  constructor
  · simp only [klog_eq clock str.nonzero, ne_error_iff]
    exact ⟨fun h => h hklog, fun h _ => h⟩
  · simp only [klogf_eq clock hmatch, ne_error_iff]
    exact ⟨fun h => h ⟨fun _ => 0, hzero, hklog⟩, fun h _ => h⟩

/-- One microsecond after the start, at 62.5 MHz. -/
def earlyClock : SystemCounter := ⟨62500000, 62⟩

/-- "init". -/
def initName : CString := ⟨[ 'i', 'n', 'i', 't'].map chr, by decide, by decide⟩

/-- The job "init" says "init". -/
theorem klog_stays_inside_init :
    (∀ stack, klog earlyClock initName.chars stack ≠ .error .outOfBounds) ∧
    ∀ stack, klogf earlyClock syscallLogFormat [.string initName, .string initName] stack
      ≠ .error .outOfBounds := by
  have h := klog_stays_inside_iff earlyClock initName syscallLogFormat
    [.string initName, .string initName]
    [.char 0x27, .text initName.chars, .char 0x27, .char (chr ':'), .char (chr ' '), .char 0x27,
      .text initName.chars, .char 0x27] rfl
  exact ⟨h.1.mpr (by decide), h.2.mpr (by decide)⟩

/-- **The system call 11** has room for 33 characters of the name and the string together. -/
theorem klogf_syscall_eq (clock : SystemCounter) (name user : CString) (stack : KlogfStack) :
    klogf clock syscallLogFormat [.string name, .string user] stack = .error .outOfBounds ↔
      ¬ (name.chars.length + user.chars.length ≤ 33 ∧ timeDigits clock ≤ 11 ∧
        timeDigits clock + name.chars.length + user.chars.length ≤ 39) := by
  have hmatch : pieces syscallLogFormat.chars [.string name, .string user]
      = some [.char 0x27, .text name.chars, .char 0x27, .char (chr ':'), .char (chr ' '),
        .char 0x27, .text user.chars, .char 0x27] := rfl
  have hlen : (rendered [.char 0x27, .text name.chars, .char 0x27, .char (chr ':'), .char (chr ' '),
      .char 0x27, .text user.chars, .char 0x27]).length
      = name.chars.length + user.chars.length + 6 := by
    simp only [rendered, List.flatMap_cons, List.flatMap_nil, Piece.chars, List.length_append,
      List.length_singleton, List.length_nil]
    omega
  rw [klogf_eq clock hmatch, hlen]
  by_cases hfits : name.chars.length + user.chars.length ≤ 33 ∧ timeDigits clock ≤ 11 ∧
      timeDigits clock + name.chars.length + user.chars.length ≤ 39
  · rw [if_pos (by omega)]
    constructor
    · intro h
      cases h
    · exact fun h => absurd hfits h
  · rw [if_neg (by omega)]
    exact ⟨fun _ => hfits, fun _ => rfl⟩

/-- The job "init" prints a string of 30 characters.  And after 28 hours the time has twelve digits,
    so that an empty line is too long. -/
theorem klog_overruns :
    klogf earlyClock syscallLogFormat
      [.string initName, .string ⟨List.replicate 30 (chr 'a'), by decide, by decide⟩]
      ⟨fun _ => 0, ⟨fun _ => 0, fun _ => 0⟩, ⟨fun _ => 0, fun _ => 0, ⟨fun _ => 0, fun _ => 0⟩⟩⟩
      = .error .outOfBounds ∧
    klog ⟨62500000, 6200000000000⟩ [] ⟨fun _ => 0, fun _ => 0, ⟨fun _ => 0, fun _ => 0⟩⟩
      = .error .outOfBounds := by
  constructor
  · rw [klogf_syscall_eq]
    decide
  · rw [klog_eq _ List.not_mem_nil]
    decide

end TinyKernel
