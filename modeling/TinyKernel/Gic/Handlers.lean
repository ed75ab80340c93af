/-
  The table of interrupt handlers, `kernel/gic/gic.c`.

  `handlers` and `handler_params` are two static arrays of `MAX_INTS` pointers.  The linker places
  them; `HandlerArrays` is any placement in which they do not overlap, and an access behind the end
  of one of them reaches whatever lies there (which is the other array, if they are neighbours).
  `accessed` is a ghost: the indices that were used on either array.

  The guards let the id `MAX_INTS` pass.  `HandlersInv` says that the arrays hold what the history of
  the calls says they should; every call with another id keeps it (`HandlersInv.step`), and a call
  with this one accesses both arrays, or one of them, behind its end.

  An erase clears `handlers` and leaves `handler_params`, so the map is that of the handlers: the
  parameter counts only while there is a handler (`handlerOf`).  The specification of a call is the
  history, not the arrays: `lastSet` looks for the last call that set the id, and stops at an
  erase.  `HandlersInv.right_iff` compares the two for one call, and the run lemma carries it over.
-/
import TinyKernel.Lib.Bytes
import TinyKernel.Lib.Machine

namespace TinyKernel

/-- `MAX_INTS`. -/
def maxInts : Int := 1024

/-- Where `handlers` and `handler_params` are. -/
structure HandlerArrays where
  handlers : Nat
  handlerParams : Nat
  apart : handlers + 8192 ≤ handlerParams ∨ handlerParams + 8192 ≤ handlers

/-- The memory with the two arrays. -/
structure HandlerTable where
  mem : Mem
  /-- The indices that were used, newest first. -/
  accessed : List Int

namespace HandlerTable

/-- `array[i]`, for the array at `base`. -/
def entry (t : HandlerTable) (base : Nat) (i : Int) : Word := load64 t.mem (base + 8 * i.toNat)

/-- The read of `array[i]`. -/
def load (t : HandlerTable) (base : Nat) (i : Int) : Word × HandlerTable :=
  (t.entry base i, { t with accessed := i :: t.accessed })

/-- `array[i] = p`. -/
def store (t : HandlerTable) (base : Nat) (i : Int) (p : Word) : HandlerTable :=
  ⟨store64 t.mem (base + 8 * i.toNat) p, i :: t.accessed⟩

end HandlerTable

/-! ## The source -/

section Source

variable (arrays : HandlerArrays)

/-- `gic_redistributor_set_handler`. -/
def gicRedistributorSetHandler (t : HandlerTable) (intid : Int) (handler arg : Word) :
    HandlerTable :=
  if intid < 0 ∨ maxInts < intid then t
  else (t.store arrays.handlers intid handler).store arrays.handlerParams intid arg

/-- `gic_redistributor_get_handler`; 0 is `NULL`. -/
def gicRedistributorGetHandler (t : HandlerTable) (intid : Int) : Word × HandlerTable :=
  if intid < 0 ∨ maxInts < intid then (0, t) else t.load arrays.handlers intid

/-- `gic_redistributor_get_handler_param`. -/
def gicRedistributorGetHandlerParam (t : HandlerTable) (intid : Int) : Word × HandlerTable :=
  if intid < 0 ∨ maxInts < intid then (0, t) else t.load arrays.handlerParams intid

/-- `for (; i < MAX_INTS; i++) handlers[i] = NULL`, with `n` entries to go. -/
def eraseHandlersLoop : Nat → Nat → HandlerTable → HandlerTable
  | 0, _, t => t
  | n + 1, i, t => eraseHandlersLoop n (i + 1) (t.store arrays.handlers i 0)

/-- `gic_redistributor_erase_handlers`. -/
def gicRedistributorEraseHandlers (t : HandlerTable) : HandlerTable :=
  eraseHandlersLoop arrays maxInts.toNat 0 t

end Source

/-! ## Calls -/

/-- A call, with its result if it has one. -/
inductive HandlerCall
  | setHandler (intid : Int) (handler arg : Word)
  | eraseHandlers
  | getHandler (intid : Int) (result : Word)
  | getHandlerParam (intid : Int) (result : Word)

/-- The interrupt id of a call. -/
def HandlerCall.intid : HandlerCall → Option Int
  | .setHandler intid _ _ => some intid
  | .eraseHandlers => none
  | .getHandler intid _ => some intid
  | .getHandlerParam intid _ => some intid

/-- The table, and the calls that were made, newest first. -/
structure HandlerState where
  table : HandlerTable
  history : List HandlerCall

/-- One call. -/
def HandlerStep (arrays : HandlerArrays) (s : HandlerState) (call : HandlerCall)
    (s' : HandlerState) : Prop :=
  s'.history = call :: s.history ∧
    match call with
    | .setHandler intid handler arg =>
      s'.table = gicRedistributorSetHandler arrays s.table intid handler arg
    | .eraseHandlers => s'.table = gicRedistributorEraseHandlers arrays s.table
    | .getHandler intid result =>
      gicRedistributorGetHandler arrays s.table intid = (result, s'.table)
    | .getHandlerParam intid result =>
      gicRedistributorGetHandlerParam arrays s.table intid = (result, s'.table)

/-- The runs of the interface: static arrays start as zeros. -/
def handlerMachine (arrays : HandlerArrays) : Machine HandlerState HandlerCall where
  start s := s.history = [] ∧ s.table.accessed = [] ∧ ∀ i, 0 ≤ i → i < maxInts →
    s.table.entry arrays.handlers i = 0 ∧ s.table.entry arrays.handlerParams i = 0
  step := HandlerStep arrays

/-! ## What the table should be -/

/-- The handler and the argument that were set last for `id` since the last erase. -/
def lastSet : List HandlerCall → Int → Option (Word × Word)
  | [], _ => none
  | .setHandler intid handler arg :: calls, id =>
    if intid = id then some (handler, arg) else lastSet calls id
  | .eraseHandlers :: _, _ => none
  | .getHandler _ _ :: calls, id => lastSet calls id
  | .getHandlerParam _ _ :: calls, id => lastSet calls id

/-- The handler of `id`, as the calls say. -/
def handlerOf (calls : List HandlerCall) (id : Int) : Word :=
  if 0 ≤ id ∧ id < maxInts then ((lastSet calls id).map Prod.fst).getD 0 else 0

/-- A call is right: it accessed the arrays inside of their bounds, its result is what the calls
    before it say, and it changed no other id. -/
structure HandlerCallRight (arrays : HandlerArrays) (s : HandlerState) (call : HandlerCall)
    (s' : HandlerState) : Prop where
  inside : ∀ i ∈ s'.table.accessed, 0 ≤ i ∧ i < maxInts
  handler : ∀ id result, call = .getHandler id result → result = handlerOf s.history id
  param : ∀ id result, call = .getHandlerParam id result → handlerOf s.history id ≠ 0 →
    lastSet s.history id = some (handlerOf s.history id, result)
  others : ∀ id handler arg, call = .setHandler id handler arg → ∀ k, 0 ≤ k → k < maxInts → k ≠ id →
    s'.table.entry arrays.handlers k = s.table.entry arrays.handlers k ∧
      s'.table.entry arrays.handlerParams k = s.table.entry arrays.handlerParams k

/-- The call is not about the id `MAX_INTS`. -/
def NotMaxInts (_ : HandlerState) (call : HandlerCall) (_ : HandlerState) : Prop :=
  call.intid ≠ some maxInts

/-! ## The two arrays -/

section Arrays

variable {arrays : HandlerArrays} {t : HandlerTable} {base : Nat} {i k : Int} {p : Word}

theorem HandlerTable.entry_store_same : (t.store base i p).entry base i = p :=
  load64_store64_same ..

theorem HandlerTable.entry_store_ne (hi : 0 ≤ i) (hk : 0 ≤ k) (hne : k ≠ i) :
    (t.store base i p).entry base k = t.entry base k :=
  load64_store64_disjoint (by omega)

/-- A store to an entry of `handlers` keeps `handler_params`. -/
theorem HandlerTable.param_store (hi : i < maxInts) (hk : k < maxInts) :
    (t.store arrays.handlers i p).entry arrays.handlerParams k
      = t.entry arrays.handlerParams k := by
  have hapart := arrays.apart
  unfold maxInts at hi hk
  exact load64_store64_disjoint (by omega)

/-- A store to an entry of `handler_params` keeps `handlers`. -/
theorem HandlerTable.handler_store (hi : i < maxInts) (hk : k < maxInts) :
    (t.store arrays.handlerParams i p).entry arrays.handlers k = t.entry arrays.handlers k := by
  have hapart := arrays.apart
  unfold maxInts at hi hk
  exact load64_store64_disjoint (by omega)

/-- **Setting a handler** changes the two entries of its id. -/
theorem gicRedistributorSetHandler_entry (handler arg : Word) (hi : 0 ≤ i) (hlt : i < maxInts)
    (hk : 0 ≤ k) (hklt : k < maxInts) :
    (gicRedistributorSetHandler arrays t i handler arg).entry arrays.handlers k
      = (if i = k then handler else t.entry arrays.handlers k) ∧
    (gicRedistributorSetHandler arrays t i handler arg).entry arrays.handlerParams k
      = if i = k then arg else t.entry arrays.handlerParams k := by
  rw [gicRedistributorSetHandler, if_neg (by omega), HandlerTable.handler_store hlt hklt]
  by_cases hik : i = k
  · subst hik
    rw [if_pos rfl, if_pos rfl]
    exact ⟨HandlerTable.entry_store_same, HandlerTable.entry_store_same⟩
  · rw [if_neg hik, if_neg hik, HandlerTable.entry_store_ne hi hk (Ne.symm hik),
      HandlerTable.entry_store_ne hi hk (Ne.symm hik), HandlerTable.param_store hlt hklt]
    exact ⟨rfl, rfl⟩

/-- **Erasing** clears the entries of `handlers` that are left, and keeps `handler_params`. -/
theorem eraseHandlersLoop_spec : ∀ (n i : Nat) (t : HandlerTable), (i : Int) + n = maxInts →
    (∀ k, 0 ≤ k → k < maxInts → (eraseHandlersLoop arrays n i t).entry arrays.handlers k
      = if (i : Int) ≤ k then 0 else t.entry arrays.handlers k) ∧
    (∀ k, k < maxInts → (eraseHandlersLoop arrays n i t).entry arrays.handlerParams k
      = t.entry arrays.handlerParams k) ∧
    ∀ j ∈ (eraseHandlersLoop arrays n i t).accessed,
      j ∈ t.accessed ∨ ((i : Int) ≤ j ∧ j < maxInts) := by
  intro n
  induction n with
  | zero =>
    intro i t hend
    refine ⟨fun k _ hk => ?_, fun k _ => rfl, fun j hj => Or.inl hj⟩
    rw [eraseHandlersLoop, if_neg (by omega)]
  | succ n ih =>
    intro i t hend
    obtain ⟨hhandlers, hparams, haccessed⟩ :=
      ih (i + 1) (t.store arrays.handlers i 0) (by omega)
    rw [eraseHandlersLoop]
    refine ⟨fun k hk hlt => ?_, fun k hk => ?_, fun j hj => ?_⟩
    · rw [hhandlers k hk hlt]
      by_cases hik : (i : Int) = k
      · subst hik
        rw [if_neg (by omega), if_pos (Int.le_refl _), HandlerTable.entry_store_same]
      · rw [HandlerTable.entry_store_ne (by omega) hk (Ne.symm hik)]
        by_cases hle : (i : Int) ≤ k
        · rw [if_pos (by omega), if_pos hle]
        · rw [if_neg (by omega), if_neg hle]
    · rw [hparams k hk, HandlerTable.param_store (by omega) hk]
    · rcases haccessed j hj with hj | hj
      · rcases List.mem_cons.mp hj with rfl | hj
        · exact Or.inr (by omega)
        · exact Or.inl hj
      · exact Or.inr (by omega)

end Arrays

/-! ## The invariant -/

/-- The arrays hold what the calls say, and no access was out of bounds. -/
structure HandlersInv (arrays : HandlerArrays) (s : HandlerState) : Prop where
  inside : ∀ i ∈ s.table.accessed, 0 ≤ i ∧ i < maxInts
  handlers : ∀ i, 0 ≤ i → i < maxInts → s.table.entry arrays.handlers i = handlerOf s.history i
  params : ∀ i, 0 ≤ i → i < maxInts → handlerOf s.history i ≠ 0 →
    lastSet s.history i = some (handlerOf s.history i, s.table.entry arrays.handlerParams i)

theorem handlerOf_of_range {calls : List HandlerCall} {i : Int} (hi : 0 ≤ i) (hlt : i < maxInts) :
    handlerOf calls i = ((lastSet calls i).map Prod.fst).getD 0 := if_pos ⟨hi, hlt⟩

theorem handlerOf_of_not_range {calls : List HandlerCall} {i : Int}
    (h : i < 0 ∨ maxInts ≤ i) : handlerOf calls i = 0 := if_neg (by omega)

section Inv

variable {arrays : HandlerArrays} {s s' : HandlerState} {call : HandlerCall}

theorem HandlersInv.start (h : (handlerMachine arrays).start s) : HandlersInv arrays s := by
  obtain ⟨hhistory, haccessed, hzero⟩ := h
  constructor
  · rw [haccessed]
    exact fun i hi => absurd hi List.not_mem_nil
  · intro i hi hlt
    rw [(hzero i hi hlt).1, hhistory, handlerOf_of_range hi hlt]
    rfl
  · intro i hi hlt hne
    rw [hhistory, handlerOf_of_range hi hlt] at hne
    exact absurd rfl hne

/-- A call that changed no entry that counts keeps the invariant. -/
theorem HandlersInv.unchanged (h : HandlersInv arrays s)
    (hinside : ∀ i ∈ s'.table.accessed, 0 ≤ i ∧ i < maxInts)
    (hmem : s'.table.mem = s.table.mem)
    (hcalls : ∀ k, 0 ≤ k → k < maxInts → lastSet s'.history k = lastSet s.history k) :
    HandlersInv arrays s' := by
  have hentry : ∀ base k, s'.table.entry base k = s.table.entry base k := by
    intro base k
    rw [HandlerTable.entry, hmem, HandlerTable.entry]
  have hof : ∀ k, 0 ≤ k → k < maxInts → handlerOf s'.history k = handlerOf s.history k := by
    intro k hk hlt
    rw [handlerOf_of_range hk hlt, handlerOf_of_range hk hlt, hcalls k hk hlt]
  constructor
  · exact hinside
  · intro k hk hlt
    rw [hentry, hof k hk hlt, h.handlers k hk hlt]
  · intro k hk hlt hne
    rw [hof k hk hlt] at hne
    rw [hof k hk hlt, hentry, hcalls k hk hlt, h.params k hk hlt hne]

/-- A read keeps the invariant. -/
theorem HandlersInv.get {id : Int} {result : Word} {base : Nat} (h : HandlersInv arrays s)
    (hid : id ≠ maxInts)
    (hres : (if id < 0 ∨ maxInts < id then (0, s.table) else s.table.load base id)
      = (result, s'.table))
    (hcalls : ∀ k, lastSet s'.history k = lastSet s.history k) : HandlersInv arrays s' := by
  split at hres
  · obtain ⟨-, htable⟩ := Prod.mk.inj hres
    exact h.unchanged (htable ▸ h.inside) (htable ▸ rfl) fun k _ _ => hcalls k
  · obtain ⟨-, htable⟩ := Prod.mk.inj hres
    refine h.unchanged (fun i hi => ?_) (htable ▸ rfl) fun k _ _ => hcalls k
    rw [← htable] at hi
    rcases List.mem_cons.mp hi with rfl | hi
    · omega
    · exact h.inside i hi

theorem HandlersInv.set {id : Int} {handler arg : Word} (h : HandlersInv arrays s)
    (hid : id ≠ maxInts) (hhistory : s'.history = .setHandler id handler arg :: s.history)
    (htable : s'.table = gicRedistributorSetHandler arrays s.table id handler arg) :
    HandlersInv arrays s' := by
  by_cases hout : id < 0 ∨ maxInts < id
  · rw [gicRedistributorSetHandler, if_pos hout] at htable
    refine h.unchanged (htable ▸ h.inside) (by rw [htable]) fun k hk hlt => ?_
    rw [hhistory, lastSet, if_neg (by omega)]
  have hentry : ∀ k, 0 ≤ k → k < maxInts →
      s'.table.entry arrays.handlers k
        = (if id = k then handler else s.table.entry arrays.handlers k) ∧
      s'.table.entry arrays.handlerParams k
        = if id = k then arg else s.table.entry arrays.handlerParams k := by
    intro k hk hlt
    rw [htable]
    exact gicRedistributorSetHandler_entry handler arg (by omega) (by omega) hk hlt
  constructor
  · intro i hi
    rw [htable, gicRedistributorSetHandler, if_neg hout] at hi
    rcases List.mem_cons.mp hi with rfl | hi
    · omega
    · rcases List.mem_cons.mp hi with rfl | hi
      · omega
      · exact h.inside i hi
  · intro k hk hlt
    rw [(hentry k hk hlt).1, handlerOf_of_range hk hlt, hhistory, lastSet]
    by_cases hik : id = k
    · rw [if_pos hik, if_pos hik]
      rfl
    · rw [if_neg hik, if_neg hik, h.handlers k hk hlt, handlerOf_of_range hk hlt]
  · intro k hk hlt hne
    rw [(hentry k hk hlt).2]
    rw [handlerOf_of_range hk hlt, hhistory, lastSet] at hne ⊢
    by_cases hik : id = k
    · rw [if_pos hik, if_pos hik]
      rfl
    · rw [if_neg hik] at hne ⊢
      rw [if_neg hik, ← handlerOf_of_range hk hlt]
      rw [← handlerOf_of_range hk hlt] at hne
      exact h.params k hk hlt hne

theorem HandlersInv.erase (h : HandlersInv arrays s)
    (hhistory : s'.history = .eraseHandlers :: s.history)
    (htable : s'.table = gicRedistributorEraseHandlers arrays s.table) : HandlersInv arrays s' := by
  have hloop := @eraseHandlersLoop_spec arrays maxInts.toNat 0 s.table (by decide)
  rw [gicRedistributorEraseHandlers] at htable
  rw [← htable] at hloop
  obtain ⟨hhandlers, -, haccessed⟩ := hloop
  have hof : ∀ k, handlerOf s'.history k = 0 := by
    intro k
    rw [handlerOf, hhistory, lastSet]
    split <;> rfl
  constructor
  · intro i hi
    exact (haccessed i hi).elim (h.inside i) id
  · intro k hk hlt
    rw [hhandlers k hk hlt, if_pos (show ((0 : Nat) : Int) ≤ k from hk), hof]
  · exact fun k _ _ hne => absurd (hof k) hne

/-- **Every call with another id than `MAX_INTS` keeps the invariant.** -/
theorem HandlersInv.step (h : HandlersInv arrays s) (hstep : (handlerMachine arrays).step s call s')
    (hid : NotMaxInts s call s') : HandlersInv arrays s' := by
  obtain ⟨hhistory, hcall⟩ := hstep
  cases call with
  | setHandler id handler arg => exact h.set (fun heq => hid (congrArg some heq)) hhistory hcall
  | eraseHandlers => exact h.erase hhistory hcall
  | getHandler id result =>
    exact h.get (fun heq => hid (congrArg some heq)) hcall fun k => by rw [hhistory, lastSet]
  | getHandlerParam id result =>
    exact h.get (fun heq => hid (congrArg some heq)) hcall fun k => by rw [hhistory, lastSet]

/-- What a call of `get_handler` with another id returns. -/
theorem HandlersInv.handler {id : Int} {result : Word} (h : HandlersInv arrays s)
    (hid : id ≠ maxInts)
    (hres : gicRedistributorGetHandler arrays s.table id = (result, s'.table)) :
    result = handlerOf s.history id := by
  rw [gicRedistributorGetHandler] at hres
  split at hres
  · rw [handlerOf_of_not_range (by omega)]
    exact (Prod.mk.inj hres).1.symm
  · rw [← h.handlers id (by omega) (by omega)]
    exact (Prod.mk.inj hres).1.symm

/-- What a call of `get_handler_param` returns while there is a handler. -/
theorem HandlersInv.param {id : Int} {result : Word} (h : HandlersInv arrays s)
    (hid : id ≠ maxInts)
    (hres : gicRedistributorGetHandlerParam arrays s.table id = (result, s'.table))
    (hne : handlerOf s.history id ≠ 0) :
    lastSet s.history id = some (handlerOf s.history id, result) := by
  rw [gicRedistributorGetHandlerParam] at hres
  split at hres
  · exact absurd (handlerOf_of_not_range (by omega)) hne
  · rw [h.params id (by omega) (by omega) hne, (Prod.mk.inj hres).1.symm]

/-- The guards let the id `MAX_INTS` pass, and the access is recorded. -/
theorem get_maxInts_accessed {t t' : HandlerTable} {base : Nat} {result : Word}
    (hres : (if maxInts < 0 ∨ maxInts < maxInts then (0, t) else t.load base maxInts)
      = (result, t')) : maxInts ∈ t'.accessed := by
  rw [if_neg (by decide)] at hres
  rw [← (Prod.mk.inj hres).2]
  exact List.mem_cons_self

theorem set_maxInts_accessed (t : HandlerTable) (handler arg : Word) :
    maxInts ∈ (gicRedistributorSetHandler arrays t maxInts handler arg).accessed := by
  rw [gicRedistributorSetHandler, if_neg (by decide)]
  exact List.mem_cons_self

/-- **A call is right** exactly if its id is not `MAX_INTS`. -/
theorem HandlersInv.right_iff (h : HandlersInv arrays s)
    (hstep : (handlerMachine arrays).step s call s') :
    HandlerCallRight arrays s call s' ↔ NotMaxInts s call s' := by
  constructor
  · intro hright hid
    obtain ⟨-, hcall⟩ := hstep
    have hin : maxInts ∈ s'.table.accessed := by
      cases call with
      | setHandler id handler arg =>
        obtain rfl := Option.some.inj hid
        rw [show s'.table = _ from hcall]
        exact set_maxInts_accessed ..
      | eraseHandlers => cases hid
      | getHandler id result =>
        obtain rfl := Option.some.inj hid
        exact get_maxInts_accessed hcall
      | getHandlerParam id result =>
        obtain rfl := Option.some.inj hid
        exact get_maxInts_accessed hcall
    exact absurd (hright.inside maxInts hin).2 (Int.lt_irrefl _)
  · intro hid
    have hkeep := h.step hstep hid
    obtain ⟨-, hcall⟩ := hstep
    constructor
    · exact hkeep.inside
    · rintro id result rfl
      exact h.handler (fun heq => hid (congrArg some heq)) hcall
    · rintro id result rfl
      exact h.param (fun heq => hid (congrArg some heq)) hcall
    · rintro id handler arg rfl k hk hlt hne
      rw [show s'.table = gicRedistributorSetHandler arrays s.table id handler arg from hcall]
      by_cases hout : id < 0 ∨ maxInts < id
      · rw [gicRedistributorSetHandler, if_pos hout]
        exact ⟨rfl, rfl⟩
      · have hrange : id ≠ maxInts := fun heq => hid (congrArg some heq)
        have hentry := @gicRedistributorSetHandler_entry arrays s.table id k handler arg
          (by omega) (by omega) hk hlt
        rwa [if_neg (Ne.symm hne), if_neg (Ne.symm hne)] at hentry

end Inv

/-- **The handler table is a map.**  In every run of the interface, with any ids and wherever the
    arrays are, the calls are right if and only if none is about the id `MAX_INTS`. -/
theorem handler_table_iff {arrays : HandlerArrays} {s u : HandlerState}
    {tr : List (HandlerState × HandlerCall × HandlerState)} (hs : (handlerMachine arrays).start s)
    (hr : (handlerMachine arrays).Run s tr u) :
    (∀ a call b, (a, call, b) ∈ tr → HandlerCallRight arrays a call b) ↔
      ∀ a call b, (a, call, b) ∈ tr → NotMaxInts a call b :=
  hr.forall_iff_of_invariant (fun _ _ _ h hstep => h.right_iff hstep)
    (fun _ _ _ h hstep hid => h.step hstep hid) (HandlersInv.start hs)

/-- `handler_params` right behind `handlers`. -/
def neighbours : HandlerArrays := ⟨0x40010000, 0x40012000, Or.inl (by decide)⟩

/-- The table at the start. -/
def noHandlers : HandlerState := ⟨⟨fun _ => 0, []⟩, []⟩

theorem noHandlers_start (arrays : HandlerArrays) : (handlerMachine arrays).start noHandlers :=
  ⟨rfl, rfl, fun _ _ _ => ⟨load64_eq_zero fun _ _ => rfl, load64_eq_zero fun _ _ => rfl⟩⟩

/-- The state after a handler is set. -/
def HandlerState.set (arrays : HandlerArrays) (s : HandlerState) (intid : Int)
    (handler arg : Word) : HandlerState :=
  ⟨gicRedistributorSetHandler arrays s.table intid handler arg,
    .setHandler intid handler arg :: s.history⟩

theorem HandlerState.set_step (arrays : HandlerArrays) (s : HandlerState) (intid : Int)
    (handler arg : Word) :
    (handlerMachine arrays).step s (.setHandler intid handler arg) (s.set arrays intid handler arg) :=
  ⟨rfl, rfl⟩

/-- The timer's handler, as the scheduler sets it. -/
theorem handler_table_timer : HandlerCallRight neighbours noHandlers
    (.setHandler 30 0x40080000 0) (noHandlers.set neighbours 30 0x40080000 0) := by
  have hrun : (handlerMachine neighbours).Run noHandlers
      [(noHandlers, .setHandler 30 0x40080000 0, noHandlers.set neighbours 30 0x40080000 0)]
      (noHandlers.set neighbours 30 0x40080000 0) := .cons (HandlerState.set_step ..) (.nil _)
  refine (handler_table_iff (noHandlers_start neighbours) hrun).mpr ?_ _ _ _ List.mem_cons_self
  intro a call b hm
  obtain ⟨-, hm⟩ := Prod.mk.inj (List.mem_singleton.mp hm)
  obtain ⟨rfl, -⟩ := Prod.mk.inj hm
  exact fun heq => absurd (Option.some.inj heq) (by decide)

/-- A handler for the id 1024 is an access behind both arrays.  With the arrays next to each other it
    becomes the argument of interrupt 0, whose own argument was 1. -/
theorem handler_table_overrun :
    (handlerMachine neighbours).Run noHandlers
      [(noHandlers, .setHandler 0 0x40080000 1, noHandlers.set neighbours 0 0x40080000 1),
        (noHandlers.set neighbours 0 0x40080000 1, .setHandler 1024 0x40090000 2,
          (noHandlers.set neighbours 0 0x40080000 1).set neighbours 1024 0x40090000 2)]
      ((noHandlers.set neighbours 0 0x40080000 1).set neighbours 1024 0x40090000 2) ∧
    (gicRedistributorGetHandlerParam neighbours ((noHandlers.set neighbours 0 0x40080000 1).set
      neighbours 1024 0x40090000 2).table 0).1 = 0x40090000 ∧
    ¬ HandlerCallRight neighbours (noHandlers.set neighbours 0 0x40080000 1)
      (.setHandler 1024 0x40090000 2)
      ((noHandlers.set neighbours 0 0x40080000 1).set neighbours 1024 0x40090000 2) := by
  refine ⟨.cons (HandlerState.set_step ..) (.cons (HandlerState.set_step ..) (.nil _)),
    by decide +kernel, fun hright => ?_⟩
  have haccess := hright.inside 1024 List.mem_cons_self
  exact absurd haccess.2 (by decide)

end TinyKernel
