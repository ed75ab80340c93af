/-
  Files in memory, `kernel/fs/ram_fs.c`.

  A file has one buffer of 4096 bytes and one length, `content_fill`; every inode that is open on
  it has a position of its own.  `ramfs_get` moves its position up to the length, `ramfs_put` up to
  the end of the buffer, and `ramfs_put` adds one to the length EVERY time, also when it stores to
  a byte that is already there.

  `ramFsMachine` creates files, opens them again, and reads and writes through all of the inodes
  in any order.  Each file carries a ghost, the byte string it ought to be (`reference`), to which
  `referencePut` does what a put at that position should do.  As long as every put is at the end
  of its file the two agree (`RamInv`); the first put before the end makes `content_fill` one more
  than the length, and from then on `ramfs_get` delivers bytes that were never put.

  The condition of the equivalence is one on the state before a put, `PutsAtEnd`: the position of
  the inode is the length of the file, or the buffer is full and nothing is stored.  A get needs
  none, because it goes by `content_fill`, which is right as long as every put so far was.
  `RamInv.get` and `RamInv.put` are their step lemmas; a put through one inode leaves the positions
  of the others inside the file, since files only grow (`InodeInside.grow`).
-/
import TinyKernel.Lib.Machine
import TinyKernel.Lib.Bytes
import TinyKernel.Lib.CInt

namespace TinyKernel

/-! ## The source -/

/-- `RAMFILE_STARTSIZE`. -/
def ramfileStartsize : Nat := 4096

/-- `struct ram_file`, the fields that reading and writing use; `content` is the buffer. -/
structure RamFile where
  content : Mem
  contentAlloc : Int
  contentFill : Int

/-- `struct ram_inode`, with the number of the file in place of the pointer to it. -/
structure RamInode where
  ramFile : Nat
  position : Int
  deriving Repr, DecidableEq

/-- The file that `ramfs_create_internal` sets up; `content` is what the buffer from `kalloc`
    holds. -/
def ramfsCreateInternal (content : Mem) : RamFile where
  content := content
  contentAlloc := ramfileStartsize
  contentFill := 0

/-- `ramfs_allocate_inode`. -/
def ramfsAllocateInode (ramFile : Nat) : RamInode := ⟨ramFile, 0⟩

/-- `ramfs_get`: `some c` is the result 1 with `*ptr = c`, `none` is the result 0.  A position is
    never negative. -/
def ramfsGet (file : RamFile) (inode : RamInode) : Option Byte × RamInode :=
  if inode.position < file.contentFill then
    (some (file.content inode.position.toNat), { inode with position := inode.position + 1 })
  else (none, inode)

/-- `ramfs_put`. -/
def ramfsPut (file : RamFile) (inode : RamInode) (c : Byte) :
    Except Fault (Int × RamFile × RamInode) :=
  if file.contentAlloc ≤ inode.position then .ok (0, file, inode)
  else if 2147483647 ≤ file.contentFill then .error .signedOverflow
  else .ok (1,
    { file with content := Function.update file.content inode.position.toNat c
                contentFill := file.contentFill + 1 },
    { inode with position := inode.position + 1 })

/-! ## The reference -/

/-- A put at position `p` of a byte string: it overwrites, or appends at the end. -/
def referencePut (reference : List Byte) (p : Nat) (c : Byte) : List Byte :=
  if p < reference.length then reference.set p c else reference ++ [c]

/-- A file and the byte string it ought to be. -/
structure RamEntry where
  file : RamFile
  reference : List Byte

/-- The files and the inodes open on them. -/
structure RamState where
  files : List RamEntry
  inodes : List RamInode

inductive RamEvent
  /-- `ramfs_create_internal`: a new file, and an inode on it. -/
  | create (content : Mem)
  /-- `ramfs_open_internal` finds the file and returns a new inode on it. -/
  | open (ramFile : Nat)
  /-- `ramfs_get` through the inode with number `i`, with its result. -/
  | get (i : Nat) (result : Option Byte)
  /-- `ramfs_put` through the inode with number `i`, with its result. -/
  | put (i : Nat) (c : Byte) (result : Int)

/-- One call. -/
def RamStep (st : RamState) : RamEvent → RamState → Prop
  | .create content, st' => st' =
      ⟨st.files ++ [⟨ramfsCreateInternal content, []⟩],
        st.inodes ++ [ramfsAllocateInode st.files.length]⟩
  | .open ramFile, st' => ramFile < st.files.length ∧
      st' = { st with inodes := st.inodes ++ [ramfsAllocateInode ramFile] }
  | .get i result, st' => ∃ inode f inode', st.inodes[i]? = some inode ∧
      st.files[inode.ramFile]? = some f ∧ ramfsGet f.file inode = (result, inode') ∧
      st' = { st with inodes := st.inodes.set i inode' }
  | .put i c result, st' => ∃ inode f file inode', st.inodes[i]? = some inode ∧
      st.files[inode.ramFile]? = some f ∧
      ramfsPut f.file inode c = .ok (result, file, inode') ∧
      st' =
        ⟨st.files.set inode.ramFile ⟨file, if result = 1
            then referencePut f.reference inode.position.toNat c else f.reference⟩,
          st.inodes.set i inode'⟩

/-- Files in memory. -/
def ramFsMachine : Machine RamState RamEvent where
  start st := st = ⟨[], []⟩
  step := RamStep

/-! ## The invariant -/

/-- The file holds its reference. -/
structure FileHolds (f : RamEntry) : Prop where
  alloc : f.file.contentAlloc = 4096
  fill : f.file.contentFill = (f.reference.length : Int)
  small : f.reference.length ≤ 4096
  bytes : ∀ p c, f.reference[p]? = some c → f.file.content p = c

/-- The inode stands somewhere in its file, or at the end of it. -/
def InodeInside (files : List RamEntry) (inode : RamInode) : Prop :=
  ∃ f p, files[inode.ramFile]? = some f ∧ inode.position = (p : Nat) ∧ p ≤ f.reference.length

structure RamInv (st : RamState) : Prop where
  files : ∀ f ∈ st.files, FileHolds f
  inodes : ∀ inode ∈ st.inodes, InodeInside st.files inode

/-- A call that succeeds moves its inode by one. -/
def Advances (st : RamState) (i : Nat) (success : Prop) (st' : RamState) : Prop :=
  ∀ inode, st.inodes[i]? = some inode → success →
    st'.inodes[i]? = some { inode with position := inode.position + 1 }

/-- The results of a call are those of the reference file, and the lengths agree after it. -/
structure AgreesWithReference (st : RamState) (e : RamEvent) (st' : RamState) : Prop where
  get : ∀ i result, e = .get i result → (∃ inode f p, st.inodes[i]? = some inode ∧
    st.files[inode.ramFile]? = some f ∧ inode.position = (p : Nat) ∧ result = f.reference[p]?) ∧
    Advances st i (result ≠ none) st'
  put : ∀ i c result, e = .put i c result → (∃ inode, st.inodes[i]? = some inode ∧
    result = if inode.position < 4096 then 1 else 0) ∧ Advances st i (result = 1) st'
  /-- A put that is refused changes nothing. -/
  refused : ∀ i c result, e = .put i c result → result ≠ 1 → st' = st
  fill : ∀ f ∈ st'.files, f.file.contentFill = (f.reference.length : Int) ∧
    f.file.contentFill ≤ f.file.contentAlloc

/-- No put stores before the end of its file. -/
def PutsAtEnd (st : RamState) (e : RamEvent) : Prop :=
  ∀ i c result, e = .put i c result → ∀ inode f, st.inodes[i]? = some inode →
    st.files[inode.ramFile]? = some f → inode.position < f.file.contentAlloc →
    f.file.contentFill ≤ inode.position

variable {st st' : RamState}

/-- `ramfs_get` on a file that holds its reference. -/
theorem FileHolds.get {f : RamEntry} (h : FileHolds f) {inode : RamInode} {p : Nat}
    (hp : inode.position = (p : Nat)) :
    ramfsGet f.file inode = (f.reference[p]?,
      if p < f.reference.length then { inode with position := inode.position + 1 } else inode) := by
  rw [ramfsGet, h.fill, hp]
  by_cases hlt : p < f.reference.length
  · have hbyte := h.bytes p _ (List.getElem?_eq_getElem hlt)
    rw [if_pos (by omega), if_pos hlt, List.getElem?_eq_getElem hlt, Int.toNat_natCast, hbyte]
  · rw [if_neg (by omega), if_neg hlt, List.getElem?_eq_none (by omega)]

/-- `ramfs_put` at the end of the file. -/
theorem FileHolds.put_end {f : RamEntry} (h : FileHolds f) {c : Byte}
    (hroom : f.reference.length < 4096) :
    FileHolds ⟨{ f.file with
        content := Function.update f.file.content f.reference.length c
        contentFill := f.file.contentFill + 1 }, referencePut f.reference f.reference.length c⟩ := by
  have href : referencePut f.reference f.reference.length c = f.reference ++ [c] :=
    if_neg (Nat.lt_irrefl _)
  rw [href]
  refine ⟨h.alloc, ?_, ?_, ?_⟩
  · simp only [List.length_append, List.length_singleton, h.fill]
    rfl
  · simp only [List.length_append, List.length_singleton]
    omega
  · intro p b hb
    rcases Nat.lt_or_ge p f.reference.length with hlt | hge
    · rw [List.getElem?_append_left hlt] at hb
      show Function.update f.file.content f.reference.length c p = b
      rw [Function.update_of_ne (by omega)]
      exact h.bytes p b hb
    · rw [List.getElem?_append_right hge] at hb
      have hlast : p - f.reference.length = 0 := by
        have := (List.getElem?_eq_some_iff.mp hb).1
        simp only [List.length_singleton] at this
        omega
      rw [hlast, List.getElem?_cons_zero, Option.some.injEq] at hb
      rw [show p = f.reference.length by omega, ← hb]
      exact Function.update_self ..

/-- An inode stays inside its file when files are added .. -/
theorem InodeInside.append {files : List RamEntry} {inode : RamInode}
    (h : InodeInside files inode) (more : List RamEntry) : InodeInside (files ++ more) inode := by
  obtain ⟨f, p, hf, hp, hle⟩ := h
  refine ⟨f, p, ?_, hp, hle⟩
  rw [List.getElem?_append_left (List.getElem?_eq_some_iff.mp hf).1]
  exact hf

/-- .. and when a file becomes longer. -/
theorem InodeInside.grow {files : List RamEntry} {inode : RamInode} (h : InodeInside files inode)
    {k : Nat} {f f' : RamEntry} (hk : files[k]? = some f)
    (hlen : f.reference.length ≤ f'.reference.length) : InodeInside (files.set k f') inode := by
  obtain ⟨g, p, hg, hp, hle⟩ := h
  by_cases hkk : k = inode.ramFile
  · subst hkk
    obtain rfl := Option.some.inj (hk.symm.trans hg)
    refine ⟨f', p, ?_, hp, Nat.le_trans hle hlen⟩
    rw [List.getElem?_set_self (List.getElem?_eq_some_iff.mp hk).1]
  · refine ⟨g, p, ?_, hp, hle⟩
    rw [List.getElem?_set_ne hkk]
    exact hg

/-- In a state that keeps the invariant the lengths agree. -/
theorem RamInv.fill (h : RamInv st) : ∀ f ∈ st.files,
    f.file.contentFill = (f.reference.length : Int) ∧ f.file.contentFill ≤ f.file.contentAlloc := by
  intro f hf
  have hholds := h.files f hf
  have hsmall := hholds.small
  refine ⟨hholds.fill, ?_⟩
  rw [hholds.fill, hholds.alloc]
  omega

/-- A call on one inode leaves the invariant, when its file and its position are all right. -/
theorem RamInv.set (h : RamInv st) {i k : Nat} {f f' : RamEntry} {inode' : RamInode}
    (hk : st.files[k]? = some f) (hlen : f.reference.length ≤ f'.reference.length)
    (hf' : FileHolds f') (hinode : InodeInside (st.files.set k f') inode') :
    RamInv ⟨st.files.set k f', st.inodes.set i inode'⟩ where
  files := by
    intro g hg
    rcases List.mem_or_eq_of_mem_set hg with hold | rfl
    · exact h.files g hold
    · exact hf'
  inodes := by
    intro inode hm
    rcases List.mem_or_eq_of_mem_set hm with hold | rfl
    · exact (h.inodes inode hold).grow hk hlen
    · exact hinode

/-- `ramfs_create_internal` and opening a file. -/
theorem RamInv.create (h : RamInv st) (content : Mem)
    (hstep : RamStep st (.create content) st') : RamInv st' := by
  obtain rfl := hstep
  constructor
  · intro f hf
    rcases List.mem_append.mp hf with hold | hnew
    · exact h.files f hold
    · obtain rfl := List.mem_singleton.mp hnew
      exact ⟨rfl, rfl, Nat.zero_le _, fun p c hc => absurd hc (by simp)⟩
  · intro inode hm
    rcases List.mem_append.mp hm with hold | hnew
    · exact (h.inodes inode hold).append _
    · obtain rfl := List.mem_singleton.mp hnew
      refine ⟨⟨ramfsCreateInternal content, []⟩, 0, ?_, rfl, Nat.le_refl _⟩
      exact List.getElem?_concat_length

theorem RamInv.open (h : RamInv st) {ramFile : Nat} (hstep : RamStep st (.open ramFile) st') :
    RamInv st' := by
  obtain ⟨hlt, rfl⟩ := hstep
  refine ⟨h.files, fun inode hm => ?_⟩
  rcases List.mem_append.mp hm with hold | hnew
  · exact h.inodes inode hold
  · obtain rfl := List.mem_singleton.mp hnew
    exact ⟨st.files[ramFile], 0, List.getElem?_eq_getElem hlt, rfl, Nat.zero_le _⟩

/-- **`ramfs_get`** answers as the reference does. -/
theorem RamInv.get (h : RamInv st) {i : Nat} {result : Option Byte}
    (hstep : RamStep st (.get i result) st') :
    RamInv st' ∧ AgreesWithReference st (.get i result) st' := by
  obtain ⟨inode, f, inode', hi, hf, hget, rfl⟩ := hstep
  obtain ⟨f', p, hf', hp, hle⟩ := h.inodes inode (List.mem_of_getElem? hi)
  obtain rfl := Option.some.inj (hf.symm.trans hf')
  rw [(h.files f (List.mem_of_getElem? hf)).get hp] at hget
  obtain ⟨rfl, rfl⟩ := Prod.mk.inj hget
  have hlt := (List.getElem?_eq_some_iff.mp hi).1
  have hinv : RamInv ⟨st.files, st.inodes.set i
      (if p < f.reference.length then { inode with position := inode.position + 1 } else inode)⟩ := by
    refine ⟨h.files, fun other hm => ?_⟩
    rcases List.mem_or_eq_of_mem_set hm with hold | rfl
    · exact h.inodes other hold
    · split
      · exact ⟨f, p + 1, hf, by simp only [hp]; rfl, by omega⟩
      · exact ⟨f, p, hf, hp, hle⟩
  refine ⟨hinv, ⟨?_, fun _ _ _ he => absurd he (by simp), fun _ _ _ he => absurd he (by simp),
    hinv.fill⟩⟩
  rintro j result he
  obtain ⟨rfl, rfl⟩ := RamEvent.get.inj he
  refine ⟨⟨inode, f, p, hi, hf, hp, rfl⟩, fun inode' hi' hsome => ?_⟩
  obtain rfl := Option.some.inj (hi.symm.trans hi')
  have hin : p < f.reference.length := by
    by_contra hge
    exact hsome (List.getElem?_eq_none (by omega))
  rw [List.getElem?_set_self hlt, if_pos hin]

/-- The condition on a put, for the inode and the file it is about. -/
theorem putsAtEnd_iff {i : Nat} {c : Byte} {result : Int} {inode : RamInode} {f : RamEntry}
    (hi : st.inodes[i]? = some inode) (hf : st.files[inode.ramFile]? = some f) :
    PutsAtEnd st (.put i c result) ↔
      (inode.position < f.file.contentAlloc → f.file.contentFill ≤ inode.position) := by
  constructor
  · exact fun hok => hok i c result rfl inode f hi hf
  · rintro hok j d r he inode' g hi' hg
    obtain ⟨rfl, rfl, rfl⟩ := RamEvent.put.inj he
    obtain rfl := Option.some.inj (hi.symm.trans hi')
    obtain rfl := Option.some.inj (hf.symm.trans hg)
    exact hok

/-- What a put does: nothing when the buffer is full, and otherwise a store, with the length one
    more. -/
theorem RamInv.put_cases (h : RamInv st) {i : Nat} {c : Byte} {result : Int}
    (hstep : RamStep st (.put i c result) st') :
    ∃ inode f p, st.inodes[i]? = some inode ∧ st.files[inode.ramFile]? = some f ∧
      inode.position = (p : Nat) ∧ p ≤ f.reference.length ∧ FileHolds f ∧
      ((4096 ≤ p ∧ result = 0 ∧
          st' = ⟨st.files.set inode.ramFile f, st.inodes.set i inode⟩) ∨
        (p < 4096 ∧ result = 1 ∧ st' =
          ⟨st.files.set inode.ramFile
              ⟨{ f.file with content := Function.update f.file.content p c
                             contentFill := f.file.contentFill + 1 }, referencePut f.reference p c⟩,
            st.inodes.set i { inode with position := inode.position + 1 }⟩)) := by
  obtain ⟨inode, f, file, inode', hi, hf, hput, rfl⟩ := hstep
  obtain ⟨f', p, hf', hp, hle⟩ := h.inodes inode (List.mem_of_getElem? hi)
  obtain rfl := Option.some.inj (hf.symm.trans hf')
  have hholds := h.files f (List.mem_of_getElem? hf)
  have hsmall := hholds.small
  refine ⟨inode, f, p, hi, hf, hp, hle, hholds, ?_⟩
  rw [ramfsPut, hholds.alloc] at hput
  by_cases hfull : (4096 : Int) ≤ inode.position
  · rw [if_pos hfull] at hput
    obtain ⟨rfl, hrest⟩ := Prod.mk.inj (Except.ok.inj hput)
    obtain ⟨rfl, rfl⟩ := Prod.mk.inj hrest
    exact Or.inl ⟨by omega, rfl, rfl⟩
  · rw [if_neg hfull, if_neg (by rw [hholds.fill]; omega)] at hput
    obtain ⟨rfl, hrest⟩ := Prod.mk.inj (Except.ok.inj hput)
    obtain ⟨rfl, rfl⟩ := Prod.mk.inj hrest
    refine Or.inr ⟨by omega, rfl, ?_⟩
    simp only [hp, Int.toNat_natCast, if_true, hholds.alloc]

/-- **`ramfs_put`** agrees with the reference exactly when it does not store before the end of the
    file. -/
theorem RamInv.put (h : RamInv st) {i : Nat} {c : Byte} {result : Int}
    (hstep : RamStep st (.put i c result) st') :
    (PutsAtEnd st (.put i c result) → RamInv st') ∧
      (AgreesWithReference st (.put i c result) st' ↔ PutsAtEnd st (.put i c result)) := by
  obtain ⟨inode, f, p, hi, hf, hp, hle, hholds, hcases⟩ := h.put_cases hstep
  have hlt := (List.getElem?_eq_some_iff.mp hi).1
  have hflt := (List.getElem?_eq_some_iff.mp hf).1
  rw [putsAtEnd_iff hi hf, hholds.alloc, hholds.fill, hp]
  rcases hcases with ⟨hfull, rfl, rfl⟩ | ⟨hroom, rfl, rfl⟩
  · have hinv := h.set (i := i) hf (Nat.le_refl _) hholds
      (InodeInside.grow ⟨f, p, hf, hp, hle⟩ hf (Nat.le_refl _))
    refine ⟨fun _ => hinv, fun _ hlow => absurd hlow (by omega), fun _ => ?_⟩
    refine ⟨fun _ _ he => absurd he (by simp), ?_, fun _ _ _ _ _ => ?_, hinv.fill⟩
    · rintro j d r he
      obtain ⟨rfl, rfl, rfl⟩ := RamEvent.put.inj he
      exact ⟨⟨inode, hi, by rw [if_neg (by omega)]⟩, fun _ _ hone => absurd hone (by decide)⟩
    · -- the file and the inode are stored back as they were
      have hfiles : st.files.set inode.ramFile f = st.files := by
        rw [← (List.getElem?_eq_some_iff.mp hf).2]
        exact List.set_getElem_self hflt
      have hinodes : st.inodes.set i inode = st.inodes := by
        rw [← (List.getElem?_eq_some_iff.mp hi).2]
        exact List.set_getElem_self hlt
      rw [hfiles, hinodes]
  · -- a store before the end makes the two lengths differ
    have hinv : p = f.reference.length → RamInv ⟨st.files.set inode.ramFile
        ⟨{ f.file with content := Function.update f.file.content p c
                       contentFill := f.file.contentFill + 1 }, referencePut f.reference p c⟩,
        st.inodes.set i { inode with position := inode.position + 1 }⟩ := by
      intro heq
      have hput := hholds.put_end (c := c) (by omega)
      have hlen : (referencePut f.reference p c).length = p + 1 := by
        rw [referencePut, if_neg (by omega), List.length_append, List.length_singleton, heq]
      rw [← heq] at hput
      refine h.set hf (by simp only [hlen]; omega) hput ?_
      exact ⟨_, p + 1, List.getElem?_set_self hflt, by simp only [hp]; rfl, by simp only [hlen]; omega⟩
    refine ⟨fun hok => hinv (by have := hok (by omega); omega), fun hagree _ => ?_, fun hok => ?_⟩
    · have hfill := (hagree.fill _ (List.mem_set hflt _)).1
      by_contra hbefore
      rw [referencePut, if_pos (by omega), List.length_set] at hfill
      simp only [hholds.fill] at hfill
      omega
    · refine ⟨fun _ _ he => absurd he (by simp), ?_, ?_,
        (hinv (by have := hok (by omega); omega)).fill⟩
      rotate_left
      · rintro j d r he hrefused
        obtain ⟨-, -, rfl⟩ := RamEvent.put.inj he
        exact absurd rfl hrefused
      rintro j d r he
      obtain ⟨rfl, rfl, rfl⟩ := RamEvent.put.inj he
      refine ⟨⟨inode, hi, by rw [if_pos (by omega)]⟩, fun inode' hi' _ => ?_⟩
      obtain rfl := Option.some.inj (hi.symm.trans hi')
      exact List.getElem?_set_self hlt

/-- One call. -/
theorem RamInv.step (h : RamInv st) {e : RamEvent} (hstep : RamStep st e st') :
    (PutsAtEnd st e → RamInv st') ∧ (AgreesWithReference st e st' ↔ PutsAtEnd st e) := by
  have hplain : RamInv st' → (∀ i result, e ≠ .get i result) → (∀ i c result, e ≠ .put i c result) →
      (PutsAtEnd st e → RamInv st') ∧ (AgreesWithReference st e st' ↔ PutsAtEnd st e) := by
    intro hinv hget hput
    refine ⟨fun _ => hinv, fun _ i c result he => absurd he (hput i c result), fun _ => ?_⟩
    exact ⟨fun i result he => absurd he (hget i result),
      fun i c result he => absurd he (hput i c result),
      fun i c result he => absurd he (hput i c result), hinv.fill⟩
  cases e with
  | create content =>
    exact hplain (h.create content hstep) (fun _ _ he => by cases he) (fun _ _ _ he => by cases he)
  | «open» ramFile =>
    exact hplain (h.open hstep) (fun _ _ he => by cases he) (fun _ _ _ he => by cases he)
  | get i result =>
    obtain ⟨hinv, hagree⟩ := h.get hstep
    exact ⟨fun _ => hinv, fun _ _ _ _ he => absurd he (by simp), fun _ => hagree⟩
  | put i c result => exact h.put hstep

/-- **Ram files over whole runs.**  Every call of a run answers as the reference files do, and
    leaves `content_fill` equal to the file's length, if and only if no put of the run stores before
    the end of its file.  `ramfs_put` adds one to `content_fill` for every byte, also for one that
    takes the place of an earlier byte; from then on the file reads longer than it is. -/
theorem ram_file_reference_iff {st st' : RamState} {tr : List (RamState × RamEvent × RamState)}
    (h0 : ramFsMachine.start st) (hr : ramFsMachine.Run st tr st') :
    (∀ a e b, (a, e, b) ∈ tr → AgreesWithReference a e b) ↔
      (∀ a e b, (a, e, b) ∈ tr → PutsAtEnd a e) := by
  have hstart : RamInv st := by
    obtain rfl := h0
    exact ⟨fun _ hf => absurd hf List.not_mem_nil, fun _ hi => absurd hi List.not_mem_nil⟩
  refine hr.forall_iff_of_invariant (I := RamInv) (Q := fun a e _ => PutsAtEnd a e) ?_ ?_ hstart
  · exact fun a e b h hstep => (h.step hstep).2
  · exact fun a e b h hstep hok => (h.step hstep).1 hok

/-- A file with two inodes, before anything was put. -/
def twoInodes : RamState := ⟨[⟨ramfsCreateInternal fun _ => 0x7f, []⟩], [⟨0, 0⟩, ⟨0, 0⟩]⟩

/-- The file after 0x61 was put at its start through the first inode. -/
def onePut : RamState :=
  ⟨[⟨⟨Function.update (fun _ => 0x7f) 0 0x61, 4096, 1⟩, [0x61]⟩], [⟨0, 1⟩, ⟨0, 0⟩]⟩

/-- The same file after the second inode has read it. -/
def onePutRead : RamState := ⟨onePut.files, [⟨0, 1⟩, ⟨0, 1⟩]⟩

/-- How a run begins: the file is created, opened again, and gets its first byte. -/
def firstPut : List (RamState × RamEvent × RamState) :=
  [(⟨[], []⟩, .create fun _ => 0x7f, ⟨twoInodes.files, [⟨0, 0⟩]⟩),
    (⟨twoInodes.files, [⟨0, 0⟩]⟩, .open 0, twoInodes), (twoInodes, .put 0 0x61 1, onePut)]

theorem firstPut_run {tr : List (RamState × RamEvent × RamState)} {st : RamState}
    (h : ramFsMachine.Run onePut tr st) :
    ramFsMachine.Run ⟨[], []⟩ (firstPut ++ tr) st :=
  .cons rfl (.cons ⟨by decide, rfl⟩ (.cons ⟨_, _, _, _, rfl, rfl, rfl, rfl⟩ h))

/-- A byte that was put at the end comes back through another inode. -/
theorem ram_file_reference_iff_first :
    ramFsMachine.Run ⟨[], []⟩ (firstPut ++ [(onePut, .get 1 (some 0x61), onePutRead)]) onePutRead ∧
      AgreesWithReference onePut (.get 1 (some 0x61)) onePutRead := by
  have hstep : RamStep onePut (.get 1 (some 0x61)) onePutRead := ⟨_, _, _, rfl, rfl, rfl, rfl⟩
  have hrun : ramFsMachine.Run ⟨[], []⟩ (firstPut ++ [(onePut, .get 1 (some 0x61), onePutRead)])
      onePutRead := firstPut_run (.cons hstep (.nil _))
  refine ⟨hrun, (ram_file_reference_iff rfl hrun).mpr ?_ _ _ _
    (List.mem_append_right _ List.mem_cons_self)⟩
  rintro a e b hm i c result rfl inode f hi hf hroom
  simp only [firstPut, List.cons_append, List.nil_append, List.mem_cons, Prod.mk.injEq,
    reduceCtorEq, false_and, and_false, List.not_mem_nil, or_false, false_or] at hm
  obtain ⟨rfl, he, -⟩ := hm
  obtain ⟨rfl, -, -⟩ := RamEvent.put.inj he
  obtain rfl := Option.some.inj hi
  obtain rfl := Option.some.inj hf
  decide

/-- A second put at the start, through the other inode, makes the file of one byte two bytes long:
    the first inode then reads 0x7f, which was never put. -/
theorem ram_file_invents_byte : ∃ a b,
    ramFsMachine.Run ⟨[], []⟩ (firstPut ++ [(onePut, .put 1 0x62 1, a),
      (a, .get 0 (some 0x7f), b)]) b ∧
    a.files.map (·.reference) = [[0x62]] ∧ ¬ AgreesWithReference a (.get 0 (some 0x7f)) b := by
  obtain ⟨a, ha⟩ : ∃ a : RamState, a = ⟨[⟨⟨Function.update (Function.update (fun _ => 0x7f) 0 0x61)
    0 0x62, 4096, 2⟩, [0x62]⟩], [⟨0, 1⟩, ⟨0, 1⟩]⟩ := ⟨_, rfl⟩
  have hput : RamStep onePut (.put 1 0x62 1) a := ha ▸ ⟨_, _, _, _, rfl, rfl, rfl, rfl⟩
  have hget : RamStep a (.get 0 (some 0x7f)) ⟨a.files, [⟨0, 2⟩, ⟨0, 1⟩]⟩ :=
    ha ▸ ⟨_, _, _, rfl, rfl, rfl, rfl⟩
  refine ⟨a, _, firstPut_run (.cons hput (.cons hget (.nil _))), by rw [ha]; rfl, fun hagree => ?_⟩
  have hfill := (hagree.fill _ (by rw [ha]; exact List.mem_cons_self)).1
  exact absurd hfill (by decide)

end TinyKernel
