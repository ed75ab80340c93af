/-
  The system call `get`: one byte of an open file.

  `exceptions_internal_get` passes the byte through a local variable that the filesystem writes on
  success only.  What an open file stands for is a list of bytes and a position (`Denotes`): for a
  ram file the part of its buffer that is filled, for a file of a FAT volume the bytes of its chain;
  the inode of a file that the volume does not have stands for nothing.

  Before the end of the file the call returns the next byte, and -1 without a file.  At the end it
  returns what the stack held (`internal_get_iff`): a byte, which is never -1.

  `Denotes` is a relation between an open file and what it stands for, the same for both
  filesystems, and it determines position and length (`Denotes.unique`).  So "before the end" is a
  property of the state, and the equivalence compares three outcomes with it: without a file
  (`internalGet_invalid`), with a next byte (`internalGet_next`), and with none, where a byte comes
  back all the same (`internalGet_byte`) and so cannot be the -1 that would say so (`byte_ne_error`).
-/
import TinyKernel.Fs.FatRead
import TinyKernel.Fs.RamFs
import TinyKernel.Mp.Job

namespace TinyKernel

/-! ## The source -/

/-- A FAT volume and the handle that `fat_load` made for it, with clusters of whole sectors. -/
structure FatVolume where
  disk : Disk
  handle : FatHandle
  sane : handle.Sane
  pos : 0 < fatGetClusterSize handle
  sectors : 512 ∣ fatGetClusterSize handle

/-- An open file: what the inode's `impl_inode` points to, by the filesystem of its `vtable`. -/
inductive OpenFile
  | fat (inode : FatInode)
  | ram (file : RamFile) (inode : RamInode)

/-- `fs_inode_get`: `some c` is the result 1 with `*ptr = c`, `none` is the result 0. -/
def fsInodeGet (rounds : Nat) (vol : FatVolume) (scratch : Mem) :
    OpenFile → Except Fault (Option Byte × OpenFile)
  | .fat inode => do
    let (c, inode) ← fatfsGet rounds vol.disk vol.handle scratch inode
    return (c, .fat inode)
  | .ram file inode =>
    let (c, inode) := ramfsGet file inode
    .ok (c, .ram file inode)

/-- `int fd = REG(0)`. -/
def fdOf (x0 : Word) : Int := toInt32 x0.toNat

/-- `exceptions_internal_get`: x0 and the open files afterwards.  `c` is the byte of the stack where
    the local variable lies; a `char` is unsigned. -/
def exceptionsInternalGet (rounds : Nat) (vol : FatVolume) (scratch : Mem) (job : Job)
    (files : Nat → OpenFile) (x0 : Word) (c : Byte) : Except Fault (Word × (Nat → OpenFile)) :=
  let inode := jobGetFile job (fdOf x0)
  if inode = 0 then .ok (-1, files)
  else do
    let (read, file) ← fsInodeGet rounds vol scratch (files inode)
    return ((read.getD c).setWidth 64, Function.update files inode file)

/-! ## What a file stands for -/

/-- The filled part of the buffer, and the position. -/
def RamDenotes (file : RamFile) (inode : RamInode) (bytes : List Byte) (pos : Nat) : Prop :=
  inode.position = (pos : Int) ∧
    bytes = (List.range (min file.contentFill file.contentAlloc).toNat).map file.content

/-- The bytes of the chain up to the size of the file, and the position. -/
def FatDenotes (vol : FatVolume) (inode : FatInode) (bytes : List Byte) (pos : Nat) : Prop :=
  ∃ entry clusters reads, FileChain vol.handle entry clusters ∧
    ReadsFile vol.disk vol.handle entry clusters ⟨inode, reads⟩ ∧ reads.length = pos ∧
    bytes = (List.range entry.filesizeBytes).map (chainByte vol.disk vol.handle clusters)

/-- The bytes and the position of an open file; none if the volume does not have the file. -/
def Denotes (vol : FatVolume) : OpenFile → Option (List Byte × Nat) → Prop
  | .ram file inode, some (bytes, pos) => RamDenotes file inode bytes pos
  | .ram _ _, none => False
  | .fat inode, some (bytes, pos) => FatDenotes vol inode bytes pos
  | .fat inode, none => inode.fat16DirEntry = none

/-- What the call ought to return for an open file: the next byte, or -1 at the end. -/
def nextByte (bytes : List Byte) (pos : Nat) : Word :=
  match bytes[pos]? with
  | some b => b.setWidth 64
  | none => -1

/-- The call returns what it ought to, whatever the stack and the cluster buffer hold. -/
structure RevealsFileData (vol : FatVolume) (job : Job) (files : Nat → OpenFile) (x0 : Word) :
    Prop where
  value : ∀ scratch c, ∃ x0' files',
    Returns (fun rounds => exceptionsInternalGet rounds vol scratch job files x0 c) (x0', files') ∧
    (jobGetFile job (fdOf x0) = 0 → x0' = -1) ∧
    (jobGetFile job (fdOf x0) ≠ 0 → ∀ bytes pos,
      Denotes vol (files (jobGetFile job (fdOf x0))) (some (bytes, pos)) → x0' = nextByte bytes pos)
  /-- Two runs that differ in the stack only. -/
  same : ∀ scratch c c' x x' f f',
    Returns (fun rounds => exceptionsInternalGet rounds vol scratch job files x0 c) (x, f) →
    Returns (fun rounds => exceptionsInternalGet rounds vol scratch job files x0 c') (x', f') →
    x = x'

variable {vol : FatVolume} {file : OpenFile} {bytes : List Byte} {pos : Nat}

/-- A byte is not -1. -/
theorem byte_ne_error (b : Byte) : (b.setWidth 64 : Word) ≠ -1 := by
  intro h
  have hval := congrArg BitVec.toNat h
  rw [BitVec.toNat_setWidth, Nat.mod_eq_of_lt (Nat.lt_of_lt_of_le b.isLt (by decide))] at hval
  have hlt := b.isLt
  rw [hval] at hlt
  exact absurd hlt (by decide)

/-- The next byte of a file is delivered. -/
theorem Denotes.get (h : Denotes vol file (some (bytes, pos))) (hlt : pos < bytes.length)
    (scratch : Mem) : ∃ file', ∀ rounds, 1 ≤ rounds →
      fsInodeGet rounds vol scratch file = .ok (bytes[pos]?, file') := by
  cases file with
  | ram file inode =>
    obtain ⟨hpos, rfl⟩ := h
    rw [List.length_map, List.length_range] at hlt
    refine ⟨.ram file { inode with position := inode.position + 1 }, fun rounds _ => ?_⟩
    rw [fsInodeGet, ramfsGet, if_pos (by omega), List.getElem?_map, List.getElem?_range hlt, hpos,
      Int.toNat_natCast]
    rfl
  | fat inode =>
    obtain ⟨entry, clusters, reads, hchain, hreads, rfl, rfl⟩ := h
    rw [List.length_map, List.length_range] at hlt
    obtain ⟨inode', hget, -⟩ := hreads.get_next vol.sane vol.pos vol.sectors hchain hlt scratch
    refine ⟨.fat inode', fun rounds hrounds => ?_⟩
    rw [fsInodeGet, hget rounds hrounds, ok_bind, List.getElem?_map, List.getElem?_range hlt]
    rfl

/-- The position and the length of a file are determined. -/
theorem Denotes.unique {bytes' : List Byte} {pos' : Nat} (h : Denotes vol file (some (bytes, pos)))
    (h' : Denotes vol file (some (bytes', pos'))) : pos = pos' ∧ bytes.length = bytes'.length := by
  cases file with
  | ram file inode =>
    obtain ⟨hpos, rfl⟩ := h
    obtain ⟨hpos', rfl⟩ := h'
    exact ⟨by omega, rfl⟩
  | fat inode =>
    obtain ⟨entry, clusters, reads, -, hreads, rfl, rfl⟩ := h
    obtain ⟨entry', clusters', reads', -, hreads', rfl, rfl⟩ := h'
    have hentry : entry = entry' := Option.some.inj (hreads.file.symm.trans hreads'.file)
    have hpos : (reads.length : Int) = reads'.length :=
      hreads.position.symm.trans hreads'.position
    rw [hentry, List.length_map, List.length_map]
    exact ⟨by omega, rfl⟩

section Call

variable {job : Job} {files : Nat → OpenFile} {x0 : Word}

/-- Without a file the call returns -1. -/
theorem internalGet_invalid (hinvalid : jobGetFile job (fdOf x0) = 0) :
    RevealsFileData vol job files x0 := by
  have hret : ∀ scratch c,
      Returns (fun rounds => exceptionsInternalGet rounds vol scratch job files x0 c) (-1, files) := by
    intro scratch c
    refine ⟨0, fun rounds _ => ?_⟩
    exact if_pos hinvalid
  constructor
  · intro scratch c
    exact ⟨-1, files, hret scratch c, fun _ => rfl, fun hvalid => absurd hinvalid hvalid⟩
  · intro scratch c c' x x' f f' hx hx'
    have h1 := (Prod.mk.inj (hx.unique (hret scratch c))).1
    have h2 := (Prod.mk.inj (hx'.unique (hret scratch c'))).1
    rw [h1, h2]

/-- Before the end the call returns the next byte. -/
theorem internalGet_next (hvalid : jobGetFile job (fdOf x0) ≠ 0)
    (hfile : Denotes vol (files (jobGetFile job (fdOf x0))) (some (bytes, pos)))
    (hlt : pos < bytes.length) : RevealsFileData vol job files x0 := by
  have hret : ∀ scratch, ∃ files', ∀ c,
      Returns (fun rounds => exceptionsInternalGet rounds vol scratch job files x0 c)
        (nextByte bytes pos, files') := by
    intro scratch
    obtain ⟨file', hget⟩ := hfile.get hlt scratch
    refine ⟨Function.update files (jobGetFile job (fdOf x0)) file', fun c => ⟨1, fun rounds hr => ?_⟩⟩
    beta_reduce
    unfold exceptionsInternalGet nextByte
    rw [if_neg hvalid, hget rounds hr, ok_bind, List.getElem?_eq_getElem hlt]
    rfl
  constructor
  · intro scratch c
    obtain ⟨files', hx⟩ := hret scratch
    refine ⟨nextByte bytes pos, files', hx c, fun h => absurd h hvalid, fun _ bytes' pos' h' => ?_⟩
    -- the same call delivers the byte of the other reading
    obtain ⟨hpos, hlen⟩ := hfile.unique h'
    obtain ⟨file1, h1⟩ := hfile.get hlt scratch
    obtain ⟨file2, h2⟩ := h'.get (by omega) scratch
    have hsame := (Prod.mk.inj (Except.ok.inj ((h1 1 (Nat.le_refl 1)).symm.trans
      (h2 1 (Nat.le_refl 1))))).1
    unfold nextByte
    rw [hsame]
  · intro scratch c c' x x' f f' hx hx'
    obtain ⟨files', hall⟩ := hret scratch
    have h1 := (Prod.mk.inj (hx.unique (hall c))).1
    have h2 := (Prod.mk.inj (hx'.unique (hall c'))).1
    rw [h1, h2]

/-- With a file the call returns a byte. -/
theorem internalGet_byte (hvalid : jobGetFile job (fdOf x0) ≠ 0) {rounds : Nat} {scratch : Mem}
    {c : Byte} {x : Word} {files' : Nat → OpenFile}
    (hret : exceptionsInternalGet rounds vol scratch job files x0 c = .ok (x, files')) :
    ∃ b : Byte, x = b.setWidth 64 := by
  unfold exceptionsInternalGet at hret
  rw [if_neg hvalid] at hret
  obtain ⟨⟨read, file⟩, -, hret⟩ := bind_eq_ok hret
  exact ⟨read.getD c, (Prod.mk.inj (Except.ok.inj hret)).1.symm⟩

/-- **The read system call.**  For every job, every descriptor in x0 and every state of the open file
    it denotes, the call reveals nothing but file data if and only if the descriptor is invalid, or
    the file exists and its position is before its end. -/
theorem internal_get_iff (vol : FatVolume) (job : Job) (files : Nat → OpenFile) (x0 : Word)
    (hopen : jobGetFile job (fdOf x0) ≠ 0 →
      ∃ d, Denotes vol (files (jobGetFile job (fdOf x0))) d) :
    RevealsFileData vol job files x0 ↔ jobGetFile job (fdOf x0) = 0 ∨
      ∃ bytes pos, Denotes vol (files (jobGetFile job (fdOf x0))) (some (bytes, pos)) ∧
        pos < bytes.length := by
  constructor
  · intro h
    by_cases hvalid : jobGetFile job (fdOf x0) = 0
    · exact Or.inl hvalid
    obtain ⟨d, hd⟩ := hopen hvalid
    obtain ⟨x, files', ⟨enough, hret⟩, -, hvalue⟩ := h.value (fun _ => 0) 0
    have hcall := hret enough (Nat.le_refl _)
    beta_reduce at hcall
    cases d with
    | none =>
      -- the entry of a missing file is `NULL`
      unfold exceptionsInternalGet at hcall
      rw [if_neg hvalid] at hcall
      generalize files (jobGetFile job (fdOf x0)) = file at hcall hd
      cases file with
      | ram file inode => exact hd.elim
      | fat inode =>
        have hnone : inode.fat16DirEntry = none := hd
        rw [fsInodeGet, fatfsGet, hnone] at hcall
        cases hcall
    | some d =>
      obtain ⟨bytes, pos⟩ := d
      refine Or.inr ⟨bytes, pos, hd, ?_⟩
      by_contra hend
      obtain ⟨b, hb⟩ := internalGet_byte hvalid hcall
      have hx := hvalue hvalid bytes pos hd
      unfold nextByte at hx
      rw [List.getElem?_eq_none (Nat.le_of_not_lt hend)] at hx
      exact byte_ne_error b (hb.symm.trans hx)
  · rintro (hinvalid | ⟨bytes, pos, hd, hlt⟩)
    · exact internalGet_invalid hinvalid
    · by_cases hvalid : jobGetFile job (fdOf x0) = 0
      · exact internalGet_invalid hvalid
      · exact internalGet_next hvalid hd hlt

end Call

/-- The volume of `smallVolume`, with its one file in cluster 2. -/
def smallFatVolume : FatVolume where
  disk := smallVolume
  handle := smallHandle [0xfff8, 0xffff, 0xffff]
  sane := smallHandle_sane _
  pos := by decide
  sectors := by decide

/-- A job with one open file, whose inode is at 8. -/
def oneFileJob : Job :=
  ⟨fun _ => 0, .running, fun _ => 0, 0, 0, 0, fun i => if i = 0 then 8 else 0, 1, 0⟩

/-- A ram file with the byte 0x41, read up to `pos`. -/
def oneByteFile (pos : Int) (_ : Nat) : OpenFile := .ram ⟨fun _ => 0x41, 4096, 1⟩ ⟨0, pos⟩

/-- Descriptor 0 at the start of its file, and the invalid descriptor 1. -/
theorem internal_get_first : RevealsFileData smallFatVolume oneFileJob (oneByteFile 0) 0 ∧
    RevealsFileData smallFatVolume oneFileJob (oneByteFile 0) 1 := by
  have hfile : Denotes smallFatVolume (oneByteFile 0 8) (some ([0x41], 0)) := ⟨rfl, rfl⟩
  have hone : jobGetFile oneFileJob (fdOf 1) = 0 := by
    rw [fdOf, toInt32_of_range (by decide) (by decide)]
    rfl
  constructor
  · refine (internal_get_iff smallFatVolume oneFileJob (oneByteFile 0) 0 fun _ => ?_).mpr (Or.inr ?_)
    · exact ⟨_, hfile⟩
    · exact ⟨[0x41], 0, hfile, by decide⟩
  · exact (internal_get_iff smallFatVolume oneFileJob (oneByteFile 0) 1
      fun hvalid => absurd hone hvalid).mpr (Or.inl hone)

/-- At the end of its file descriptor 0 reads the byte 0x5a of the stack. -/
theorem internal_get_stale : ¬ RevealsFileData smallFatVolume oneFileJob (oneByteFile 1) 0 ∧
    exceptionsInternalGet 1 smallFatVolume (fun _ => 0) oneFileJob (oneByteFile 1) 0 0x5a
      = .ok (0x5a, Function.update (oneByteFile 1) 8 (oneByteFile 1 8)) := by
  have hzero : jobGetFile oneFileJob (fdOf 0) = 8 := by
    rw [fdOf, toInt32_of_range (by decide) (by decide)]
    rfl
  have hcall : ∀ rounds (c : Byte),
      exceptionsInternalGet rounds smallFatVolume (fun _ => 0) oneFileJob (oneByteFile 1) 0 c
        = .ok (c.setWidth 64, Function.update (oneByteFile 1) 8 (oneByteFile 1 8)) := by
    intro rounds c
    unfold exceptionsInternalGet
    rw [hzero, if_neg (by decide)]
    rfl
  refine ⟨fun h => ?_, hcall 1 0x5a⟩
  have hsame := h.same (fun _ => 0) 0 1 _ _ _ _ ⟨0, fun rounds _ => hcall rounds 0⟩
    ⟨0, fun rounds _ => hcall rounds 1⟩
  exact absurd hsame (by decide)

end TinyKernel
