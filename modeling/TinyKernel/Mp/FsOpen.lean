/-
  `fs->open` of a file that may be missing, on both filesystems.

  `fatfs_open` allocates its inode before it looks, and never returns `NULL`: without an entry it
  returns an inode whose `fat16_dir_entry` is `NULL`, and `fatfs_get` goes through that pointer
  (`fatfsGet_none`).  `ramfs_open_internal` looks first, but it looks at the first file only, and
  never gets past it.  So each of them reports what its callers rely on exactly when the file is
  there, and where it finds it (`fs_open_reports_iff`).
-/
import TinyKernel.Fs.FatLookup
import TinyKernel.Fs.RamDir
import TinyKernel.Mp.SpawnRoom

namespace TinyKernel

/-! ## Calls that follow no null pointer -/

/-- The call does not go through a null pointer. -/
def FollowsNoNull {α : Type} (x : Except Fault α) : Prop := x ≠ .error .nullPointer

theorem FollowsNoNull.ok {α : Type} (a : α) : FollowsNoNull (.ok a : Except Fault α) := by
  intro h
  cases h

theorem FollowsNoNull.error {α : Type} {e : Fault} (he : e ≠ .nullPointer) :
    FollowsNoNull (.error e : Except Fault α) := fun h => he (Except.error.inj h)

theorem FollowsNoNull.bind {α β : Type} {x : Except Fault α} {f : α → Except Fault β}
    (hx : FollowsNoNull x) (hf : ∀ a, FollowsNoNull (f a)) : FollowsNoNull (x >>= f) := by
  cases x with
  | ok a => exact hf a
  | error e =>
    intro heq
    have he : e = .nullPointer := by
      injection heq
    exact hx (congrArg Except.error he)

theorem fatReadMiddle_noNull (disk : Disk) (h : FatHandle) : ∀ (rounds : Nat) (buffer : Mem)
    (remainingBytes outIndex : Int) (cluster : Nat),
    FollowsNoNull (fatReadMiddle disk h rounds buffer remainingBytes outIndex cluster) := by
  intro rounds
  induction rounds with
  | zero =>
    intro buffer remainingBytes outIndex cluster
    rw [fatReadMiddle]
    exact .error (by decide)
  | succ rounds ih =>
    intro buffer remainingBytes outIndex cluster
    rw [fatReadMiddle]
    split
    · exact ih _ _ _ _
    · exact .ok _

theorem fatReadEntryOffsetSize_noNull (rounds : Nat) (disk : Disk) (h : FatHandle)
    (entry : Fat16DirEntry) (buffer m : Mem) (ptr : Nat) (offset size : Int) :
    FollowsNoNull (fatReadEntryOffsetSize rounds disk h entry buffer m ptr offset size) := by
  unfold fatReadEntryOffsetSize
  dsimp only
  split
  · exact .error (by decide)
  · refine (fatReadMiddle_noNull _ _ _ _ _ _ _).bind fun r => ?_
    split
    · exact .ok _
    · exact .ok _

/-- `fatfs_get` of an inode with an entry. -/
theorem fatfsGet_noNull {inode : FatInode} (hentry : inode.fat16DirEntry ≠ none) (rounds : Nat)
    (disk : Disk) (h : FatHandle) (scratch : Mem) :
    FollowsNoNull (fatfsGet rounds disk h scratch inode) := by
  unfold fatfsGet
  cases hcase : inode.fat16DirEntry with
  | none => exact absurd hcase hentry
  | some entry =>
    dsimp only
    split
    · exact .ok _
    · refine FollowsNoNull.bind ?_ fun inode' => ?_
      · unfold fatfsLoad
        split
        · exact (fatReadEntryOffsetSize_noNull _ _ _ _ _ _ _ _ _).bind fun r => .ok _
        · exact .ok _
      · split
        · exact FollowsNoNull.error (e := .signedOverflow) (by decide)
        · exact .ok _

/-- .. and of one without. -/
theorem fatfsGet_none {inode : FatInode} (hentry : inode.fat16DirEntry = none) (rounds : Nat)
    (disk : Disk) (h : FatHandle) (scratch : Mem) :
    ¬ FollowsNoNull (fatfsGet rounds disk h scratch inode) := by
  intro hfollows
  apply hfollows
  rw [fatfsGet, hentry]

theorem slabFreeLoop_noNull (objectSize : Nat) : ∀ room offset slot : Nat,
    FollowsNoNull (slabFreeLoop objectSize room offset slot) := by
  intro room
  induction room with
  | zero =>
    intro offset slot
    rw [slabFreeLoop]
    split
    · exact .error (by decide)
    · exact .ok _
  | succ room ih =>
    intro offset slot
    rw [slabFreeLoop]
    split
    · exact ih _ _
    · exact .ok _

/-- `close` goes through the inode and nothing behind it. -/
theorem closeInode_noNull (st : InodeState) (p : Nat) : FollowsNoNull (st.closeInode p) := by
  have hbit : ∀ (s : Slab) (m : Mem) (n : Int), FollowsNoNull (slabGetHeaderBit s m n) := by
    intro s m n
    unfold slabGetHeaderBit
    dsimp only
    split
    · exact .error (by decide)
    · exact .ok _
  have hset : ∀ (s : Slab) (m : Mem) (n : Int) (v : Bool),
      FollowsNoNull (slabSetHeaderBit s m n v) := by
    intro s m n v
    unfold slabSetHeaderBit
    dsimp only
    split
    · exact .error (by decide)
    · exact .ok _
  have hfree : ∀ (s : Slab) (m : Mem), FollowsNoNull (slabFree s m p) := by
    intro s m
    unfold slabFree
    refine (slabFreeLoop_noNull _ _ _ _).bind fun r => ?_
    dsimp only
    split
    · exact .ok _
    · refine (hbit _ _ _).bind fun bit => ?_
      split
      · exact (hset _ _ _ _).bind fun m' => .ok _
      · exact .ok _
  exact ((hfree _ _).bind fun r => FollowsNoNull.ok _).bind fun st' => FollowsNoNull.ok _

/-! ## What callers rely on -/

/-- A name of up to 8 characters, and an extension of up to 3. -/
structure EightThree (name ext : List Byte) : Prop where
  name_le : name.length ≤ 8
  dot : 0x2e ∉ name
  ext_le : ext.length ≤ 3

/-- `open` on the FAT filesystem: `NULL` if and only if there is no such file, then with the slab and
    the heap as they were, and otherwise an inode that can be read and closed. -/
def FatOpenReports (volume : Volume) (garbage : Garbage) (st : SystemState) (filename : Mem)
    (name ext : List Byte) : Prop :=
  ∃ inode fatInode st', st.fatfsOpen volume garbage filename = .ok (inode, fatInode, st') ∧
    (inode = 0 ↔ ∀ i, i < volume.handle.header.possibleRootEntries →
      ¬ EntryNamed volume.handle name ext i) ∧
    (inode = 0 → st'.fs.slabMem = st.fs.slabMem ∧ st'.fs.heap = st.fs.heap) ∧
    (inode ≠ 0 → (∀ rounds scratch,
      FollowsNoNull (fatfsGet rounds volume.disk volume.handle scratch fatInode)) ∧
      FollowsNoNull (st'.fs.closeInode inode))

/-- `open` on a ram filesystem.  What `ramfs_get` goes through are the inode's data and its
    `ram_file`. -/
def RamOpenReports (st : RamDir) (files : List (Nat × List Byte)) (filename : List Byte) : Prop :=
  ∃ inode st', Returns (fun rounds => st.ramfsOpenInternal rounds filename) (inode, st') ∧
    (inode = 0 ↔ ∀ f ∈ files, f.2 ≠ filename) ∧
    (inode = 0 → st'.fs.slabMem = st.fs.slabMem ∧ st'.fs.heap = st.fs.heap) ∧
    (inode ≠ 0 → (st'.fs.inodes inode).implInode ≠ 0 ∧
      loadNat st'.mem (st'.fs.inodes inode).implInode 8 ≠ 0 ∧
      FollowsNoNull (st'.fs.closeInode inode))

/-- The file is in the root directory, and an inode for it can be had. -/
structure FatFileOpens (volume : Volume) (st : SystemState) (name ext : List Byte) : Prop where
  found : ∃ i, i < volume.handle.header.possibleRootEntries ∧ EntryNamed volume.handle name ext i
  slot : st.fs.HasSlot
  room : (st.fs.heap.kalloc sizeofFatInode).1 ≠ 0

section Fat

variable {volume : Volume} {garbage : Garbage} {st : SystemState} {filename : Mem}
  {name ext : List Byte}

/-- `fatfs_open` never returns `NULL`. -/
theorem fatfsOpen_ne_null {inode : Nat} {fatInode : FatInode} {st' : SystemState}
    (h : st.fatfsOpen volume garbage filename = .ok (inode, fatInode, st')) : inode ≠ 0 := by
  obtain ⟨fs, _, _, hfs, -, rfl, -, -⟩ := SystemState.fatfsOpen_ok h
  obtain ⟨⟨p', mem', hslab', hp⟩, -⟩ := fatfsOpen_returns_iff.mp ⟨fs, hfs⟩
  obtain ⟨p, q, mem, heap, x, hslab, -, -, -, -, rfl⟩ := fatfsOpen_ok hfs
  obtain ⟨rfl, -⟩ := Prod.mk.inj (Except.ok.inj (hslab.symm.trans hslab'))
  exact hp

/-- The lookup of an 8.3 name fails exactly for a missing file. -/
theorem fatGetEntryByFile_missing (volume : Volume) (hname : EightThree name ext)
    (hs : CStringAt filename 0 (name ++ 0x2e :: ext)) (stackName stackExt : List Byte) :
    fatGetEntryByFile volume.handle stackName stackExt name ext = none ↔
      ∀ i, i < volume.handle.header.possibleRootEntries →
        ¬ EntryNamed volume.handle name ext i := by
  have htest := entryMatches_iff (h := volume.handle)
    (fun hzero => hs.nonzero (List.mem_append_left _ hzero)) hs.behindDot.nonzero hname.name_le
    hname.ext_le stackName stackExt
  rw [fatGetEntryByFile_eq_none]
  refine forall_congr' fun i => imp_congr_right fun _ => ?_
  rw [← htest i, Bool.not_eq_true]

theorem fatOpenReports_iff (hname : EightThree name ext)
    (hs : CStringAt filename 0 (name ++ 0x2e :: ext)) :
    FatOpenReports volume garbage st filename name ext ↔ FatFileOpens volume st name ext := by
  have hsplit : fatfsSplit filename 0 = .ok (name, ext) := by
    rw [fatfsSplit_eq hname.dot hs, if_pos]
    have h1 := hname.name_le
    have h2 := hname.ext_le
    omega
  have hmissing := fatGetEntryByFile_missing volume hname hs garbage.stackName
    garbage.stackExt
  constructor
  · rintro ⟨inode, fatInode, st', hopen, hnull, -, -⟩
    obtain ⟨fs, _, _, hfs, -⟩ := SystemState.fatfsOpen_ok hopen
    obtain ⟨hslot, hroom⟩ := fatfsOpen_returns_iff.mp ⟨fs, hfs⟩
    refine ⟨?_, hslot, hroom⟩
    by_contra hnone
    push Not at hnone
    exact fatfsOpen_ne_null hopen (hnull.mpr hnone)
  · rintro ⟨⟨i, hi, hentry⟩, hslot, hroom⟩
    obtain ⟨fs, hfs⟩ := fatfsOpen_returns_iff.mpr ⟨hslot, hroom⟩
    have hopen : ∃ inode fatInode st',
        st.fatfsOpen volume garbage filename = .ok (inode, fatInode, st') := by
      rw [SystemState.fatfsOpen, hfs, ok_bind, hsplit, ok_bind]
      exact ⟨_, _, _, rfl⟩
    obtain ⟨inode, fatInode, st', hopen⟩ := hopen
    have hne := fatfsOpen_ne_null hopen
    refine ⟨inode, fatInode, st', hopen, ?_, fun hzero => absurd hzero hne, fun _ => ⟨?_, ?_⟩⟩
    · exact ⟨fun hzero => absurd hzero hne, fun hnone => absurd hentry (hnone i hi)⟩
    · intro rounds scratch
      obtain ⟨_, name', ext', -, hsplit', -, rfl, -⟩ := SystemState.fatfsOpen_ok hopen
      obtain ⟨rfl, rfl⟩ := Prod.mk.inj (Except.ok.inj (hsplit.symm.trans hsplit'))
      refine fatfsGet_noNull (fun hnone => ?_) rounds _ _ scratch
      exact hmissing.mp (Option.map_eq_none_iff.mp hnone) i hi hentry
    · exact closeInode_noNull _ _

end Fat

theorem ramOpenReports_iff {st : RamDir} {files : List (Nat × List Byte)} {filename : List Byte}
    (h : HoldsFiles st files) (hname : 0 ∉ filename) :
    RamOpenReports st files filename ↔ files = [] ∨ FirstIs st files filename := by
  constructor
  · rintro ⟨inode, st', hret, -⟩
    exact h.open_cases hname hret
  · rintro (rfl | hfirst)
    · refine ⟨0, st, h.open_nil, ?_, fun _ => ⟨rfl, rfl⟩, fun hne => absurd rfl hne⟩
      exact ⟨fun _ f hf => absurd hf List.not_mem_nil, fun _ => rfl⟩
    · obtain ⟨node, rest, rfl⟩ := hfirst.exists_head
      obtain ⟨inode, st', hret, hinode, himpl, hopened⟩ :=
        h.open_head hname hfirst.slot hfirst.room
      have hnode : node ≠ 0 := h.list.2.1
      refine ⟨inode, st', hret, null_iff_missing_of_head hinode, fun hzero => absurd hzero hinode,
        fun _ => ⟨himpl, ?_, closeInode_noNull _ _⟩⟩
      rw [hopened.ramFile]
      exact hnode

/-- **Opening on both filesystems.**  For every root directory, every list of ram files and every
    8.3 name: FAT reports the result as its callers rely on it if and only if the file exists and an
    inode can be had; the ram filesystem, if and only if there is no file at all, or the wanted one
    is the first and an inode can be had.  FAT has the inode before it knows whether there is an
    entry, and never returns `NULL` for that reason; the ram filesystem does not get past its first
    file. -/
theorem fs_open_reports_iff (volume : Volume) (garbage : Garbage) (st : SystemState) {dir : RamDir}
    {files : List (Nat × List Byte)} {filename : Mem} {name ext : List Byte}
    (hname : EightThree name ext) (hs : CStringAt filename 0 (name ++ 0x2e :: ext))
    (hfiles : HoldsFiles dir files) :
    (FatOpenReports volume garbage st filename name ext ↔ FatFileOpens volume st name ext) ∧
    (RamOpenReports dir files (name ++ 0x2e :: ext) ↔
      files = [] ∨ FirstIs dir files (name ++ 0x2e :: ext)) := by
  constructor
  · exact fatOpenReports_iff hname hs
  · exact ramOpenReports_iff hfiles hs.nonzero

/-- An empty ram directory, in clear memory. -/
def noFiles : RamDir := { twoFiles with mem := fun _ => 0 }

theorem noFiles_holds : HoldsFiles noFiles [] := by
  refine ⟨by decide, ?_, fun f hf => absurd hf List.not_mem_nil⟩
  show loadNat noFiles.mem noFiles.arguments 8 = 0
  decide +kernel

/-- After boot "a.b" is opened on the disk with the small program, and `NULL` says that it is not
    in the empty directory. -/
theorem fs_open_reports_iff_boot : ∃ st,
    FatOpenReports (programVolume 4) noGarbage st (fun x => [0x61, 0x2e, 0x62].getD x 0)
      [0x61] [0x62] ∧
    RamOpenReports noFiles [] ([0x61] ++ 0x2e :: [0x62]) := by
  have hname : EightThree [0x61] [0x62] := ⟨by decide, by decide, by decide⟩
  have hs : CStringAt (fun x => [0x61, 0x2e, 0x62].getD x 0) 0 ([0x61] ++ 0x2e :: [0x62]) :=
    CStringAt.exists_mem (by decide)
  have hfound := (programVolume_layout 4 (by decide)).found
  obtain ⟨heap, inodes, jobs, tables, hboot⟩ := bootHeap_exists
  obtain ⟨hslot, hroom⟩ := hboot.inode_room
  obtain ⟨hfat, hram⟩ := fs_open_reports_iff (programVolume 4) noGarbage
    (bootedSystem heap inodes jobs tables) hname hs noFiles_holds
  refine ⟨_, hfat.mpr ⟨?_, hslot, hroom⟩, hram.mpr (Or.inl rfl)⟩
  by_contra hnone
  push Not at hnone
  rw [(fatGetEntryByFile_missing (programVolume 4) hname hs [] []).mpr hnone] at hfound
  cases hfound

/-- "x.y" is not on the disk with the small program.  `open` returns an inode all the same, and
    reading from it goes through `NULL`. -/
theorem fat_open_missing : ∃ st inode fatInode st',
    (systemMachine (programVolume 4)).Reach st ∧ st.fatfsOpen (programVolume 4) noGarbage (fun x => [0x78, 0x2e, 0x79].getD x 0)
      = .ok (inode, fatInode, st') ∧ inode ≠ 0 ∧
    (∀ i, i < (programHandle 4).header.possibleRootEntries →
      ¬ EntryNamed (programHandle 4) [0x78] [0x79] i) ∧
    (∀ rounds scratch, ¬ FollowsNoNull
      (fatfsGet rounds (programVolume 4).disk (programHandle 4) scratch fatInode)) ∧
    ¬ FatOpenReports (programVolume 4) noGarbage st (fun x => [0x78, 0x2e, 0x79].getD x 0)
      [0x78] [0x79] := by
  have hname : EightThree [0x78] [0x79] := ⟨by decide, by decide, by decide⟩
  have hs : CStringAt (fun x => [0x78, 0x2e, 0x79].getD x 0) 0 ([0x78] ++ 0x2e :: [0x79]) :=
    CStringAt.exists_mem (by decide)
  have hmissing : ∀ i, i < (programHandle 4).header.possibleRootEntries →
      ¬ EntryNamed (programHandle 4) [0x78] [0x79] i := by
    have hbytes : ∀ i, i < (programHandle 4).header.possibleRootEntries →
        (programHandle 4).entries (fat16DirEntrySize * i + 0) ≠ 0x58 := by
      decide +kernel
    exact fun i hi hentry => hbytes i hi (hentry.filename 0 (by decide))
  obtain ⟨heap, inodes, jobs, tables, hboot⟩ := bootHeap_exists
  obtain ⟨hslot, hroom⟩ := hboot.inode_room
  obtain ⟨fs, hfs⟩ := fatfsOpen_returns_iff.mpr ⟨hslot, hroom⟩
  have hsplit : fatfsSplit (fun x => [0x78, 0x2e, 0x79].getD x 0) 0 = .ok ([0x78], [0x79]) := by
    rfl
  have hopen : ∃ inode fatInode st', (bootedSystem heap inodes jobs tables).fatfsOpen
      (programVolume 4) noGarbage (fun x => [0x78, 0x2e, 0x79].getD x 0)
        = .ok (inode, fatInode, st') := by
    rw [SystemState.fatfsOpen, hfs, ok_bind, hsplit, ok_bind]
    exact ⟨_, _, _, rfl⟩
  obtain ⟨inode, fatInode, st', hopen⟩ := hopen
  refine ⟨_, inode, fatInode, st', .start hboot.booted, hopen, fatfsOpen_ne_null hopen, hmissing, ?_,
    ?_⟩
  · intro rounds scratch
    obtain ⟨_, name', ext', -, hsplit', -, rfl, -⟩ := SystemState.fatfsOpen_ok hopen
    obtain ⟨rfl, rfl⟩ := Prod.mk.inj (Except.ok.inj (hsplit.symm.trans hsplit'))
    refine fatfsGet_none ?_ rounds _ _ scratch
    have hnull := (fatGetEntryByFile_missing (programVolume 4) hname hs
      noGarbage.stackName noGarbage.stackExt).mpr hmissing
    rw [hnull]
    rfl
  · rintro ⟨inode', fatInode', st'', hopen', hnull, -, -⟩
    exact fatfsOpen_ne_null hopen' (hnull.mpr hmissing)

end TinyKernel
