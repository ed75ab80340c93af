/-
  File names on a FAT volume: how `fatfs_open` splits a name, and how `fat_get_entry_by_file`
  looks it up in the root directory.

  The two halves of a name go through `char name[10]` and `char ext[10]` on the stack, then into
  the padded 8 and 3 bytes of a directory entry.  A half that is too long for its 8 or 3 bytes is
  not copied at all, and the lookup compares what was on the stack before; the model takes those
  bytes as arguments.  The splitting loop looks for a '.' and nothing else.
-/
import TinyKernel.Fs.FatFs

namespace TinyKernel

/-- The characters of a C string: the bytes before the first 0. -/
def cString (bytes : List Byte) : List Byte := bytes.takeWhile (· ≠ 0)

/-- `fat_char_get_uppercase`. -/
def fatCharGetUppercase (c : Byte) : Byte :=
  if 0x61 ≤ c.toNat ∧ c.toNat ≤ 0x7a then c - 0x20 else c

/-- `fat_uppercase_and_pad`, with the bytes that `dest` held. -/
def fatUppercaseAndPad (dest src : List Byte) (dim : Nat) : List Byte :=
  let s := cString src
  if s.length ≤ dim then s.map fatCharGetUppercase ++ List.replicate (dim - s.length) 0x20 else dest

/-- `fat_char_array_compare` with the bytes from `p`, as the question it is asked: are they equal? -/
def fatCharArrayEqual (a : List Byte) (m : Mem) (p len : Nat) : Bool :=
  (List.range len).all fun i => a.getD i 0 = m (p + i)

/-- `fat_get_entry_by_file`: the index of the entry; `none` is `NULL`.  `stackName` and `stackExt`
    are what the two local arrays hold at first. -/
def fatGetEntryByFile (h : FatHandle) (stackName stackExt name ext : List Byte) : Option Nat :=
  let fatExt := fatUppercaseAndPad stackExt ext 3
  let fatName := fatUppercaseAndPad stackName name 8
  (List.range h.header.possibleRootEntries).find? fun i =>
    fatCharArrayEqual fatName h.entries (fat16DirEntrySize * i) 8 &&
      fatCharArrayEqual fatExt h.entries (fat16DirEntrySize * i + 8) 3

/-- The two copying loops of `fatfs_open`, from `p` to the byte `stop`: the bytes copied, and where
    the loop stopped.  `room` places of the array are left, and one is needed for the 0. -/
def fatfsCopyUntil (m : Mem) (stop : Byte) : Nat → Nat → Except Fault (List Byte × Nat)
  | 0, _ => .error .outOfBounds
  | room + 1, p =>
    if m p = stop then .ok ([], p)
    else do
      let (rest, last) ← fatfsCopyUntil m stop room (p + 1)
      return (m p :: rest, last)

/-- How `fatfs_open` splits the name at `p`. -/
def fatfsSplit (m : Mem) (p : Nat) : Except Fault (List Byte × List Byte) := do
  let (name, dot) ← fatfsCopyUntil m 0x2e 10 p
  let (ext, _) ← fatfsCopyUntil m 0 10 (dot + 1)
  return (name, ext)

end TinyKernel
