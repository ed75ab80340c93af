/-
  The ELF parser, `kernel/elf/elf.c` and `kernel/elf/filebuffer.c`.

  The file is a buffer in kernel memory, and the parser copies parts of it: the header into the
  `ELF` structure, the two header tables and the section names into memory from `kalloc`.  Every
  copy goes through `filebuffer_read_at_position`, which checks nothing.  Where it reads is taken
  from the file, where it writes was requested with the size of the STRUCTURES; the two agree only
  for files that say so.

  Kernel memory is mapped one to one, so the parser's addresses are physical ones.  The ghost
  `reads` lists the copies: position and length in the file, and the room that was requested for
  the destination.

  What the parser looks at is a function of the memory before (`TableByte`, `ElfFits`): a table
  that the file declares shorter than the structures leaves the rest of its buffer as it was.
-/
import TinyKernel.Alloc.Kalloc

namespace TinyKernel

/-! ## The source -/

/-- `ELF_MAGIC_NUMBER`. -/
def elfMagicNumber : Byte := 0x7f

/-- `sizeof(ElfN_Ehdr)`, `sizeof(ElfN_Phdr)` and `sizeof(ElfN_Shdr)`. -/
def sizeofEhdr : Nat := 64
def sizeofPhdr : Nat := 56
def sizeofShdr : Nat := 64

/-- The header's fields, from its bytes. -/
def eEntry (header : Mem) : Nat := loadNat header 24 8
def ePhoff (header : Mem) : Nat := loadNat header 32 8
def eShoff (header : Mem) : Nat := loadNat header 40 8
def ePhentsize (header : Mem) : Nat := loadNat header 54 2
def ePhnum (header : Mem) : Nat := loadNat header 56 2
def eShentsize (header : Mem) : Nat := loadNat header 58 2
def eShnum (header : Mem) : Nat := loadNat header 60 2
def eShstrndx (header : Mem) : Nat := loadNat header 62 2

/-- The fields of a program header at `p`. -/
def pType (m : Mem) (p : Nat) : Nat := loadNat m p 4
def pOffset (m : Mem) (p : Nat) : Nat := loadNat m (p + 8) 8
def pVaddr (m : Mem) (p : Nat) : Nat := loadNat m (p + 16) 8
def pFilesz (m : Mem) (p : Nat) : Nat := loadNat m (p + 32) 8
def pMemsz (m : Mem) (p : Nat) : Nat := loadNat m (p + 40) 8

/-- The fields of a section header at `p`. -/
def shOffset (m : Mem) (p : Nat) : Nat := loadNat m (p + 24) 8
def shSize (m : Mem) (p : Nat) : Nat := loadNat m (p + 32) 8

/-- `ELF`.  `header` is the bytes of the header structure by offset, pointers are addresses. -/
structure Elf where
  buffer : Nat
  headerLoaded : Bool
  header : Mem
  sectionHeadersLoaded : Bool
  sectionHeaders : Nat
  stringsSectionLoaded : Bool
  stringsSection : Nat
  programHeadersLoaded : Bool
  programHeaders : Nat

/-- A copy out of the file: `bytes` from position `offset`, to where `room` bytes are. -/
structure FileRead where
  offset : Nat
  bytes : Nat
  room : Nat
  deriving Repr, DecidableEq

/-- The parser's state. -/
structure ElfState where
  mem : Mem
  heap : HeapState
  elf : Elf
  /-- Ghost: the copies made, newest first. -/
  reads : List FileRead

/-- `filebuffer_frombuffer` and `elf_fromfilebuffer`: the fields not named are zero. -/
def elfFromfilebuffer (buffer : Nat) : Elf :=
  ⟨buffer, false, fun _ => 0, false, 0, false, 0, false, 0⟩

/-- The address of byte `i` from `offset` on: `src += offset_bytes` and then `src++`. -/
def filePosition (buffer offset i : Nat) : Nat := toSize (buffer + offset + i : Nat)

/-- `filebuffer_read_at_position`. -/
def filebufferReadAtPosition (m : Mem) (ptr offset size count buffer : Nat) : Mem :=
  copyBytes (fun i => toSize (ptr + i : Nat)) (filePosition buffer offset)
    (toSize (size * count : Nat)) m

/-- `elf_parseheader`. -/
def elfParseheader (st : ElfState) : Int × ElfState :=
  let header := fun i =>
    if i < sizeofEhdr then st.mem (filePosition st.elf.buffer 0 i) else st.elf.header i
  let st := { st with elf := { st.elf with header := header }
                      reads := ⟨0, sizeofEhdr, sizeofEhdr⟩ :: st.reads }
  if header 0 ≠ elfMagicNumber then (0, st)
  else (1, { st with elf := { st.elf with headerLoaded := true } })

/-- `elf_get_sectionheaders_bytes`. -/
def elfGetSectionheadersBytes (elf : Elf) : Nat :=
  if ¬ elf.headerLoaded then toSize (-1) else sizeofShdr * eShnum elf.header

/-- `elf_get_programheaders_bytes`. -/
def elfGetProgramheadersBytes (elf : Elf) : Nat :=
  if ¬ elf.headerLoaded then toSize (-1) else sizeofPhdr * ePhnum elf.header

/-- `elf_load_sectionheaders`. -/
def elfLoadSectionheaders (st : ElfState) : Int × ElfState :=
  if ¬ st.elf.headerLoaded then (0, st)
  else if st.elf.sectionHeaders = 0 then (0, st)
  else
    let size := eShentsize st.elf.header
    let count := eShnum st.elf.header
    (1, { st with
      mem := filebufferReadAtPosition st.mem st.elf.sectionHeaders (eShoff st.elf.header) size
        count st.elf.buffer
      elf := { st.elf with sectionHeadersLoaded := true }
      reads := ⟨eShoff st.elf.header, toSize (size * count : Nat),
        elfGetSectionheadersBytes st.elf⟩ :: st.reads })

/-- `elf_load_programheaders`. -/
def elfLoadProgramheaders (st : ElfState) : Int × ElfState :=
  if ¬ st.elf.headerLoaded then (0, st)
  else if st.elf.programHeaders = 0 then (0, st)
  else
    let size := ePhentsize st.elf.header
    let count := ePhnum st.elf.header
    (1, { st with
      mem := filebufferReadAtPosition st.mem st.elf.programHeaders (ePhoff st.elf.header) size
        count st.elf.buffer
      elf := { st.elf with programHeadersLoaded := true }
      reads := ⟨ePhoff st.elf.header, toSize (size * count : Nat),
        elfGetProgramheadersBytes st.elf⟩ :: st.reads })

/-- `elf_get_sectionheader_byid`; 0 is `NULL`. -/
def elfGetSectionheaderByid (elf : Elf) (index : Int) : Nat :=
  if ¬ elf.sectionHeadersLoaded then 0
  else if index < 0 ∨ (eShnum elf.header : Int) ≤ index then 0
  else elf.sectionHeaders + sizeofShdr * index.toNat

/-- `elf_get_sectionsize`. -/
def elfGetSectionsize (m : Mem) (elf : Elf) (index : Int) : Nat :=
  if ¬ elf.sectionHeadersLoaded then toSize (-1)
  else if index < 0 ∨ (eShnum elf.header : Int) ≤ index then toSize (-1)
  else shSize m (elf.sectionHeaders + sizeofShdr * index.toNat)

/-- `elf_get_stringsectionsize`. -/
def elfGetStringsectionsize (m : Mem) (elf : Elf) : Nat :=
  elfGetSectionsize m elf (eShstrndx elf.header)

/-- `elf_load_strings_section`; `requested` is the size that `kalloc` was asked for. -/
def elfLoadStringsSection (requested : Nat) (st : ElfState) : Except Fault (Int × ElfState) :=
  if ¬ st.elf.sectionHeadersLoaded then .ok (0, st)
  else if st.elf.stringsSection = 0 then .ok (0, st)
  else do
    let stringsSection := elfGetSectionheaderByid st.elf (eShstrndx st.elf.header)
    if stringsSection = 0 then throw .nullPointer
    let offset := shOffset st.mem stringsSection
    let size := shSize st.mem stringsSection
    return (1, { st with
      mem := filebufferReadAtPosition st.mem st.elf.stringsSection offset size 1 st.elf.buffer
      elf := { st.elf with stringsSectionLoaded := true }
      reads := ⟨offset, toSize (size * 1 : Nat), requested⟩ :: st.reads })

/-- `elf_get_programheader_byid`; 0 is `NULL`. -/
def elfGetProgramheaderByid (elf : Elf) (index : Nat) : Nat :=
  if ¬ elf.programHeadersLoaded then 0 else elf.programHeaders + sizeofPhdr * index

/-- What `elf_dump_program_content` copies to the memory that its caller provides. -/
def elfProgramRead (m : Mem) (program : Nat) : FileRead :=
  ⟨pOffset m program, toSize (pMemsz m program * 1 : Nat), toSize (pMemsz m program * 1 : Nat)⟩

/-- `elf_alloc_and_parse`. -/
def elfAllocAndParse (st : ElfState) : Except Fault ElfState := do
  let (_, st) := elfParseheader st
  let (sectionHeaders, heap) := st.heap.kalloc (elfGetSectionheadersBytes st.elf)
  let st := { st with heap := heap, elf := { st.elf with sectionHeaders := sectionHeaders } }
  let (_, st) := elfLoadSectionheaders st
  let (programHeaders, heap) := st.heap.kalloc (elfGetProgramheadersBytes st.elf)
  let st := { st with heap := heap, elf := { st.elf with programHeaders := programHeaders } }
  let (_, st) := elfLoadProgramheaders st
  let requested := elfGetStringsectionsize st.mem st.elf
  let (stringsSection, heap) := st.heap.kalloc requested
  let st := { st with heap := heap, elf := { st.elf with stringsSection := stringsSection } }
  let (_, st) ← elfLoadStringsSection requested st
  return st

/-- `elf_free`. -/
def elfFree (heap : HeapState) (elf : Elf) : HeapState :=
  ((heap.kfree elf.sectionHeaders).kfree elf.programHeaders).kfree elf.stringsSection

end TinyKernel
