/-
  Where the ELF parser reads and writes.

  `ElfStaysInside` is the property: every copy that `elf_alloc_and_parse` makes, and every copy
  that `elf_dump_program_content` would make for a program header it loaded, reads positions
  inside the file and fits the room that was requested for it.

  `ElfFits` says the same of the INPUT: the file's bytes, the memory around it and the heap.  The
  two are compared copy by copy, in the parser's order.  Each copy that stays inside leaves the
  file and the tables copied before as they are, so that the fields the parser uses next are those
  that `ElfFits` reads from the input; the first copy that does not is reported by both.

  The parser copies four times: the header, the section headers, the program headers and the
  section names, the first to a field of `struct elf` and the others to buffers from `kalloc`.  How
  much it copies comes from the file, and so does how much it asks for, but not from the same fields:
  a table is `e_shentsize * e_shnum` bytes long to the copy and `sizeof (struct elf64_shdr) * e_shnum`
  bytes to the allocation.  Neither is compared with the length of the file, because `struct
  filebuffer` does not keep one: reading at a position is reading at `buffer + position`, whatever
  the position.

  So staying inside is a property of the input, and the equivalence has two directions that are
  proved together: as long as all copies so far were inside, the two sides look at the same bytes, so
  the next copy is inside for both or for neither.  A copy of a table that got no buffer is not made;
  that is why each condition starts with the pointer.
-/
import TinyKernel.Elf.Elf

namespace TinyKernel

/-! ## One copy -/

/-- The copy reads inside a file of `len` bytes, and writes inside its destination. -/
def FileRead.Inside (len : Nat) (r : FileRead) : Prop :=
  (∀ i, i < r.bytes → (r.offset + i) % 18446744073709551616 < len) ∧ r.bytes ≤ r.room

/-- The file has `bytes` bytes from `offset` on. -/
def InFile (len offset bytes : Nat) : Prop := bytes = 0 ∨ offset + bytes ≤ len

/-- Inside is a condition on numbers: nothing wraps around for a file shorter than 2^64. -/
theorem FileRead.inside_iff {len offset bytes room : Nat} (hlen : len < 18446744073709551616)
    (hoff : offset < 18446744073709551616) :
    (⟨offset, bytes, room⟩ : FileRead).Inside len ↔ InFile len offset bytes ∧ bytes ≤ room := by
  unfold FileRead.Inside InFile
  refine and_congr_left fun _ => ⟨fun h => ?_, fun h i hi => ?_⟩
  · by_contra hout
    obtain ⟨hpos, hend⟩ := not_or.mp hout
    have hfirst := h 0 (by simp only; omega)
    simp only [Nat.add_zero, Nat.mod_eq_of_lt hoff] at hfirst
    -- the position `len` itself is read, before anything wraps around
    have hat := h (len - offset) (by simp only; omega)
    simp only at hat
    rw [show offset + (len - offset) = len by omega, Nat.mod_eq_of_lt hlen] at hat
    omega
  · simp only at hi ⊢
    rw [Nat.mod_eq_of_lt (by omega)]
    omega

/-- A copy between two places that do not overlap. -/
theorem filebufferReadAtPosition_apply {m : Mem} {ptr offset size count buffer n : Nat}
    (hn : size * count = n) (hdst : ptr + n < 18446744073709551616)
    (hsrc : n = 0 ∨ buffer + offset + n < 18446744073709551616)
    (hdisj : n = 0 ∨ buffer + offset + n ≤ ptr ∨ ptr + n ≤ buffer + offset) (x : Nat) :
    filebufferReadAtPosition m ptr offset size count buffer x
      = if ptr ≤ x ∧ x < ptr + n then m (buffer + offset + (x - ptr)) else m x := by
  have hcount : toSize (size * count : Nat) = n := by
    rw [hn]
    exact toSize_natCast (by omega)
  have hd : ∀ i, i < n → toSize (ptr + i : Nat) = ptr + i := fun i hi =>
    toSize_natCast (by omega)
  have hs : ∀ i, i < n → filePosition buffer offset i = buffer + offset + i := fun i hi =>
    toSize_natCast (by omega)
  rw [filebufferReadAtPosition, hcount]
  by_cases hx : ptr ≤ x ∧ x < ptr + n
  · obtain ⟨k, rfl⟩ := Nat.exists_eq_add_of_le hx.1
    have hk : k < n := by omega
    rw [if_pos hx, Nat.add_sub_cancel_left, ← hs k hk, ← hd k hk]
    refine copyBytes_apply ?_ ?_ hk
    · intro i j hi hj h
      rw [hd i hi, hd j hj] at h
      omega
    · intro i j hi hj
      rw [hs i hi, hd j hj]
      omega
  · rw [if_neg hx]
    refine copyBytes_of_ne fun i hi => ?_
    rw [hd i hi]
    omega

/-- A copy that is no longer than its buffer changes nothing outside it. -/
theorem filebufferReadAtPosition_outside {m : Mem} {ptr offset size count buffer room x : Nat}
    (hroom : toSize (size * count : Nat) ≤ room) (hend : ptr + room ≤ 0x50180000)
    (hx : x < ptr ∨ ptr + room ≤ x) :
    filebufferReadAtPosition m ptr offset size count buffer x = m x := by
  refine copyBytes_of_ne fun i hi => ?_
  rw [toSize_natCast (by omega)]
  omega

/-! ## The parser's steps -/

/-- The header structure after `elf_parseheader`. -/
def parsedHeader (m : Mem) (buffer : Nat) : Mem := fun i =>
  if i < sizeofEhdr then m (filePosition buffer 0 i) else 0

/-- The section header table after `elf_load_sectionheaders`, if it got memory. -/
def memWithSections (m header : Mem) (buffer sections : Nat) : Mem :=
  if sections = 0 then m
  else filebufferReadAtPosition m sections (eShoff header) (eShentsize header) (eShnum header) buffer

/-- The memory after `elf_load_programheaders`. -/
def memWithPrograms (m header : Mem) (buffer programs : Nat) : Mem :=
  if programs = 0 then m
  else filebufferReadAtPosition m programs (ePhoff header) (ePhentsize header) (ePhnum header) buffer

/-- The size of the string section that `kalloc` is asked for. -/
def stringsRequest (m header : Mem) (sections : Nat) : Nat :=
  if sections = 0 ∨ eShnum header ≤ eShstrndx header then toSize (-1)
  else shSize m (sections + sizeofShdr * eShstrndx header)

/-- The memory after `elf_load_strings_section`. -/
def memWithStrings (m header : Mem) (buffer sections strings : Nat) : Mem :=
  if sections = 0 ∨ strings = 0 then m
  else filebufferReadAtPosition m strings (shOffset m (sections + sizeofShdr * eShstrndx header))
    (shSize m (sections + sizeofShdr * eShstrndx header)) 1 buffer

/-- `kalloc` cannot serve the size that stands for an error. -/
theorem KernelHeapInv.kalloc_error {heap : HeapState} (h : KernelHeapInv heap) :
    heap.kalloc (toSize (-1)) = (0, heap) := by
  have hsize : toSize (-1) = 18446744073709551615 := by
    unfold toSize
    rfl
  rw [hsize]
  have hne : 18446744073709551615 ≠ 0 := by decide
  rcases heapAlloc_first h.holds.placed heap.mem hne with ⟨-, hnull⟩ | ⟨i, hin, -⟩
  · simp only [HeapState.kalloc, hnull, if_true]
  · have hblocks := h.blocks
    have hbig : allocBlocks 18446744073709551615 = 4503599627370496 := by
      rw [allocBlocks_eq]
    omega

section Parse

variable {m : Mem} {heap : HeapState} {buffer : Nat}

/-- A file with another first byte: nothing but its header is read. -/
theorem elfAllocAndParse_rejected (h : KernelHeapInv heap)
    (hmagic : parsedHeader m buffer 0 ≠ elfMagicNumber) :
    elfAllocAndParse ⟨m, heap, elfFromfilebuffer buffer, []⟩ = .ok ⟨m, heap,
      { elfFromfilebuffer buffer with header := parsedHeader m buffer },
      [⟨0, sizeofEhdr, sizeofEhdr⟩]⟩ := by
  have hparse : elfParseheader ⟨m, heap, elfFromfilebuffer buffer, []⟩ = (0, ⟨m, heap,
      { elfFromfilebuffer buffer with header := parsedHeader m buffer },
      [⟨0, sizeofEhdr, sizeofEhdr⟩]⟩) := by
    rw [elfParseheader]
    exact if_pos hmagic
  simp only [elfAllocAndParse, hparse]
  simp [elfGetSectionheadersBytes, elfGetProgramheadersBytes, elfGetStringsectionsize,
    elfGetSectionsize, elfFromfilebuffer, h.kalloc_error, elfLoadSectionheaders,
    elfLoadProgramheaders, elfLoadStringsSection]

/-- The copies of the tables and of the section names, newest first. -/
def sectionsRead (header : Mem) (sections : Nat) : List FileRead :=
  if sections = 0 then []
  else [⟨eShoff header, toSize (eShentsize header * eShnum header : Nat),
    sizeofShdr * eShnum header⟩]

def programsRead (header : Mem) (programs : Nat) : List FileRead :=
  if programs = 0 then []
  else [⟨ePhoff header, toSize (ePhentsize header * ePhnum header : Nat),
    sizeofPhdr * ePhnum header⟩]

def stringsRead (m header : Mem) (sections strings : Nat) : List FileRead :=
  if sections = 0 ∨ strings = 0 then []
  else [⟨shOffset m (sections + sizeofShdr * eShstrndx header),
    toSize (shSize m (sections + sizeofShdr * eShstrndx header) * 1 : Nat),
    stringsRequest m header sections⟩]

/-- What is asked for the section headers, once the header is there. -/
theorem elfGetSectionheadersBytes_loaded (header : Mem) (a c e : Bool) (b d f g : Nat) :
    elfGetSectionheadersBytes ⟨b, true, header, a, d, c, f, e, g⟩
      = sizeofShdr * eShnum header := by
  simp [elfGetSectionheadersBytes]

/-- What is asked for the program headers. -/
theorem elfGetProgramheadersBytes_loaded (header : Mem) (a c e : Bool) (b d f g : Nat) :
    elfGetProgramheadersBytes ⟨b, true, header, a, d, c, f, e, g⟩
      = sizeofPhdr * ePhnum header := by
  simp [elfGetProgramheadersBytes]

/-- `elf_load_sectionheaders`, the first time: one copy, if there is a buffer. -/
theorem elfLoadSectionheaders_eq {st : ElfState} (hl : st.elf.headerLoaded = true)
    (hs : st.elf.sectionHeadersLoaded = false) :
    (elfLoadSectionheaders st).2 = { st with
      mem := memWithSections st.mem st.elf.header st.elf.buffer st.elf.sectionHeaders
      elf := { st.elf with sectionHeadersLoaded := decide (st.elf.sectionHeaders ≠ 0) }
      reads := sectionsRead st.elf.header st.elf.sectionHeaders ++ st.reads } := by
  obtain ⟨m, heap, ⟨buffer, hl', header, loaded, sections, _, _, _, _⟩, reads⟩ := st
  simp only at hl hs
  subst hl hs
  by_cases h0 : sections = 0
  · simp [elfLoadSectionheaders, memWithSections, sectionsRead, h0]
  · simp [elfLoadSectionheaders, memWithSections, sectionsRead, h0, elfGetSectionheadersBytes]

/-- `elf_load_programheaders`, the first time. -/
theorem elfLoadProgramheaders_eq {st : ElfState} (hl : st.elf.headerLoaded = true)
    (hs : st.elf.programHeadersLoaded = false) :
    (elfLoadProgramheaders st).2 = { st with
      mem := memWithPrograms st.mem st.elf.header st.elf.buffer st.elf.programHeaders
      elf := { st.elf with programHeadersLoaded := decide (st.elf.programHeaders ≠ 0) }
      reads := programsRead st.elf.header st.elf.programHeaders ++ st.reads } := by
  obtain ⟨m, heap, ⟨buffer, hl', header, _, _, _, _, loaded, programs⟩, reads⟩ := st
  simp only at hl hs
  subst hl hs
  by_cases h0 : programs = 0
  · simp [elfLoadProgramheaders, memWithPrograms, programsRead, h0]
  · simp [elfLoadProgramheaders, memWithPrograms, programsRead, h0, elfGetProgramheadersBytes]

/-- The size of the section names is read from the section header with index `e_shstrndx`, in the copy. -/
theorem elfGetStringsectionsize_eq (m : Mem) {elf : Elf}
    (hs : elf.sectionHeadersLoaded = decide (elf.sectionHeaders ≠ 0)) :
    elfGetStringsectionsize m elf = stringsRequest m elf.header elf.sectionHeaders := by
  rw [elfGetStringsectionsize, elfGetSectionsize, hs, stringsRequest]
  by_cases h0 : elf.sectionHeaders = 0
  · simp [h0]
  · by_cases hidx : eShnum elf.header ≤ eShstrndx elf.header
    · simp [h0, hidx]
    · simp [h0, hidx]

/-- The section names are loaded when there is memory for them; the error size gets none. -/
theorem elfLoadStringsSection_eq {heap₂ heap₃ : HeapState} (h : KernelHeapInv heap₂)
    {header : Mem} {sections strings : Nat}
    (hres : heap₂.kalloc (stringsRequest m header sections) = (strings, heap₃))
    (buffer programs : Nat) (loaded : Bool) (reads : List FileRead) :
    ∃ r, elfLoadStringsSection (stringsRequest m header sections) ⟨m, heap₃, ⟨buffer, true, header,
        decide (sections ≠ 0), sections, false, strings, loaded, programs⟩, reads⟩
      = .ok (r, ⟨memWithStrings m header buffer sections strings, heap₃, ⟨buffer, true, header,
        decide (sections ≠ 0), sections, decide (sections ≠ 0 ∧ strings ≠ 0), strings, loaded,
        programs⟩, stringsRead m header sections strings ++ reads⟩) := by
  by_cases h0 : sections = 0
  · exact ⟨0, by simp [elfLoadStringsSection, memWithStrings, stringsRead, h0]⟩
  by_cases ht : strings = 0
  · exact ⟨0, by simp [elfLoadStringsSection, memWithStrings, stringsRead, h0, ht]⟩
  by_cases hidx : eShnum header ≤ eShstrndx header
  · rw [stringsRequest, if_pos (Or.inr hidx), h.kalloc_error] at hres
    exact absurd (Prod.mk.inj hres).1.symm ht
  · refine ⟨1, ?_⟩
    simp [elfLoadStringsSection, memWithStrings, stringsRead, h0, ht, elfGetSectionheaderByid, hidx]
    rfl

end Parse

/-! ## The whole parse -/

/-- The buffers that the heap gives the parser for a file with this header. -/
def sectionsBuffer (heap : HeapState) (header : Mem) : Nat × HeapState :=
  heap.kalloc (sizeofShdr * eShnum header)

def programsBuffer (heap : HeapState) (header : Mem) : Nat × HeapState :=
  (sectionsBuffer heap header).2.kalloc (sizeofPhdr * ePhnum header)

def stringsBuffer (heap : HeapState) (header : Mem) (size : Nat) : Nat × HeapState :=
  (programsBuffer heap header).2.kalloc size

/-- The memory after the section headers, after the program headers, and after the names. -/
def memAfterSections (m : Mem) (heap : HeapState) (header : Mem) (buffer : Nat) : Mem :=
  memWithSections m header buffer (sectionsBuffer heap header).1

def memAfterPrograms (m : Mem) (heap : HeapState) (header : Mem) (buffer : Nat) : Mem :=
  memWithPrograms (memAfterSections m heap header buffer) header buffer
    (programsBuffer heap header).1

def stringsSize (m : Mem) (heap : HeapState) (header : Mem) (buffer : Nat) : Nat :=
  stringsRequest (memAfterPrograms m heap header buffer) header (sectionsBuffer heap header).1

def memAfterStrings (m : Mem) (heap : HeapState) (header : Mem) (buffer : Nat) : Mem :=
  memWithStrings (memAfterPrograms m heap header buffer) header buffer
    (sectionsBuffer heap header).1
    (stringsBuffer heap header (stringsSize m heap header buffer)).1

/-- The `ELF` structure in the end. -/
def parsedElf (m : Mem) (heap : HeapState) (header : Mem) (buffer : Nat) : Elf where
  buffer := buffer
  headerLoaded := true
  header := header
  sectionHeadersLoaded := decide ((sectionsBuffer heap header).1 ≠ 0)
  sectionHeaders := (sectionsBuffer heap header).1
  stringsSectionLoaded := decide ((sectionsBuffer heap header).1 ≠ 0 ∧
    (stringsBuffer heap header (stringsSize m heap header buffer)).1 ≠ 0)
  stringsSection := (stringsBuffer heap header (stringsSize m heap header buffer)).1
  programHeadersLoaded := decide ((programsBuffer heap header).1 ≠ 0)
  programHeaders := (programsBuffer heap header).1

/-- The parser on a file with the right first byte, step by step. -/
theorem elfAllocAndParse_accepted {m header : Mem} {heap : HeapState} {buffer : Nat}
    (h : KernelHeapInv heap) (hheader : header = parsedHeader m buffer)
    (hmagic : header 0 = elfMagicNumber) :
    elfAllocAndParse ⟨m, heap, elfFromfilebuffer buffer, []⟩
      = .ok ⟨memAfterStrings m heap header buffer,
        (stringsBuffer heap header (stringsSize m heap header buffer)).2,
        parsedElf m heap header buffer,
        stringsRead (memAfterPrograms m heap header buffer) header (sectionsBuffer heap header).1
            (stringsBuffer heap header (stringsSize m heap header buffer)).1 ++
          (programsRead header (programsBuffer heap header).1 ++
            (sectionsRead header (sectionsBuffer heap header).1 ++
              [⟨0, sizeofEhdr, sizeofEhdr⟩]))⟩ := by
  have hparse : (elfParseheader ⟨m, heap, elfFromfilebuffer buffer, []⟩).2 = ⟨m, heap,
      { elfFromfilebuffer buffer with header := header, headerLoaded := true },
      [⟨0, sizeofEhdr, sizeofEhdr⟩]⟩ := by
    subst hheader
    rw [elfParseheader]
    exact congrArg Prod.snd (if_neg (not_not.mpr hmagic))
  have hbuffer : (elfFromfilebuffer buffer).buffer = buffer := rfl
  have h₂ : KernelHeapInv (programsBuffer heap header).2 := (h.kalloc_inv _).kalloc_inv _
  have hsections : heap.kalloc (sizeofShdr * eShnum header)
      = ((sectionsBuffer heap header).1, (sectionsBuffer heap header).2) := rfl
  have hprograms : (sectionsBuffer heap header).2.kalloc (sizeofPhdr * ePhnum header)
      = ((programsBuffer heap header).1, (programsBuffer heap header).2) := rfl
  have hstrings : (programsBuffer heap header).2.kalloc (stringsSize m heap header buffer)
      = ((stringsBuffer heap header (stringsSize m heap header buffer)).1,
        (stringsBuffer heap header (stringsSize m heap header buffer)).2) := rfl
  have hm₁ : memWithSections m header buffer (sectionsBuffer heap header).1
      = memAfterSections m heap header buffer := rfl
  have hm₂ : memWithPrograms (memAfterSections m heap header buffer) header buffer
      (programsBuffer heap header).1 = memAfterPrograms m heap header buffer := rfl
  have hsize : stringsRequest (memAfterPrograms m heap header buffer) header
      (sectionsBuffer heap header).1 = stringsSize m heap header buffer := rfl
  simp only [elfAllocAndParse, hparse, elfGetSectionheadersBytes_loaded, hsections]
  rw [elfLoadSectionheaders_eq rfl rfl]
  simp only [hbuffer, hm₁, elfGetProgramheadersBytes_loaded, hprograms]
  rw [elfLoadProgramheaders_eq rfl rfl]
  simp only [hm₂]
  rw [elfGetStringsectionsize_eq _ rfl]
  simp only [hsize, hstrings]
  obtain ⟨r, hr⟩ := elfLoadStringsSection_eq h₂ hstrings buffer
    (programsBuffer heap header).1 (decide ((programsBuffer heap header).1 ≠ 0))
    (programsRead header (programsBuffer heap header).1 ++
      (sectionsRead header (sectionsBuffer heap header).1 ++ [⟨0, sizeofEhdr, sizeofEhdr⟩]))
  exact congrArg (fun x => x >>= fun y => pure y.2) hr

/-! ## The property and its condition -/

/-- Every copy of a parse that ended with `res` is inside a file of `len` bytes, and so is the
    copy of the contents of every program header that was loaded. -/
def ElfStaysInside (len : Nat) (res : Except Fault ElfState) : Prop :=
  ∃ st, res = .ok st ∧ (∀ r ∈ st.reads, r.Inside len) ∧
    (st.elf.programHeadersLoaded = true → ∀ i, i < ePhnum st.elf.header →
      (elfProgramRead st.mem (elfGetProgramheaderByid st.elf i)).Inside len)

/-- The bytes of a table's buffer: from the file, as far as the file's sizes go, and what was there
    before. -/
def tableByte (m : Mem) (buffer offset bytes ptr : Nat) : Mem := fun j =>
  if j < bytes then m (buffer + offset + j) else m (ptr + j)

/-- The table of section headers, and the table of program headers. -/
def sectionTable (m : Mem) (heap : HeapState) (header : Mem) (buffer : Nat) : Mem :=
  tableByte m buffer (eShoff header) (eShentsize header * eShnum header)
    (sectionsBuffer heap header).1

def programTable (m : Mem) (heap : HeapState) (header : Mem) (buffer : Nat) : Mem :=
  tableByte m buffer (ePhoff header) (ePhentsize header * ePhnum header)
    (programsBuffer heap header).1

/-- What the header of an accepted file must say, for the parser to stay inside: tables that get a
    buffer are in the file and no larger than the buffer, and so are the section names and the
    contents of every program header. -/
structure TablesFit (m : Mem) (heap : HeapState) (header : Mem) (buffer len : Nat) : Prop where
  sections : (sectionsBuffer heap header).1 ≠ 0 →
    InFile len (eShoff header) (eShentsize header * eShnum header) ∧
      eShentsize header * eShnum header ≤ sizeofShdr * eShnum header
  programs : (programsBuffer heap header).1 ≠ 0 →
    InFile len (ePhoff header) (ePhentsize header * ePhnum header) ∧
      ePhentsize header * ePhnum header ≤ sizeofPhdr * ePhnum header
  strings : (sectionsBuffer heap header).1 ≠ 0 → eShstrndx header < eShnum header →
    (stringsBuffer heap header
      (shSize (sectionTable m heap header buffer) (sizeofShdr * eShstrndx header))).1 ≠ 0 →
    InFile len (shOffset (sectionTable m heap header buffer) (sizeofShdr * eShstrndx header))
      (shSize (sectionTable m heap header buffer) (sizeofShdr * eShstrndx header))
  contents : (programsBuffer heap header).1 ≠ 0 → ∀ i, i < ePhnum header →
    InFile len (pOffset (programTable m heap header buffer) (sizeofPhdr * i))
      (pMemsz (programTable m heap header buffer) (sizeofPhdr * i))

/-- The condition on the file, the memory and the heap. -/
structure ElfFits (m : Mem) (heap : HeapState) (buffer len : Nat) : Prop where
  header : sizeofEhdr ≤ len
  tables : m buffer = elfMagicNumber → TablesFit m heap (parsedHeader m buffer) buffer len

/-! ## Copy by copy -/

section Inside

variable {m : Mem} {heap : HeapState} {header : Mem} {buffer len : Nat}

theorem loadNat_two_lt (m : Mem) (a : Nat) : loadNat m a 2 < 65536 := loadNat_lt m 2 a

theorem loadNat_eight_lt (m : Mem) (a : Nat) : loadNat m a 8 < 18446744073709551616 :=
  loadNat_lt m 8 a

/-- The product of two 16-bit fields does not wrap. -/
theorem toSize_fields (m m' : Mem) (a b : Nat) :
    toSize (loadNat m a 2 * loadNat m' b 2 : Nat) = loadNat m a 2 * loadNat m' b 2 := by
  have h1 := loadNat_two_lt m a
  have h2 := loadNat_two_lt m' b
  have h3 : loadNat m a 2 * loadNat m' b 2 ≤ 65536 * 65536 := Nat.mul_le_mul (by omega) (by omega)
  exact toSize_natCast (by omega)

/-- A copy into a buffer, from inside the file: the buffer holds the table, and nothing else
    changed. -/
theorem copy_table {ptr offset size count room : Nat} (hin : InFile len offset (size * count))
    (hroom : size * count ≤ room) (hptr : ptr + room ≤ 0x50180000)
    (hbuffer : buffer + len ≤ 0x50180000) (hdisj : buffer + len ≤ ptr ∨ ptr + room ≤ buffer) :
    (∀ j, j < room → filebufferReadAtPosition m ptr offset size count buffer (ptr + j)
      = tableByte m buffer offset (size * count) ptr j) ∧
    ∀ x, x < ptr ∨ ptr + room ≤ x →
      filebufferReadAtPosition m ptr offset size count buffer x = m x := by
  unfold InFile at hin
  generalize hn : size * count = n at hin hroom
  have happly : ∀ x, filebufferReadAtPosition m ptr offset size count buffer x
      = if ptr ≤ x ∧ x < ptr + n then m (buffer + offset + (x - ptr)) else m x :=
    filebufferReadAtPosition_apply hn (by omega) (by omega) (by omega)
  refine ⟨fun j hj => ?_, fun x hx => ?_⟩
  · rw [happly, tableByte]
    by_cases hjn : j < n
    · rw [if_pos (by omega), if_pos hjn, Nat.add_sub_cancel_left]
    · rw [if_neg (by omega), if_neg hjn]
  · rw [happly, if_neg (by omega)]

/-- When the copy of the section headers is inside: the table is in the file, and no longer than what
    was asked for. -/
theorem sectionsRead_inside (hlen : len < 18446744073709551616) (sections : Nat) :
    (∀ r ∈ sectionsRead header sections, r.Inside len) ↔ (sections ≠ 0 →
      InFile len (eShoff header) (eShentsize header * eShnum header) ∧
        eShentsize header * eShnum header ≤ sizeofShdr * eShnum header) := by
  by_cases h0 : sections = 0
  · simp [sectionsRead, h0]
  · have hoff : eShoff header < 18446744073709551616 := loadNat_eight_lt _ _
    rw [sectionsRead, if_neg h0, List.forall_mem_singleton, eShentsize, eShnum, toSize_fields,
      FileRead.inside_iff hlen hoff]
    exact ⟨fun h _ => h, fun h => h h0⟩

/-- The same for the program headers. -/
theorem programsRead_inside (hlen : len < 18446744073709551616) (programs : Nat) :
    (∀ r ∈ programsRead header programs, r.Inside len) ↔ (programs ≠ 0 →
      InFile len (ePhoff header) (ePhentsize header * ePhnum header) ∧
        ePhentsize header * ePhnum header ≤ sizeofPhdr * ePhnum header) := by
  by_cases h0 : programs = 0
  · simp [programsRead, h0]
  · have hoff : ePhoff header < 18446744073709551616 := loadNat_eight_lt _ _
    rw [programsRead, if_neg h0, List.forall_mem_singleton, ePhentsize, ePhnum, toSize_fields,
      FileRead.inside_iff hlen hoff]
    exact ⟨fun h _ => h, fun h => h h0⟩

/-- The size of the section names is what was requested for them. -/
theorem stringsRead_inside (hlen : len < 18446744073709551616) (sections strings : Nat)
    (hidx : eShstrndx header < eShnum header) :
    (∀ r ∈ stringsRead m header sections strings, r.Inside len) ↔ (sections ≠ 0 → strings ≠ 0 →
      InFile len (shOffset m (sections + sizeofShdr * eShstrndx header))
        (shSize m (sections + sizeofShdr * eShstrndx header))) := by
  by_cases h0 : sections = 0
  · simp [stringsRead, h0]
  by_cases ht : strings = 0
  · simp [stringsRead, ht]
  · have hsize : toSize (shSize m (sections + sizeofShdr * eShstrndx header) * 1 : Nat)
        = shSize m (sections + sizeofShdr * eShstrndx header) := by
      rw [Nat.mul_one]
      exact toSize_natCast (loadNat_eight_lt _ _)
    have hoff : shOffset m (sections + sizeofShdr * eShstrndx header) < 18446744073709551616 :=
      loadNat_eight_lt _ _
    rw [stringsRead, if_neg (by simp [h0, ht]), List.forall_mem_singleton, hsize, stringsRequest,
      if_neg (by simp [h0, hidx]), FileRead.inside_iff hlen hoff]
    simp [h0, ht]

/-- The copy of a program takes `p_memsz` bytes of the file, not `p_filesz`. -/
theorem elfProgramRead_inside (hlen : len < 18446744073709551616) (m : Mem) (p : Nat) :
    (elfProgramRead m p).Inside len ↔ InFile len (pOffset m p) (pMemsz m p) := by
  have hsize : toSize (pMemsz m p * 1 : Nat) = pMemsz m p := by
    rw [Nat.mul_one]
    exact toSize_natCast (loadNat_eight_lt _ _)
  have hoff : pOffset m p < 18446744073709551616 := loadNat_eight_lt _ _
  rw [elfProgramRead, hsize, FileRead.inside_iff hlen hoff]
  exact and_iff_left (Nat.le_refl _)

end Inside

section Fits

variable {m : Mem} {heap : HeapState} {header : Mem} {buffer len : Nat}

/-- The buffers of the parser: inside the heap, apart from the file and from each other. -/
structure BuffersApart (heap : HeapState) (header : Mem) (buffer len : Nat) : Prop where
  sections : (sectionsBuffer heap header).1 ≠ 0 →
    (sectionsBuffer heap header).1 + sizeofShdr * eShnum header ≤ 0x50180000 ∧
    (buffer + len ≤ (sectionsBuffer heap header).1 ∨
      (sectionsBuffer heap header).1 + sizeofShdr * eShnum header ≤ buffer)
  programs : (programsBuffer heap header).1 ≠ 0 →
    (programsBuffer heap header).1 + sizeofPhdr * ePhnum header ≤ 0x50180000 ∧
    (buffer + len ≤ (programsBuffer heap header).1 ∨
      (programsBuffer heap header).1 + sizeofPhdr * ePhnum header ≤ buffer)
  tables : (sectionsBuffer heap header).1 ≠ 0 → (programsBuffer heap header).1 ≠ 0 →
    (sectionsBuffer heap header).1 + sizeofShdr * eShnum header ≤ (programsBuffer heap header).1 ∨
    (programsBuffer heap header).1 + sizeofPhdr * ePhnum header ≤ (sectionsBuffer heap header).1
  strings : ∀ size, (stringsBuffer heap header size).1 ≠ 0 →
    (stringsBuffer heap header size).1 + size ≤ 0x50180000 ∧
    (buffer + len ≤ (stringsBuffer heap header size).1 ∨
      (stringsBuffer heap header size).1 + size ≤ buffer) ∧
    ((programsBuffer heap header).1 ≠ 0 →
      (programsBuffer heap header).1 + sizeofPhdr * ePhnum header
        ≤ (stringsBuffer heap header size).1 ∨
      (stringsBuffer heap header size).1 + size ≤ (programsBuffer heap header).1)
  heap : KernelHeapInv (programsBuffer heap header).2

/-- Buffers that the heap gives out are apart from the file and from each other. -/
theorem buffersApart (h : KernelHeapInv heap) (hfile : (buffer, len) ∈ heap.live) (header : Mem) :
    BuffersApart heap header buffer len := by
  have h₁ : KernelHeapInv (sectionsBuffer heap header).2 := h.kalloc_inv _
  have h₂ : KernelHeapInv (programsBuffer heap header).2 := h₁.kalloc_inv _
  have hfile₁ : (buffer, len) ∈ (sectionsBuffer heap header).2.live :=
    HeapState.mem_kalloc_live hfile _
  have hfile₂ : (buffer, len) ∈ (programsBuffer heap header).2.live :=
    HeapState.mem_kalloc_live hfile₁ _
  -- a buffer that was given is live for the next request
  have hnew : ∀ {heap : HeapState} {size : Nat}, (heap.kalloc size).1 ≠ 0 →
      ((heap.kalloc size).1, size) ∈ (heap.kalloc size).2.live := by
    intro heap size hp
    rw [HeapState.kalloc_live, if_neg hp]
    exact List.mem_cons_self
  refine ⟨fun hs => ?_, fun hp => ?_, fun hs hp => ?_, fun size ht => ⟨?_, ?_, fun hp => ?_⟩, h₂⟩
  · exact ⟨(h.kalloc_region hs).1, (h.kalloc_region hs).2 _ hfile⟩
  · exact ⟨(h₁.kalloc_region hp).1, (h₁.kalloc_region hp).2 _ hfile₁⟩
  · exact (h₁.kalloc_region hp).2 _ (hnew hs)
  · exact (h₂.kalloc_region ht).1
  · exact (h₂.kalloc_region ht).2 _ hfile₂
  · exact (h₂.kalloc_region ht).2 _ (hnew hp)

end Fits

section Iff

variable {m : Mem} {heap : HeapState} {header : Mem} {buffer len : Nat}

/-- The memory after the two tables were loaded, when they fit: each buffer holds its table. -/
theorem tables_loaded (hapart : BuffersApart heap header buffer len)
    (hbuffer : buffer + len ≤ 0x50180000)
    (hsections : (sectionsBuffer heap header).1 ≠ 0 →
      InFile len (eShoff header) (eShentsize header * eShnum header) ∧
        eShentsize header * eShnum header ≤ sizeofShdr * eShnum header)
    (hprograms : (programsBuffer heap header).1 ≠ 0 →
      InFile len (ePhoff header) (ePhentsize header * ePhnum header) ∧
        ePhentsize header * ePhnum header ≤ sizeofPhdr * ePhnum header) :
    ((sectionsBuffer heap header).1 ≠ 0 → ∀ j, j < sizeofShdr * eShnum header →
      memAfterPrograms m heap header buffer ((sectionsBuffer heap header).1 + j)
        = sectionTable m heap header buffer j) ∧
    ((programsBuffer heap header).1 ≠ 0 → ∀ j, j < sizeofPhdr * ePhnum header →
      memAfterPrograms m heap header buffer ((programsBuffer heap header).1 + j)
        = programTable m heap header buffer j) := by
  obtain ⟨hs, hp, htables, -, -⟩ := hapart
  unfold sectionTable programTable memAfterPrograms
  obtain ⟨m₁, hm₁⟩ : ∃ m₁, m₁ = memAfterSections m heap header buffer := ⟨_, rfl⟩
  rw [← hm₁]
  unfold memAfterSections at hm₁
  generalize (sectionsBuffer heap header).1 = sections at *
  generalize (programsBuffer heap header).1 = programs at *
  -- the first table changes nothing but its own buffer
  have hfirst : (sections ≠ 0 → ∀ j, j < sizeofShdr * eShnum header → m₁ (sections + j)
        = tableByte m buffer (eShoff header) (eShentsize header * eShnum header) sections j) ∧
      ∀ x, (sections ≠ 0 → x < sections ∨ sections + sizeofShdr * eShnum header ≤ x) →
        m₁ x = m x := by
    rw [hm₁, memWithSections]
    by_cases h0 : sections = 0
    · rw [if_pos h0]
      exact ⟨fun h => absurd h0 h, fun _ _ => rfl⟩
    · rw [if_neg h0]
      obtain ⟨hin, hroom⟩ := hsections h0
      obtain ⟨hend, hdisj⟩ := hs h0
      obtain ⟨htable, hrest⟩ := copy_table (m := m) hin hroom hend hbuffer hdisj
      exact ⟨fun _ => htable, fun x hx => hrest x (hx h0)⟩
  rw [memWithPrograms]
  by_cases h0 : programs = 0
  · rw [if_pos h0]
    exact ⟨hfirst.1, fun h => absurd h0 h⟩
  · rw [if_neg h0]
    obtain ⟨hin, hroom⟩ := hprograms h0
    obtain ⟨hend, hdisj⟩ := hp h0
    obtain ⟨htable, hrest⟩ := copy_table (m := m₁) hin hroom hend hbuffer hdisj
    refine ⟨fun hne j hj => ?_, fun _ j hj => ?_⟩
    · rw [hrest _ (by have := htables hne h0; omega)]
      exact hfirst.1 hne j hj
    · rw [htable j hj, tableByte, tableByte]
      split
      · rename_i hjn
        refine hfirst.2 _ fun hne => ?_
        have := (hs hne).2
        unfold InFile at hin
        omega
      · refine hfirst.2 _ fun hne => ?_
        have := htables hne h0
        omega

end Iff

section Main

variable {m : Mem} {heap : HeapState} {header : Mem} {buffer len : Nat}

/-- Fields of a table are the same wherever the table is. -/
theorem loadNat_table {m₂ table : Mem} {ptr room a n : Nat} (hn : a + n ≤ room)
    (h : ∀ j, j < room → m₂ (ptr + j) = table j) : loadNat m₂ (ptr + a) n = loadNat table a n := by
  refine loadNat_congr fun i hi => ?_
  rw [Nat.add_assoc]
  exact h (a + i) (by omega)

/-- The property of an accepted file, copy by copy. -/
theorem elfStaysInside_copies (h : KernelHeapInv heap) (hlen : sizeofEhdr ≤ len)
    (hlen64 : len < 18446744073709551616) (hheader : header = parsedHeader m buffer)
    (hmagic : header 0 = elfMagicNumber) :
    ElfStaysInside len (elfAllocAndParse ⟨m, heap, elfFromfilebuffer buffer, []⟩) ↔
      ((∀ r ∈ sectionsRead header (sectionsBuffer heap header).1, r.Inside len) ∧
        (∀ r ∈ programsRead header (programsBuffer heap header).1, r.Inside len)) ∧
      (∀ r ∈ stringsRead (memAfterPrograms m heap header buffer) header
        (sectionsBuffer heap header).1
        (stringsBuffer heap header (stringsSize m heap header buffer)).1, r.Inside len) ∧
      ((programsBuffer heap header).1 ≠ 0 → ∀ i, i < ePhnum header →
        InFile len (pOffset (memAfterStrings m heap header buffer)
            ((programsBuffer heap header).1 + sizeofPhdr * i))
          (pMemsz (memAfterStrings m heap header buffer)
            ((programsBuffer heap header).1 + sizeofPhdr * i))) := by
  have hheader_in : (⟨0, sizeofEhdr, sizeofEhdr⟩ : FileRead).Inside len :=
    (FileRead.inside_iff hlen64 (by decide)).mpr
      ⟨Or.inr (by rw [Nat.zero_add]; exact hlen), Nat.le_refl _⟩
  have hptr : (programsBuffer heap header).1 ≠ 0 → ∀ i, elfGetProgramheaderByid
      (parsedElf m heap header buffer) i = (programsBuffer heap header).1 + sizeofPhdr * i := by
    intro hp i
    simp [elfGetProgramheaderByid, parsedElf, hp]
  rw [elfAllocAndParse_accepted h hheader hmagic]
  constructor
  · rintro ⟨st, hst, hreads, hcontents⟩
    obtain rfl := Except.ok.inj hst
    simp only [List.forall_mem_append, List.forall_mem_singleton] at hreads
    obtain ⟨h1, h2, h3, -⟩ := hreads
    refine ⟨⟨h3, h2⟩, h1, fun hp i hi => ?_⟩
    have hi' := hcontents (by simp [parsedElf, hp]) i hi
    rwa [elfProgramRead_inside hlen64, hptr hp] at hi'
  · rintro ⟨⟨h3, h2⟩, h1, hcontents⟩
    refine ⟨_, rfl, ?_, ?_⟩
    · simp only [List.forall_mem_append, List.forall_mem_singleton]
      exact ⟨h1, h2, h3, hheader_in⟩
    · intro hloaded i hi
      have hp : (programsBuffer heap header).1 ≠ 0 := by simpa [parsedElf] using hloaded
      rw [elfProgramRead_inside hlen64, hptr hp]
      exact hcontents hp i hi

/-- The names: when the two tables fit, the request and the copy are those of the section table. -/
theorem strings_iff (hapart : BuffersApart heap header buffer len)
    (hlen64 : len < 18446744073709551616)
    (htable : (sectionsBuffer heap header).1 ≠ 0 → ∀ j, j < sizeofShdr * eShnum header →
      memAfterPrograms m heap header buffer ((sectionsBuffer heap header).1 + j)
        = sectionTable m heap header buffer j) :
    (∀ r ∈ stringsRead (memAfterPrograms m heap header buffer) header
      (sectionsBuffer heap header).1
      (stringsBuffer heap header (stringsSize m heap header buffer)).1, r.Inside len) ↔
    ((sectionsBuffer heap header).1 ≠ 0 → eShstrndx header < eShnum header →
      (stringsBuffer heap header
        (shSize (sectionTable m heap header buffer) (sizeofShdr * eShstrndx header))).1 ≠ 0 →
      InFile len (shOffset (sectionTable m heap header buffer) (sizeofShdr * eShstrndx header))
        (shSize (sectionTable m heap header buffer) (sizeofShdr * eShstrndx header))) := by
  by_cases h0 : (sectionsBuffer heap header).1 = 0
  · simp [stringsRead, h0]
  by_cases hidx : eShstrndx header < eShnum header
  · have hroom : sizeofShdr * eShstrndx header + 40 ≤ sizeofShdr * eShnum header := by
      unfold sizeofShdr
      omega
    have hoffset : shOffset (memAfterPrograms m heap header buffer)
        ((sectionsBuffer heap header).1 + sizeofShdr * eShstrndx header)
          = shOffset (sectionTable m heap header buffer) (sizeofShdr * eShstrndx header) := by
      rw [shOffset, shOffset, Nat.add_assoc]
      exact loadNat_table (by omega) (htable h0)
    have hshsize : shSize (memAfterPrograms m heap header buffer)
        ((sectionsBuffer heap header).1 + sizeofShdr * eShstrndx header)
          = shSize (sectionTable m heap header buffer) (sizeofShdr * eShstrndx header) := by
      rw [shSize, shSize, Nat.add_assoc]
      exact loadNat_table (by omega) (htable h0)
    have hsize : stringsSize m heap header buffer
        = shSize (sectionTable m heap header buffer) (sizeofShdr * eShstrndx header) := by
      rw [stringsSize, stringsRequest, if_neg (by simp [h0, hidx]), hshsize]
    rw [stringsRead_inside hlen64 _ _ hidx, hsize, hoffset, hshsize]
    simp [h0, hidx]
  · -- no such section: nothing is asked for that the heap could give
    have hsize : stringsSize m heap header buffer = toSize (-1) := by
      rw [stringsSize, stringsRequest, if_pos (Or.inr (by omega))]
    have hnull : (stringsBuffer heap header (stringsSize m heap header buffer)).1 = 0 := by
      rw [stringsBuffer, hsize, hapart.heap.kalloc_error]
    simp [stringsRead, hnull, hidx]

/-- The names change nothing outside their buffer, however many there are. -/
theorem memAfterStrings_outside (h : KernelHeapInv (programsBuffer heap header).2) {x : Nat}
    (hx : (stringsBuffer heap header (stringsSize m heap header buffer)).1 ≠ 0 →
      x < (stringsBuffer heap header (stringsSize m heap header buffer)).1 ∨
      (stringsBuffer heap header (stringsSize m heap header buffer)).1
        + stringsSize m heap header buffer ≤ x) :
    memAfterStrings m heap header buffer x = memAfterPrograms m heap header buffer x := by
  rw [memAfterStrings, memWithStrings]
  split
  · rfl
  rename_i hne
  obtain ⟨hs, ht⟩ := not_or.mp hne
  have hend : (stringsBuffer heap header (stringsSize m heap header buffer)).1
      + stringsSize m heap header buffer ≤ 0x50180000 := (h.kalloc_region ht).1
  have hidx : eShstrndx header < eShnum header := by
    by_contra hidx
    have hsize : stringsSize m heap header buffer = toSize (-1) := by
      rw [stringsSize, stringsRequest, if_pos (Or.inr (by omega))]
    rw [stringsBuffer, hsize, h.kalloc_error] at ht
    exact ht rfl
  -- as many bytes are copied as were requested
  have hsize : shSize (memAfterPrograms m heap header buffer)
      ((sectionsBuffer heap header).1 + sizeofShdr * eShstrndx header) * 1
        = stringsSize m heap header buffer := by
    rw [stringsSize, stringsRequest, if_neg (by simp [hs, hidx]), Nat.mul_one]
  refine filebufferReadAtPosition_outside ?_ hend (hx ht)
  rw [hsize]
  exact Nat.le_of_eq (toSize_natCast (by omega))

/-- The names leave the table of program headers alone. -/
theorem programs_after_strings (hapart : BuffersApart heap header buffer len)
    (hp : (programsBuffer heap header).1 ≠ 0) {j : Nat} (hj : j < sizeofPhdr * ePhnum header) :
    memAfterStrings m heap header buffer ((programsBuffer heap header).1 + j)
      = memAfterPrograms m heap header buffer ((programsBuffer heap header).1 + j) := by
  refine memAfterStrings_outside hapart.heap fun ht => ?_
  have := (hapart.strings _ ht).2.2 hp
  omega

/-- An accepted file, with its header. -/
theorem elfStaysInside_iff_tablesFit (h : KernelHeapInv heap) (hfile : (buffer, len) ∈ heap.live)
    (hlen : sizeofEhdr ≤ len) (hheader : header = parsedHeader m buffer)
    (hmagic : header 0 = elfMagicNumber) :
    ElfStaysInside len (elfAllocAndParse ⟨m, heap, elfFromfilebuffer buffer, []⟩) ↔
      TablesFit m heap header buffer len := by
  have hbuffer : buffer + len ≤ 0x50180000 := (h.inside hfile).2
  have hlen64 : len < 18446744073709551616 := by omega
  have hapart := buffersApart h hfile header
  rw [elfStaysInside_copies h hlen hlen64 hheader hmagic, sectionsRead_inside hlen64,
    programsRead_inside hlen64]
  -- the fields of the program headers, once the tables stay inside
  have hfields : ((programsBuffer heap header).1 ≠ 0 → ∀ j, j < sizeofPhdr * ePhnum header →
        memAfterPrograms m heap header buffer ((programsBuffer heap header).1 + j)
          = programTable m heap header buffer j) →
      (programsBuffer heap header).1 ≠ 0 → ∀ i, i < ePhnum header → ∀ a, a + 8 ≤ sizeofPhdr →
        loadNat (memAfterStrings m heap header buffer)
            ((programsBuffer heap header).1 + sizeofPhdr * i + a) 8
          = loadNat (programTable m heap header buffer) (sizeofPhdr * i + a) 8 := by
    intro htable hp i hi a ha
    have hroom : sizeofPhdr * i + a + 8 ≤ sizeofPhdr * ePhnum header := by
      unfold sizeofPhdr at ha ⊢
      omega
    rw [Nat.add_assoc]
    refine loadNat_table hroom fun j hj => ?_
    rw [programs_after_strings hapart hp hj, htable hp j hj]
  constructor
  · rintro ⟨⟨hs, hp⟩, hstr, hcont⟩
    obtain ⟨hst, hpt⟩ := tables_loaded hapart hbuffer hs hp
    refine ⟨hs, hp, (strings_iff hapart hlen64 hst).mp hstr, fun hne i hi => ?_⟩
    have hi' := hcont hne i hi
    rwa [pOffset, pMemsz, hfields hpt hne i hi 8 (by decide),
      hfields hpt hne i hi 40 (by decide)] at hi'
  · rintro ⟨hs, hp, hstr, hcont⟩
    obtain ⟨hst, hpt⟩ := tables_loaded hapart hbuffer hs hp
    have hstr' := (strings_iff hapart hlen64 hst).mpr hstr
    refine ⟨⟨hs, hp⟩, hstr', fun hne i hi => ?_⟩
    rw [pOffset, pMemsz, hfields hpt hne i hi 8 (by decide),
      hfields hpt hne i hi 40 (by decide)]
    exact hcont hne i hi

/-- The header is read in any case. -/
theorem elfStaysInside_header (h : KernelHeapInv heap) (hlen64 : len < 18446744073709551616)
    (hs : ElfStaysInside len (elfAllocAndParse ⟨m, heap, elfFromfilebuffer buffer, []⟩)) :
    sizeofEhdr ≤ len := by
  obtain ⟨st, hst, hreads, -⟩ := hs
  have hmem : (⟨0, sizeofEhdr, sizeofEhdr⟩ : FileRead) ∈ st.reads := by
    by_cases hmagic : parsedHeader m buffer 0 = elfMagicNumber
    · rw [elfAllocAndParse_accepted h rfl hmagic] at hst
      obtain rfl := Except.ok.inj hst
      simp
    · rw [elfAllocAndParse_rejected h hmagic] at hst
      obtain rfl := Except.ok.inj hst
      simp
  have hin := (FileRead.inside_iff hlen64 (by decide)).mp (hreads _ hmem)
  rcases hin.1 with hzero | hend
  · cases hzero
  · rwa [Nat.zero_add] at hend

end Main

/-- **Where the ELF parser reads and writes.**  For every file in a region of the heap, whatever
    the memory around it holds: `elf_alloc_and_parse` and `elf_dump_program_content` of the program
    headers it loaded read inside the file and write inside the buffers they requested, if and
    only if the file has a header and the tables, names and contents that the header declares fit
    the file and the buffers. -/
theorem elf_parser_inside_iff {heap : HeapState} (hheap : kernelHeapMachine.Reach heap)
    {buffer len : Nat} (hfile : len = 0 ∨ (buffer, len) ∈ heap.live) (m : Mem) :
    ElfStaysInside len (elfAllocAndParse ⟨m, heap, elfFromfilebuffer buffer, []⟩) ↔
      ElfFits m heap buffer len := by
  have h := KernelHeapInv.reach hheap
  have hbuffer : len = 0 ∨ buffer + len ≤ 0x50180000 := hfile.imp_right fun hf => (h.inside hf).2
  have hlen64 : len < 18446744073709551616 := by omega
  by_cases hlen : sizeofEhdr ≤ len
  · have hfile' : (buffer, len) ∈ heap.live := by
      rcases hfile with rfl | hf
      · cases hlen
      · exact hf
    have hfirst : parsedHeader m buffer 0 = m buffer := by
      have hin := (h.inside hfile').2
      rw [parsedHeader, if_pos (by decide), filePosition, toSize_natCast (by omega)]
      rfl
    by_cases hmagic : m buffer = elfMagicNumber
    · rw [elfStaysInside_iff_tablesFit h hfile' hlen rfl (hfirst.trans hmagic)]
      exact ⟨fun ht => ⟨hlen, fun _ => ht⟩, fun hf => hf.tables hmagic⟩
    · refine ⟨fun _ => ⟨hlen, fun hm => absurd hm hmagic⟩, fun _ => ?_⟩
      rw [elfAllocAndParse_rejected h (by rwa [hfirst])]
      refine ⟨_, rfl, fun r hr => ?_, fun hloaded => by cases hloaded⟩
      obtain rfl := List.mem_singleton.mp hr
      exact (FileRead.inside_iff hlen64 (by decide)).mpr
        ⟨Or.inr (by rw [Nat.zero_add]; exact hlen), Nat.le_refl _⟩
  · exact ⟨fun hs => absurd (elfStaysInside_header h hlen64 hs) hlen, fun hf => absurd hf.header hlen⟩

/-- The heap after one `kalloc` on cleared memory. -/
def heapWithFile (size : Nat) : HeapState :=
  ((⟨kernelHeap, fun _ => 0, []⟩ : HeapState).kalloc size).2

/-- The heap with the file's buffer is one that a run reaches. -/
theorem heapWithFile_reach (size : Nat) : kernelHeapMachine.Reach (heapWithFile size) := by
  have h0 : kernelHeapMachine.start ⟨kernelHeap, fun _ => 0, []⟩ := ⟨⟨_, setupHeap_clear⟩, rfl⟩
  have hstep : kernelHeapMachine.step ⟨kernelHeap, fun _ => 0, []⟩ (.alloc size)
      (heapWithFile size) := HeapState.kalloc_step _ _
  exact (Machine.Reach.start h0).step hstep

/-- A program of 120 bytes at 0x40180000: a header, and one program header behind it that loads
    the whole file. -/
def smallProgram : Mem := fun x =>
  if x = 0x40180000 then 0x7f
  else if x = 0x40180000 + 32 then 64 else if x = 0x40180000 + 54 then 56
  else if x = 0x40180000 + 56 then 1
  else if x = 0x40180000 + 64 then 1 else if x = 0x40180000 + 83 then 0x80
  else if x = 0x40180000 + 96 then 120 else if x = 0x40180000 + 104 then 120
  else 0

/-- The header of the small program and what the heap gives the parser for its table, evaluated at
    once. -/
theorem smallProgram_checks : (0x40180000, 120) ∈ (heapWithFile 120).live ∧
    eShnum (parsedHeader smallProgram 0x40180000) = 0 ∧
    ePhnum (parsedHeader smallProgram 0x40180000) = 1 ∧
    ePhoff (parsedHeader smallProgram 0x40180000)
      + ePhentsize (parsedHeader smallProgram 0x40180000)
        * ePhnum (parsedHeader smallProgram 0x40180000) ≤ 120 ∧
    ePhentsize (parsedHeader smallProgram 0x40180000)
      * ePhnum (parsedHeader smallProgram 0x40180000)
      ≤ sizeofPhdr * ePhnum (parsedHeader smallProgram 0x40180000) ∧
    pOffset (programTable smallProgram (heapWithFile 120) (parsedHeader smallProgram 0x40180000)
        0x40180000) (sizeofPhdr * 0)
      + pMemsz (programTable smallProgram (heapWithFile 120) (parsedHeader smallProgram 0x40180000)
        0x40180000) (sizeofPhdr * 0) ≤ 120 := by
  decide +kernel

/-- The parser stays inside the small program. -/
theorem elf_parser_inside_iff_small : (0x40180000, 120) ∈ (heapWithFile 120).live ∧
    ElfStaysInside 120 (elfAllocAndParse
      ⟨smallProgram, heapWithFile 120, elfFromfilebuffer 0x40180000, []⟩) := by
  obtain ⟨hfile, hshnum, hphnum, hinfile, hroom, hcontents⟩ := smallProgram_checks
  refine ⟨hfile, (elf_parser_inside_iff (heapWithFile_reach 120) (Or.inr hfile)
    smallProgram).mpr ⟨by decide, fun _ => ?_⟩⟩
  have hnone : (sectionsBuffer (heapWithFile 120) (parsedHeader smallProgram 0x40180000)).1 = 0 := by
    rw [sectionsBuffer, hshnum]
    exact congrArg Prod.fst (HeapState.kalloc_zero _)
  refine ⟨fun hs => absurd hnone hs, fun _ => ⟨Or.inr hinfile, hroom⟩,
    fun hs => absurd hnone hs, fun _ i hi => ?_⟩
  obtain rfl : i = 0 := by omega
  exact Or.inr hcontents

/-- Of a file of one byte, the parser reads 64. -/
theorem elf_parser_reads_past_end : (0x40180000, 1) ∈ (heapWithFile 1).live ∧
    ¬ ElfStaysInside 1 (elfAllocAndParse
      ⟨smallProgram, heapWithFile 1, elfFromfilebuffer 0x40180000, []⟩) := by
  refine ⟨by decide +kernel, fun hs => ?_⟩
  exact absurd (elfStaysInside_header (KernelHeapInv.reach (heapWithFile_reach 1)) (by decide) hs)
    (by decide)

end TinyKernel
