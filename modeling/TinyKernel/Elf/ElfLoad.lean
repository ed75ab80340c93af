/-
  What the ELF parser leaves in memory.

  Whatever the file says, a parse whose copies are no longer than their buffers changes nothing
  but these buffers (`elfAllocAndParse_frame`).  For an ELF64 file (`Elf64`) the table of program
  headers is the file's, and all copies stay inside the file (`Elf64.parse`).

  The frame is what the other results need of the parser: a file is parsed in the middle of a heap that
  is in use, so its buffers must be new ones and nothing else may change.  That is so even for a file
  that is not an ELF file at all.  What the parser has in its hands afterwards is the file's only when
  the file is well formed, and when the buffers were granted.

  `Elf64` is the well-formedness that a program loader may ask for: a header of 64 bytes, tables that
  lie in the file, with entries of the standard sizes.  That there are section names is `HasNames`.
-/
import TinyKernel.Elf.ElfBounds

namespace TinyKernel

/-! ## Any file -/

section Frame

variable {m : Mem} {heap : HeapState} {header : Mem} {buffer x : Nat}

/-- A parse gives no region back. -/
theorem elfAllocAndParse_live {parsed : ElfState} (h : KernelHeapInv heap)
    (hparse : elfAllocAndParse ⟨m, heap, elfFromfilebuffer buffer, []⟩ = .ok parsed) :
    KernelHeapInv parsed.heap ∧ ∀ a ∈ heap.live, a ∈ parsed.heap.live := by
  by_cases hmagic : parsedHeader m buffer 0 = elfMagicNumber
  · rw [elfAllocAndParse_accepted h rfl hmagic] at hparse
    obtain rfl := Except.ok.inj hparse
    refine ⟨((h.kalloc_inv _).kalloc_inv _).kalloc_inv _, fun a ha => ?_⟩
    exact HeapState.mem_kalloc_live (HeapState.mem_kalloc_live (HeapState.mem_kalloc_live ha _) _) _
  · rw [elfAllocAndParse_rejected h hmagic] at hparse
    obtain rfl := Except.ok.inj hparse
    exact ⟨h, fun _ ha => ha⟩

/-- If there is a program header, it is in a new region. -/
theorem elfAllocAndParse_program {parsed : ElfState} (h : KernelHeapInv heap)
    (hparse : elfAllocAndParse ⟨m, heap, elfFromfilebuffer buffer, []⟩ = .ok parsed)
    (hheader : elfGetProgramheaderByid parsed.elf 0 ≠ 0) :
    (∃ size, (elfGetProgramheaderByid parsed.elf 0, size) ∈ parsed.heap.live ∧ sizeofPhdr ≤ size) ∧
      ∀ a ∈ heap.live, a.1 ≠ elfGetProgramheaderByid parsed.elf 0 := by
  by_cases hmagic : parsedHeader m buffer 0 = elfMagicNumber
  · rw [elfAllocAndParse_accepted h rfl hmagic] at hparse
    obtain rfl := Except.ok.inj hparse
    dsimp only at hheader ⊢
    generalize parsedHeader m buffer = header at *
    have h₁ : KernelHeapInv (sectionsBuffer heap header).2 := h.kalloc_inv _
    have hbuffer : (programsBuffer heap header).1 ≠ 0 := by
      intro hnull
      simp [elfGetProgramheaderByid, parsedElf, hnull] at hheader
    have hptr : elfGetProgramheaderByid (parsedElf m heap header buffer) 0
        = (programsBuffer heap header).1 := by
      simp [elfGetProgramheaderByid, parsedElf, hbuffer]
    rw [hptr]
    constructor
    · refine ⟨sizeofPhdr * ePhnum header,
        HeapState.mem_kalloc_live (HeapState.kalloc_mem hbuffer) _, ?_⟩
      have hphnum : ePhnum header ≠ 0 := by
        intro hzero
        rw [programsBuffer, hzero, Nat.mul_zero, HeapState.kalloc_zero] at hbuffer
        exact hbuffer rfl
      exact Nat.le_mul_of_pos_right sizeofPhdr (Nat.pos_of_ne_zero hphnum)
    · exact fun a ha => h₁.kalloc_fresh hbuffer a (HeapState.mem_kalloc_live ha _)
  · rw [elfAllocAndParse_rejected h hmagic] at hparse
    obtain rfl := Except.ok.inj hparse
    exact absurd rfl hheader

/-- **The frame of a parse.** -/
theorem elfAllocAndParse_frame {parsed : ElfState} (h : KernelHeapInv heap)
    (hparse : elfAllocAndParse ⟨m, heap, elfFromfilebuffer buffer, []⟩ = .ok parsed)
    (hroom : ∀ r ∈ parsed.reads, r.bytes ≤ r.room) (hx : heap.Reserved x) :
    parsed.mem x = m x := by
  by_cases hmagic : parsedHeader m buffer 0 = elfMagicNumber
  · rw [elfAllocAndParse_accepted h rfl hmagic] at hparse
    obtain rfl := Except.ok.inj hparse
    simp only [List.forall_mem_append, List.forall_mem_singleton] at hroom
    obtain ⟨-, hprograms, hsections, -⟩ := hroom
    generalize parsedHeader m buffer = header at *
    have h₁ : KernelHeapInv (sectionsBuffer heap header).2 := h.kalloc_inv _
    have h₂ : KernelHeapInv (programsBuffer heap header).2 := h₁.kalloc_inv _
    have hx₁ : (sectionsBuffer heap header).2.Reserved x := hx.kalloc _
    have hx₂ : (programsBuffer heap header).2.Reserved x := hx₁.kalloc _
    -- one copy after the other
    have hfirst : memAfterSections m heap header buffer x = m x := by
      rw [memAfterSections, memWithSections]
      split
      · rfl
      · rename_i hne
        rw [sectionsRead, if_neg hne, List.forall_mem_singleton] at hsections
        exact filebufferReadAtPosition_outside hsections (h.kalloc_region hne).1
          (h.reserved_outside hne hx)
    have hsecond : memAfterPrograms m heap header buffer x = m x := by
      rw [memAfterPrograms, memWithPrograms]
      split
      · exact hfirst
      · rename_i hne
        rw [programsRead, if_neg hne, List.forall_mem_singleton] at hprograms
        exact (filebufferReadAtPosition_outside hprograms (h₁.kalloc_region hne).1
          (h₁.reserved_outside hne hx₁)).trans hfirst
    show memAfterStrings m heap header buffer x = m x
    rw [memAfterStrings_outside h₂ fun hstr => h₂.reserved_outside hstr hx₂]
    exact hsecond
  · rw [elfAllocAndParse_rejected h hmagic] at hparse
    obtain rfl := Except.ok.inj hparse
    rfl

end Frame

/-! ## An ELF64 file -/

/-- `file` is an ELF64 file of `len` bytes: its header and its tables are inside, with the sizes of
    ELF64, and so are the section names if there are any. -/
structure Elf64 (file : Mem) (len : Nat) : Prop where
  header : sizeofEhdr ≤ len
  magic : file 0 = elfMagicNumber
  phnum : 0 < ePhnum file
  phentsize : ePhentsize file = sizeofPhdr
  programs : ePhoff file + sizeofPhdr * ePhnum file ≤ len
  sections : eShnum file ≠ 0 → eShentsize file = sizeofShdr ∧
    eShoff file + sizeofShdr * eShnum file ≤ len
  names : eShstrndx file < eShnum file →
    shOffset file (eShoff file + sizeofShdr * eShstrndx file) +
      shSize file (eShoff file + sizeofShdr * eShstrndx file) ≤ len

namespace Elf64

variable {m file : Mem} {heap : HeapState} {buffer len : Nat}

/-- The header structure has the fields of the file. -/
theorem header_field (helf : Elf64 file len) (hbuffer : buffer + len ≤ 0x50180000)
    (hm : ∀ i, i < len → m (buffer + i) = file i) {a n : Nat} (han : a + n ≤ sizeofEhdr) :
    loadNat (parsedHeader m buffer) a n = loadNat file a n := by
  have hlen := helf.header
  refine loadNat_congr fun i hi => ?_
  rw [parsedHeader, if_pos (by omega), filePosition, toSize_natCast (by omega), Nat.add_zero,
    hm _ (by omega)]

/-- A field of a table that was copied from the file. -/
theorem table_field {ptr offset bytes a n : Nat} (hm : ∀ i, i < len → m (buffer + i) = file i)
    (hin : offset + bytes ≤ len) (han : a + n ≤ bytes) :
    loadNat (tableByte m buffer offset bytes ptr) a n = loadNat file (offset + a) n := by
  refine loadNat_congr fun i hi => ?_
  rw [tableByte, if_pos (by omega), Nat.add_assoc buffer, hm _ (by omega), Nat.add_assoc]

/-- The buffer of the program headers is none of the regions that were there. -/
theorem programsBuffer_fresh (h : KernelHeapInv heap) (hbuffer : (programsBuffer heap file).1 ≠ 0)
    {a : Nat × Nat} (ha : a ∈ heap.live) : a.1 ≠ (programsBuffer heap file).1 :=
  (h.kalloc_inv _).kalloc_fresh hbuffer a (HeapState.mem_kalloc_live ha _)

/-- The header structure has the same tables as the file. -/
structure SameTables (header file : Mem) : Prop where
  phoff : ePhoff header = ePhoff file
  phentsize : ePhentsize header = ePhentsize file
  phnum : ePhnum header = ePhnum file
  shoff : eShoff header = eShoff file
  shentsize : eShentsize header = eShentsize file
  shnum : eShnum header = eShnum file
  shstrndx : eShstrndx header = eShstrndx file

/-- The header in the parser's copy describes the tables that the file describes. -/
theorem sameTables (helf : Elf64 file len) (hbuffer : buffer + len ≤ 0x50180000)
    (hm : ∀ i, i < len → m (buffer + i) = file i) : SameTables (parsedHeader m buffer) file where
  phoff := helf.header_field hbuffer hm (by decide)
  phentsize := helf.header_field hbuffer hm (by decide)
  phnum := helf.header_field hbuffer hm (by decide)
  shoff := helf.header_field hbuffer hm (by decide)
  shentsize := helf.header_field hbuffer hm (by decide)
  shnum := helf.header_field hbuffer hm (by decide)
  shstrndx := helf.header_field hbuffer hm (by decide)

/-- An ELF64 file is accepted. -/
theorem accepted (helf : Elf64 file len) (hbuffer : buffer + len ≤ 0x50180000)
    (hm : ∀ i, i < len → m (buffer + i) = file i) : parsedHeader m buffer 0 = elfMagicNumber := by
  have hlen : 64 ≤ len := helf.header
  rw [parsedHeader, if_pos (by decide), filePosition, toSize_natCast (by omega), Nat.add_zero]
  exact (hm 0 (by omega)).trans helf.magic

/-- The buffers depend on the numbers of headers only. -/
theorem programsBuffer_congr {header : Mem} (hsame : SameTables header file) :
    programsBuffer heap header = programsBuffer heap file := by
  rw [programsBuffer, programsBuffer, sectionsBuffer, sectionsBuffer, hsame.shnum, hsame.phnum]

/-- The tables are in the file, and as large as their buffers. -/
theorem sections_inFile (helf : Elf64 file len) {header : Mem} (hsame : SameTables header file)
    (hne : (sectionsBuffer heap header).1 ≠ 0) :
    InFile len (eShoff header) (eShentsize header * eShnum header) ∧
      eShentsize header * eShnum header ≤ sizeofShdr * eShnum header := by
  have hnum : eShnum file ≠ 0 := by
    intro hzero
    rw [sectionsBuffer, hsame.shnum, hzero, Nat.mul_zero, HeapState.kalloc_zero] at hne
    exact hne rfl
  obtain ⟨hsize, hin⟩ := helf.sections hnum
  rw [hsame.shentsize, hsize, hsame.shoff, hsame.shnum]
  exact ⟨Or.inr hin, Nat.le_refl _⟩

/-- The copy of the program headers is inside the file and fits its buffer. -/
theorem programs_inFile (helf : Elf64 file len) {header : Mem} (hsame : SameTables header file) :
    InFile len (ePhoff header) (ePhentsize header * ePhnum header) ∧
      ePhentsize header * ePhnum header ≤ sizeofPhdr * ePhnum header := by
  rw [hsame.phentsize, helf.phentsize, hsame.phoff, hsame.phnum]
  exact ⟨Or.inr helf.programs, Nat.le_refl _⟩

/-- A field of the section header of the names, in the table that was copied. -/
theorem names_field (helf : Elf64 file len) {header : Mem} (hsame : SameTables header file)
    (hm : ∀ i, i < len → m (buffer + i) = file i) (hidx : eShstrndx file < eShnum file) {a : Nat}
    (ha : a + 8 ≤ sizeofShdr) :
    loadNat (sectionTable m heap header buffer) (sizeofShdr * eShstrndx file + a) 8
      = loadNat file (eShoff file + sizeofShdr * eShstrndx file + a) 8 := by
  obtain ⟨hsize, hin⟩ := helf.sections (by omega)
  have hroom : sizeofShdr * eShstrndx file + sizeofShdr ≤ sizeofShdr * eShnum file :=
    Nat.mul_le_mul_left sizeofShdr hidx
  rw [sectionTable, hsame.shentsize, hsize, hsame.shoff, hsame.shnum,
    table_field hm hin (by omega), Nat.add_assoc]

/-- **The parse of an ELF64 file** that gets a buffer for its program headers. -/
theorem parse (helf : Elf64 file len) (h : KernelHeapInv heap) (hfile : (buffer, len) ∈ heap.live)
    (hm : ∀ i, i < len → m (buffer + i) = file i) (hbuffer : (programsBuffer heap file).1 ≠ 0) :
    ∃ parsed, elfAllocAndParse ⟨m, heap, elfFromfilebuffer buffer, []⟩ = .ok parsed ∧
      (∀ r ∈ parsed.reads, r.Inside len) ∧ parsed.elf.buffer = buffer ∧
      elfGetProgramheaderByid parsed.elf 0 = (programsBuffer heap file).1 ∧
      (∃ size, ((programsBuffer heap file).1, size) ∈ parsed.heap.live ∧ sizeofPhdr ≤ size) ∧
      ∀ a n, a + n ≤ sizeofPhdr →
        loadNat parsed.mem ((programsBuffer heap file).1 + a) n
          = loadNat file (ePhoff file + a) n := by
  have hend : buffer + len ≤ 0x50180000 := (h.inside hfile).2
  have hlen : 64 ≤ len := helf.header
  have hlen64 : len < 18446744073709551616 := by omega
  have hsame := helf.sameTables hend hm
  have haccepted := elfAllocAndParse_accepted h rfl (helf.accepted hend hm)
  have hapart := buffersApart h hfile (parsedHeader m buffer)
  generalize parsedHeader m buffer = header at *
  rw [← programsBuffer_congr hsame] at hbuffer ⊢
  obtain ⟨hst, hpt⟩ := tables_loaded hapart hend (helf.sections_inFile hsame)
    (fun _ => helf.programs_inFile hsame) (m := m)
  have hstrings : ∀ r ∈ stringsRead (memAfterPrograms m heap header buffer) header
      (sectionsBuffer heap header).1
      (stringsBuffer heap header (stringsSize m heap header buffer)).1, r.Inside len := by
    refine (strings_iff hapart hlen64 hst).mpr fun _ hidx _ => Or.inr ?_
    rw [hsame.shstrndx, hsame.shnum] at hidx
    have hnames := helf.names hidx
    rw [shOffset, shSize] at hnames
    rw [hsame.shstrndx, shOffset, shSize, helf.names_field hsame hm hidx (by decide),
      helf.names_field hsame hm hidx (by decide)]
    exact hnames
  have hphdr : sizeofPhdr * 1 ≤ sizeofPhdr * ePhnum header := by
    rw [hsame.phnum]
    exact Nat.mul_le_mul_left sizeofPhdr helf.phnum
  refine ⟨_, haccepted, ?_, rfl, ?_, ⟨sizeofPhdr * ePhnum header, ?_, by omega⟩, fun a n han => ?_⟩
  · simp only [List.forall_mem_append, List.forall_mem_singleton]
    refine ⟨hstrings, (programsRead_inside hlen64 _).mpr fun _ => helf.programs_inFile hsame,
      (sectionsRead_inside hlen64 _).mpr (helf.sections_inFile hsame), ?_⟩
    exact (FileRead.inside_iff hlen64 (by decide)).mpr ⟨Or.inr hlen, Nat.le_refl _⟩
  · simp [elfGetProgramheaderByid, parsedElf, hbuffer]
  · exact HeapState.mem_kalloc_live (HeapState.kalloc_mem hbuffer) _
  · have hprogram : loadNat (memAfterStrings m heap header buffer)
        ((programsBuffer heap header).1 + a) n = loadNat (programTable m heap header buffer) a n := by
      refine loadNat_table (Nat.le_trans han (Nat.mul_one sizeofPhdr ▸ hphdr)) fun j hj => ?_
      rw [programs_after_strings hapart hbuffer hj, hpt hbuffer j hj]
    rw [programTable, hsame.phentsize, helf.phentsize, hsame.phoff, hsame.phnum] at hprogram
    rw [hsame.phnum] at hphdr
    exact hprogram.trans (table_field hm helf.programs (by omega))

/-- The buffers of a file that has section names. -/
theorem parse_buffers (helf : Elf64 file len) (h : KernelHeapInv heap)
    (hfile : (buffer, len) ∈ heap.live) (hm : ∀ i, i < len → m (buffer + i) = file i)
    (hidx : eShstrndx file < eShnum file) (hsections : (sectionsBuffer heap file).1 ≠ 0)
    {parsed : ElfState}
    (hparse : elfAllocAndParse ⟨m, heap, elfFromfilebuffer buffer, []⟩ = .ok parsed) :
    parsed.elf.sectionHeaders = (sectionsBuffer heap file).1 ∧
      parsed.elf.programHeaders = (programsBuffer heap file).1 ∧
      (parsed.elf.stringsSection, parsed.heap) = (programsBuffer heap file).2.kalloc
        (shSize file (eShoff file + sizeofShdr * eShstrndx file)) := by
  have hend : buffer + len ≤ 0x50180000 := (h.inside hfile).2
  have hsame := helf.sameTables hend hm
  rw [elfAllocAndParse_accepted h rfl (helf.accepted hend hm)] at hparse
  have hapart := buffersApart h hfile (parsedHeader m buffer)
  generalize parsedHeader m buffer = header at *
  obtain rfl := Except.ok.inj hparse
  have hsections_eq : sectionsBuffer heap header = sectionsBuffer heap file := by
    rw [sectionsBuffer, sectionsBuffer, hsame.shnum]
  rw [← hsections_eq] at hsections ⊢
  rw [← programsBuffer_congr hsame]
  refine ⟨rfl, rfl, ?_⟩
  obtain ⟨hst, -⟩ := tables_loaded hapart hend (helf.sections_inFile hsame)
    (fun _ => helf.programs_inFile hsame) (m := m)
  have hroom : sizeofShdr * eShstrndx file + sizeofShdr ≤ sizeofShdr * eShnum header := by
    rw [hsame.shnum]
    exact Nat.mul_le_mul_left sizeofShdr hidx
  have hsize : stringsSize m heap header buffer
      = shSize file (eShoff file + sizeofShdr * eShstrndx file) := by
    have hfield : 32 + 8 ≤ sizeofShdr := by decide
    rw [stringsSize, stringsRequest, if_neg (by rw [hsame.shnum, hsame.shstrndx]; omega), shSize,
      shSize, hsame.shstrndx, Nat.add_assoc (sectionsBuffer heap header).1,
      loadNat_table (by omega) (hst hsections), helf.names_field hsame hm hidx hfield]
  rw [← hsize]
  rfl

/-- A file with section names in a heap with room: the parser gets all three buffers. -/
theorem parse_room (helf : Elf64 file len) (h : KernelHeapInv heap)
    (hfile : (buffer, len) ∈ heap.live) (hm : ∀ i, i < len → m (buffer + i) = file i)
    (hidx : eShstrndx file < eShnum file)
    (hnames : shSize file (eShoff file + sizeofShdr * eShstrndx file) ≠ 0) {b : Nat}
    (hfree : heap.FreeFrom b)
    (hroom : b + allocBlocks (sizeofShdr * eShnum file) + allocBlocks (sizeofPhdr * ePhnum file)
      + allocBlocks (shSize file (eShoff file + sizeofShdr * eShstrndx file)) ≤ 0x10000)
    {parsed : ElfState}
    (hparse : elfAllocAndParse ⟨m, heap, elfFromfilebuffer buffer, []⟩ = .ok parsed) :
    parsed.elf.sectionHeaders ≠ 0 ∧ parsed.elf.programHeaders ≠ 0 ∧ parsed.elf.stringsSection ≠ 0 ∧
      parsed.heap.FreeFrom (b + allocBlocks (sizeofShdr * eShnum file)
        + allocBlocks (sizeofPhdr * ePhnum file)
        + allocBlocks (shSize file (eShoff file + sizeofShdr * eShstrndx file))) := by
  have hpos : ∀ size n, 0 < size → 0 < n → size * n ≠ 0 :=
    fun _ _ hsize hn => Nat.ne_of_gt (Nat.mul_pos hsize hn)
  obtain ⟨hsections, hfree₁⟩ := h.kalloc_room hfree
    (hpos sizeofShdr (eShnum file) (by decide) (by omega)) (by omega)
  obtain ⟨hprograms, hfree₂⟩ := (h.kalloc_inv _).kalloc_room hfree₁
    (hpos sizeofPhdr (ePhnum file) (by decide) helf.phnum) (by omega)
  obtain ⟨hstrings, hfree₃⟩ := ((h.kalloc_inv _).kalloc_inv _).kalloc_room hfree₂ hnames hroom
  obtain ⟨hs, hp, hrest⟩ := helf.parse_buffers h hfile hm hidx hsections hparse
  obtain ⟨hstr, hheap⟩ := Prod.mk.inj hrest
  rw [hs, hp, hstr, hheap]
  exact ⟨hsections, hprograms, hstrings, hfree₃⟩

end Elf64

end TinyKernel
