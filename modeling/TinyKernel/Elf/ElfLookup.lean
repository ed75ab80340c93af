/-
  Looking up headers in a parsed ELF file: sections by name, and both tables by index.

  `elf_get_sectionheader_byname` does not compare the name with the names of the sections.  It looks
  for the name among the strings that BEGIN in the string table, and then for a section whose
  `sh_name` is where the first of them begins.  A section that is named by the tail of another
  string, or by a second copy of its own, is not found (`elf_section_byname_iff`).

  The tables are copied with the stride of the file and read with the stride of the structures.  The
  section headers are checked against their number, the program headers against nothing, so there
  is no file with a program header for which both accessors do what their comments say
  (`elf_headers_decoded_iff`).
-/
import TinyKernel.Elf.ElfBounds
import TinyKernel.Str

namespace TinyKernel

/-! ## The source -/

/-- `sh_name` of a section header at `p`. -/
def shName (m : Mem) (p : Nat) : Nat := loadNat m p 4

/-- The loop of `elf_get_sectionheader_bynameoffset`, with so many headers left. -/
def elfBynameoffsetLoop (m : Mem) (index : Nat) : Nat → Nat → Nat
  | 0, _ => 0
  | left + 1, ptr =>
    if shName m ptr = index then ptr else elfBynameoffsetLoop m index left (ptr + sizeofShdr)

/-- `elf_get_sectionheader_bynameoffset`; the comparison is one of `uint32_t`. -/
def elfGetSectionheaderBynameoffset (m : Mem) (elf : Elf) (index : Int) : Nat :=
  if ¬ elf.sectionHeadersLoaded then 0
  else elfBynameoffsetLoop m (toUint32 index) (eShnum elf.header) elf.sectionHeaders

/-- The loop of `elf_get_sectionheader_byname`, with so many characters left: `i` is
    `current_char_index` and `first` is `current_string_first_index`. -/
def elfBynameLoop (m : Mem) (elf : Elf) (name : List Byte) : Nat → Nat → Int → Nat
  | 0, _, _ => 0
  | left + 1, i, first =>
    if m (toSize (elf.stringsSection + i : Nat)) ≠ 0 then elfBynameLoop m elf name left (i + 1) first
    else if strcmp name m (toSize (elf.stringsSection + first)) = 0 then
      elfGetSectionheaderBynameoffset m elf first
    else elfBynameLoop m elf name left (i + 1) (toInt32 (i + 1 : Nat))

/-- `elf_get_sectionheader_byname`; 0 is `NULL`. -/
def elfGetSectionheaderByname (m : Mem) (elf : Elf) (name : List Byte) : Nat :=
  if ¬ elf.stringsSectionLoaded then 0
  else elfBynameLoop m elf name (elfGetStringsectionsize m elf) 0 0

/-- `elf_get_programheader_byid` of any `int`. -/
def elfGetProgramheader (elf : Elf) (index : Int) : Nat :=
  if ¬ elf.programHeadersLoaded then 0 else toSize (elf.programHeaders + sizeofPhdr * index)

/-! ## Sections by name -/

/-- A parsed ELF file in kernel memory whose string table is one: it has bytes, and begins and ends
    with a 0, and every section is named by one of its bytes.  The tables are loaded where `kalloc`
    had memory for them. -/
structure NamesLoaded (m : Mem) (elf : Elf) (size : Nat) : Prop where
  sectionsLoaded : elf.sectionHeadersLoaded = true
  sections_ne : elf.sectionHeaders ≠ 0
  stringsLoaded : elf.stringsSectionLoaded = true
  size_eq : elfGetStringsectionsize m elf = size
  region : ∃ heap, kernelHeapMachine.Reach heap ∧ (elf.stringsSection, size) ∈ heap.live
  size_pos : 0 < size
  first : m elf.stringsSection = 0
  last : m (elf.stringsSection + (size - 1)) = 0
  inside : ∀ i, i < eShnum elf.header → shName m (elf.sectionHeaders + sizeofShdr * i) < size

/-- Section `i` has this name. -/
def SectionNamed (m : Mem) (elf : Elf) (name : List Byte) (i : Nat) : Prop :=
  CStringAt m (elf.stringsSection + shName m (elf.sectionHeaders + sizeofShdr * i)) name

/-- `elf_get_sectionheader_byname` finds a section with the name if there is one, and returns `NULL`
    if there is none. -/
structure SectionFound (m : Mem) (elf : Elf) (name : List Byte) : Prop where
  found : (∃ i, i < eShnum elf.header ∧ SectionNamed m elf name i) → ∃ i, i < eShnum elf.header ∧
    elfGetSectionheaderByname m elf name = elf.sectionHeaders + sizeofShdr * i ∧
      SectionNamed m elf name i
  missing : (∀ i, i < eShnum elf.header → ¬ SectionNamed m elf name i) →
    elfGetSectionheaderByname m elf name = 0

/-- A string of the table begins at `t`. -/
def StringStart (m : Mem) (strings t : Nat) : Prop := t = 0 ∨ m (strings + (t - 1)) = 0

/-- The first string of the table that has these characters begins at `t`. -/
structure FirstString (m : Mem) (strings size : Nat) (name : List Byte) (t : Nat) : Prop where
  lt : t < size
  begins : StringStart m strings t
  string : CStringAt m (strings + t) name
  least : ∀ t', t' < t → StringStart m strings t' → ¬ CStringAt m (strings + t') name

section Name

variable {m : Mem} {elf : Elf} {size : Nat} {name : List Byte}

/-- The first section with this `sh_name`, or `NULL`. -/
theorem elfBynameoffsetLoop_spec (index : Nat) : ∀ (left ptr : Nat),
    (∃ i, i < left ∧ shName m (ptr + sizeofShdr * i) = index ∧
      elfBynameoffsetLoop m index left ptr = ptr + sizeofShdr * i) ∨
    ((∀ i, i < left → shName m (ptr + sizeofShdr * i) ≠ index) ∧
      elfBynameoffsetLoop m index left ptr = 0) := by
  intro left
  induction left with
  | zero =>
    intro ptr
    exact Or.inr ⟨fun i hi => absurd hi (Nat.not_lt_zero i), rfl⟩
  | succ left ih =>
    intro ptr
    rw [elfBynameoffsetLoop]
    by_cases hname : shName m ptr = index
    · rw [if_pos hname]
      exact Or.inl ⟨0, Nat.succ_pos left, hname, rfl⟩
    · rw [if_neg hname]
      have hnext : ∀ i, ptr + sizeofShdr + sizeofShdr * i = ptr + sizeofShdr * (i + 1) := by
        intro i
        rw [Nat.mul_succ]
        omega
      rcases ih (ptr + sizeofShdr) with ⟨i, hi, hfound, hres⟩ | ⟨hnone, hres⟩
      · rw [hnext] at hfound hres
        exact Or.inl ⟨i + 1, Nat.succ_lt_succ hi, hfound, hres⟩
      · refine Or.inr ⟨fun i hi => ?_, hres⟩
        cases i with
        | zero => exact hname
        | succ i =>
          rw [← hnext]
          exact hnone i (Nat.lt_of_succ_lt_succ hi)

/-- **What the scan of the table finds**: the section that is named by the first string with these
    characters, and `NULL` without such a string. -/
theorem elfBynameLoop_spec (h : NamesLoaded m elf size) (hname : 0 ∉ name) :
    ∀ (left i first : Nat), i + left = size → first ≤ i →
    StringStart m elf.stringsSection first →
    (∀ j, first ≤ j → j < i → m (elf.stringsSection + j) ≠ 0) →
    (∀ t, t < first → StringStart m elf.stringsSection t →
      ¬ CStringAt m (elf.stringsSection + t) name) →
    (∃ t, FirstString m elf.stringsSection size name t ∧
      elfBynameLoop m elf name left i first = elfGetSectionheaderBynameoffset m elf t) ∨
    ((∀ t, t < size → StringStart m elf.stringsSection t →
      ¬ CStringAt m (elf.stringsSection + t) name) ∧ elfBynameLoop m elf name left i first = 0) := by
  obtain ⟨heap, hreach, hlive⟩ := h.region
  have hend := ((KernelHeapInv.reach hreach).inside hlive).2
  have hstart := ((KernelHeapInv.reach hreach).inside hlive).1
  dsimp only at hend hstart
  intro left
  induction left with
  | zero =>
    intro i first hi hle _ hchars hearlier
    refine Or.inr ⟨fun t ht hstart => ?_, rfl⟩
    by_cases hbefore : t < first
    · exact hearlier t hbefore hstart
    · -- the table ends with a 0, so that nothing is left of it
      exact absurd h.last (hchars (size - 1) (by omega) (by omega))
  | succ left ih =>
    intro i first hi hle hfirst hchars hearlier
    have haddr : toSize ((elf.stringsSection + i : Nat) : Int) = elf.stringsSection + i :=
      toSize_natCast (by omega)
    have hstring : toSize ((elf.stringsSection : Int) + (first : Nat))
        = elf.stringsSection + first := by
      rw [← Int.natCast_add]
      exact toSize_natCast (by omega)
    rw [elfBynameLoop, haddr, hstring]
    by_cases hzero : m (elf.stringsSection + i) = 0
    · rw [if_neg (not_not.mpr hzero)]
      by_cases hsame : strcmp name m (elf.stringsSection + first) = 0
      · rw [if_pos hsame]
        exact Or.inl ⟨first, ⟨by omega, hfirst, (strcmp_eq_zero hname).mp hsame, hearlier⟩, rfl⟩
      · have hnext : toInt32 ((i + 1 : Nat) : Int) = (i + 1 : Nat) :=
          toInt32_of_range (by omega) (by omega)
        rw [if_neg hsame, hnext]
        refine ih (i + 1) (i + 1) (by omega) (Nat.le_refl _) ?_ ?_ ?_
        · right
          rw [Nat.add_sub_cancel]
          exact hzero
        · intro j h1 h2
          omega
        · intro t ht hbegins
          rcases Nat.lt_trichotomy t first with hlt | rfl | hgt
          · exact hearlier t hlt hbegins
          · exact fun hat => hsame ((strcmp_eq_zero hname).mpr hat)
          · rcases hbegins with rfl | hbefore
            · omega
            · exact absurd hbefore (hchars (t - 1) (by omega) (by omega))
    · rw [if_pos hzero]
      refine ih (i + 1) first (by omega) (by omega) hfirst ?_ hearlier
      intro j h1 h2
      by_cases hj : j = i
      · rw [hj]
        exact hzero
      · exact hchars j h1 (by omega)

/-- The first string is the only one of its kind. -/
theorem FirstString.unique {strings t t' : Nat} (h : FirstString m strings size name t)
    (h' : FirstString m strings size name t') : t = t' := by
  rcases Nat.lt_trichotomy t t' with hlt | heq | hgt
  · exact absurd h.string (h'.least t hlt h.begins)
  · exact heq
  · exact absurd h'.string (h.least t' hgt h'.begins)

/-- The lookup returns a section whose `sh_name` is where the first string with these characters
    begins, and `NULL` if there is no such section. -/
theorem elfGetSectionheaderByname_spec (h : NamesLoaded m elf size) (hname : 0 ∉ name) :
    (∃ i, i < eShnum elf.header ∧ FirstString m elf.stringsSection size name
        (shName m (elf.sectionHeaders + sizeofShdr * i)) ∧
      elfGetSectionheaderByname m elf name = elf.sectionHeaders + sizeofShdr * i) ∨
    ((∀ i, i < eShnum elf.header → ¬ FirstString m elf.stringsSection size name
        (shName m (elf.sectionHeaders + sizeofShdr * i))) ∧
      elfGetSectionheaderByname m elf name = 0) := by
  obtain ⟨heap, hreach, hlive⟩ := h.region
  have hend := ((KernelHeapInv.reach hreach).inside hlive).2
  dsimp only at hend
  have hbyname : elfGetSectionheaderByname m elf name = elfBynameLoop m elf name size 0 0 := by
    rw [elfGetSectionheaderByname, h.size_eq]
    exact if_neg (not_not.mpr h.stringsLoaded)
  rw [hbyname]
  rcases elfBynameLoop_spec h hname size 0 0 (Nat.zero_add size) (Nat.le_refl 0) (Or.inl rfl)
    (fun j _ hj => absurd hj (Nat.not_lt_zero j)) (fun t ht => absurd ht (Nat.not_lt_zero t)) with
    ⟨t, ht, hres⟩ | ⟨hnone, hres⟩
  · have hcast : toUint32 (t : Int) = t := toUint32_natCast (by have := ht.lt; omega)
    have hoffset : elfGetSectionheaderBynameoffset m elf t
        = elfBynameoffsetLoop m t (eShnum elf.header) elf.sectionHeaders := by
      rw [elfGetSectionheaderBynameoffset, hcast]
      exact if_neg (not_not.mpr h.sectionsLoaded)
    rw [hoffset] at hres
    rcases elfBynameoffsetLoop_spec (m := m) t (eShnum elf.header) elf.sectionHeaders with
      ⟨i, hi, hat, hfound⟩ | ⟨hnone, hnull⟩
    · refine Or.inl ⟨i, hi, ?_, hres.trans hfound⟩
      rw [hat]
      exact ht
    · exact Or.inr ⟨fun i hi hfirst => hnone i hi (hfirst.unique ht), hres.trans hnull⟩
  · exact Or.inr ⟨fun i _ hfirst => hnone _ hfirst.lt hfirst.begins hfirst.string, hres⟩

/-- **Sections by name.**  For every parsed file with a well-formed string table and every name: the
    lookup is right if and only if, in case some section has the name, some section's `sh_name` is
    where the first string with these characters begins. -/
theorem elf_section_byname_iff (h : NamesLoaded m elf size) (hname : 0 ∉ name) :
    SectionFound m elf name ↔
      ((∃ i, i < eShnum elf.header ∧ SectionNamed m elf name i) → ∃ i, i < eShnum elf.header ∧
        FirstString m elf.stringsSection size name
          (shName m (elf.sectionHeaders + sizeofShdr * i))) := by
  constructor
  · rintro ⟨hfound, -⟩ hsome
    obtain ⟨i, -, hres, -⟩ := hfound hsome
    rcases elfGetSectionheaderByname_spec h hname with ⟨j, hj, hfirst, -⟩ | ⟨-, hnull⟩
    · exact ⟨j, hj, hfirst⟩
    · have := h.sections_ne
      omega
  · intro hcond
    constructor
    · intro hsome
      obtain ⟨i, hi, hfirst⟩ := hcond hsome
      rcases elfGetSectionheaderByname_spec h hname with ⟨j, hj, hat, hres⟩ | ⟨hnone, -⟩
      · exact ⟨j, hj, hres, hat.string⟩
      · exact absurd hfirst (hnone i hi)
    · intro hno
      rcases elfGetSectionheaderByname_spec h hname with ⟨j, hj, hat, -⟩ | ⟨-, hnull⟩
      · exact absurd hat.string (hno j hj)
      · exact hnull

end Name

/-- A parsed file with two sections, `.rela.text` and `.text`, of which the second is named by the
    tail of the first's name: the string table is at 0x40180000, and the headers at 0x40181000. -/
def tailNames : Mem := fun x =>
  if 0x40181000 ≤ x then
    ([1] ++ List.replicate 31 0 ++ [12] ++ List.replicate 31 0 ++ [6]).getD (x - 0x40181000) 0
  else if 0x40180000 ≤ x then
    [0, 0x2e, 0x72, 0x65, 0x6c, 0x61, 0x2e, 0x74, 0x65, 0x78, 0x74, 0].getD (x - 0x40180000) 0
  else 0

def tailElf : Elf where
  buffer := 0
  headerLoaded := true
  header := fun i => if i = 60 then 2 else 0
  sectionHeadersLoaded := true
  sectionHeaders := 0x40181000
  stringsSectionLoaded := true
  stringsSection := 0x40180000
  programHeadersLoaded := false
  programHeaders := 0

/-- What the file holds, evaluated at once: the string table and the names in it. -/
theorem tailNames_checks : elfGetStringsectionsize tailNames tailElf = 12 ∧
    (tailElf.stringsSection, 12) ∈ (heapWithFile 12).live ∧
    tailNames tailElf.stringsSection = 0 ∧ tailNames (tailElf.stringsSection + (12 - 1)) = 0 ∧
    eShnum tailElf.header = 2 ∧
    (∀ i, i < 2 → shName tailNames (tailElf.sectionHeaders + sizeofShdr * i) < 12) ∧
    shName tailNames (tailElf.sectionHeaders + sizeofShdr * 0) = 1 := by
  decide +kernel

theorem tailNames_loaded : NamesLoaded tailNames tailElf 12 := by
  obtain ⟨hsize, hlive, hfirst, hlast, hshnum, hinside, -⟩ := tailNames_checks
  constructor
  case sectionsLoaded => rfl
  case sections_ne => decide
  case stringsLoaded => rfl
  case size_eq => exact hsize
  case region => exact ⟨heapWithFile 12, heapWithFile_reach 12, hlive⟩
  case size_pos => decide
  case first => exact hfirst
  case last => exact hlast
  case inside => exact fun i hi => hinside i (hshnum ▸ hi)

/-- `.rela.text` is found. -/
theorem elf_section_byname_rela :
    SectionFound tailNames tailElf [0x2e, 0x72, 0x65, 0x6c, 0x61, 0x2e, 0x74, 0x65, 0x78, 0x74] := by
  refine (elf_section_byname_iff tailNames_loaded (by decide)).mpr fun _ => ⟨0, by decide, ?_⟩
  obtain ⟨-, -, -, -, -, -, hname⟩ := tailNames_checks
  rw [hname]
  refine ⟨by decide, Or.inr (by decide +kernel), ?_, ?_⟩
  · exact (strcmp_eq_zero (by decide)).mp (by decide +kernel)
  · intro t ht _ hstring
    obtain rfl : t = 0 := by omega
    exact absurd ((strcmp_eq_zero (by decide)).mpr hstring) (by decide +kernel)

/-- `.text` is not: the lookup returns `NULL` although section 1 has the name. -/
theorem elf_section_byname_misses : NamesLoaded tailNames tailElf 12 ∧
    ¬ SectionFound tailNames tailElf [0x2e, 0x74, 0x65, 0x78, 0x74] := by
  refine ⟨tailNames_loaded, fun hright => ?_⟩
  have hnull : elfGetSectionheaderByname tailNames tailElf [0x2e, 0x74, 0x65, 0x78, 0x74] = 0 := by
    decide +kernel
  have hnamed : SectionNamed tailNames tailElf [0x2e, 0x74, 0x65, 0x78, 0x74] 1 :=
    (strcmp_eq_zero (by decide)).mp (by decide +kernel)
  obtain ⟨i, -, hres, -⟩ := hright.found ⟨1, by decide +kernel, hnamed⟩
  rw [hnull] at hres
  have hsections : tailElf.sectionHeaders = 0x40181000 := rfl
  omega

/-! ## Headers by index -/

/-- A file in a region of the heap that `elf_parseheader` accepts, with strides of at least the
    sizes of the structures and with both tables inside, for which `kalloc` has memory. -/
structure HeadersInFile (m : Mem) (heap : HeapState) (buffer len : Nat) : Prop where
  reach : kernelHeapMachine.Reach heap
  file : (buffer, len) ∈ heap.live
  magic : parsedHeader m buffer 0 = elfMagicNumber
  shentsize : sizeofShdr ≤ eShentsize (parsedHeader m buffer)
  phentsize : sizeofPhdr ≤ ePhentsize (parsedHeader m buffer)
  sections : InFile len (eShoff (parsedHeader m buffer))
    (eShentsize (parsedHeader m buffer) * eShnum (parsedHeader m buffer))
  programs : InFile len (ePhoff (parsedHeader m buffer))
    (ePhentsize (parsedHeader m buffer) * ePhnum (parsedHeader m buffer))
  /-- A request for 0 bytes gets no memory. -/
  sectionsGranted : 0 < eShnum (parsedHeader m buffer) →
    (sectionsBuffer heap (parsedHeader m buffer)).1 ≠ 0
  programsGranted : 0 < ePhnum (parsedHeader m buffer) →
    (programsBuffer heap (parsedHeader m buffer)).1 ≠ 0

/-- The accessors yield the structures that the file holds in its own stride (`m` is the memory
    before the parse), and there is no section of another `int`. -/
structure HeadersRead (m : Mem) (buffer : Nat) (st : ElfState) : Prop where
  section_at : ∀ i : Nat, i < eShnum st.elf.header → elfGetSectionheaderByid st.elf i ≠ 0 ∧
    ∀ j, j < sizeofShdr → st.mem (elfGetSectionheaderByid st.elf i + j)
      = m (buffer + eShoff st.elf.header + (eShentsize st.elf.header * i + j))
  program_at : ∀ i : Nat, i < ePhnum st.elf.header → elfGetProgramheader st.elf i ≠ 0 ∧
    ∀ j, j < sizeofPhdr → st.mem (elfGetProgramheader st.elf i + j)
      = m (buffer + ePhoff st.elf.header + (ePhentsize st.elf.header * i + j))
  no_section : ∀ i : Int, -2147483648 ≤ i → i < 2147483648 →
    (i < 0 ∨ (eShnum st.elf.header : Int) ≤ i) → elfGetSectionheaderByid st.elf i = 0

/-- And no program header of another `int` either. -/
structure HeadersDecoded (m : Mem) (buffer : Nat) (st : ElfState) : Prop
    extends HeadersRead m buffer st where
  no_program : ∀ i : Int, -2147483648 ≤ i → i < 2147483648 →
    (i < 0 ∨ (ePhnum st.elf.header : Int) ≤ i) → elfGetProgramheader st.elf i = 0

/-- A byte of a copy that may be too long for its destination: it is right if the bytes written
    before it are apart from where it is read. -/
theorem filebufferReadAtPosition_at {m : Mem} {ptr offset size count buffer k : Nat}
    (hdst : ptr + size * count < 18446744073709551616) (hk : k < size * count)
    (hsrc : buffer + offset + k < 18446744073709551616)
    (happart : buffer + offset + k < ptr ∨ ptr + k ≤ buffer + offset + k) :
    filebufferReadAtPosition m ptr offset size count buffer (ptr + k)
      = m (buffer + offset + k) := by
  have hcount : toSize (size * count : Nat) = size * count := toSize_natCast (by omega)
  have hd : ∀ i, i < size * count → toSize (ptr + i : Nat) = ptr + i := fun i hi =>
    toSize_natCast (by omega)
  have hs : filePosition buffer offset k = buffer + offset + k := toSize_natCast hsrc
  rw [filebufferReadAtPosition, hcount, ← hd k hk, ← hs]
  apply copyBytes_at
  · intro i hi hsame
    rw [hd k hk, hd i hi] at hsame
    omega
  · intro i hi
    rw [hs, hd i (Nat.lt_trans hi hk)]
    omega
  · exact hk

section Headers

variable {m header : Mem} {heap : HeapState} {buffer len : Nat}

theorem elfGetProgramheader_natCast {elf : Elf} {i : Nat}
    (hi : elf.programHeaders + sizeofPhdr * i < 18446744073709551616) :
    elfGetProgramheader elf i = elfGetProgramheaderByid elf i := by
  have hptr : toSize (elf.programHeaders + sizeofPhdr * (i : Int))
      = elf.programHeaders + sizeofPhdr * i := toSize_natCast hi
  rw [elfGetProgramheader, elfGetProgramheaderByid, hptr]

/-- The headers in the buffer are those of the file AT THE STRIDE OF THE STRUCTURES, however long
    the copy is. -/
theorem memAfterSections_at (h : KernelHeapInv heap) (hfile : (buffer, len) ∈ heap.live)
    (hsections : (sectionsBuffer heap header).1 ≠ 0)
    (hin : InFile len (eShoff header) (eShentsize header * eShnum header))
    (hstride : sizeofShdr ≤ eShentsize header) {k : Nat} (hk : k < sizeofShdr * eShnum header) :
    memAfterSections m heap header buffer ((sectionsBuffer heap header).1 + k)
      = m (buffer + eShoff header + k) := by
  have hbuffer : buffer + len ≤ 0x50180000 := (h.inside hfile).2
  obtain ⟨hend, hdisj⟩ := (buffersApart h hfile header).sections hsections
  have hlong : sizeofShdr * eShnum header ≤ eShentsize header * eShnum header :=
    Nat.mul_le_mul_right _ hstride
  have hbound : eShentsize header * eShnum header ≤ 65536 * 65536 :=
    Nat.mul_le_mul (Nat.le_of_lt (loadNat_two_lt _ _)) (Nat.le_of_lt (loadNat_two_lt _ _))
  unfold InFile at hin
  rw [memAfterSections, memWithSections, if_neg hsections]
  apply filebufferReadAtPosition_at
  · omega
  · omega
  · omega
  · omega

/-- The names leave the table of section headers alone, whatever they are. -/
theorem sections_after_strings (h : KernelHeapInv heap)
    (hsections : (sectionsBuffer heap header).1 ≠ 0) {k : Nat}
    (hk : k < sizeofShdr * eShnum header) :
    memAfterStrings m heap header buffer ((sectionsBuffer heap header).1 + k)
      = memAfterPrograms m heap header buffer ((sectionsBuffer heap header).1 + k) := by
  have h₁ : KernelHeapInv (sectionsBuffer heap header).2 := h.kalloc_inv _
  have h₂ : KernelHeapInv (programsBuffer heap header).2 := h₁.kalloc_inv _
  have hlive : ((sectionsBuffer heap header).1, sizeofShdr * eShnum header)
      ∈ (programsBuffer heap header).2.live :=
    HeapState.mem_kalloc_live (HeapState.kalloc_mem hsections) _
  refine memAfterStrings_outside h₂ fun hstrings => ?_
  have hfar := (h₂.kalloc_region hstrings).2 _ hlive
  dsimp only at hfar
  unfold stringsBuffer
  omega

/-- Without program headers, the table of section headers is as long as it was copied. -/
theorem sections_decoded (h : HeadersInFile m heap buffer len)
    (hnone : ePhnum (parsedHeader m buffer) = 0) {k : Nat}
    (hk : k < sizeofShdr * eShnum (parsedHeader m buffer)) :
    memAfterStrings m heap (parsedHeader m buffer) buffer
        ((sectionsBuffer heap (parsedHeader m buffer)).1 + k)
      = m (buffer + eShoff (parsedHeader m buffer) + k) := by
  have hinv := KernelHeapInv.reach h.reach
  have hsections := h.sectionsGranted (by unfold sizeofShdr at hk; omega)
  have hprograms : (programsBuffer heap (parsedHeader m buffer)).1 = 0 := by
    rw [programsBuffer, hnone]
    exact congrArg Prod.fst (HeapState.kalloc_zero _)
  have hsame : memAfterPrograms m heap (parsedHeader m buffer) buffer
      = memAfterSections m heap (parsedHeader m buffer) buffer := by
    rw [memAfterPrograms, memWithPrograms, if_pos hprograms]
  rw [sections_after_strings hinv hsections hk, hsame]
  exact memAfterSections_at hinv h.file hsections h.sections h.shentsize hk

theorem parsedElf_header : (parsedElf m heap header buffer).header = header := rfl

/-- A section of the file, and no other. -/
theorem parsedElf_section (h : HeadersInFile m heap buffer len) {i : Nat}
    (hi : i < eShnum (parsedHeader m buffer)) :
    elfGetSectionheaderByid (parsedElf m heap (parsedHeader m buffer) buffer) i
      = (sectionsBuffer heap (parsedHeader m buffer)).1 + sizeofShdr * i := by
  have hsections := h.sectionsGranted (Nat.zero_lt_of_lt hi)
  simp [elfGetSectionheaderByid, parsedElf, hsections, hi]

theorem parsedElf_no_section {i : Int} (hi : i < 0 ∨ (eShnum header : Int) ≤ i) :
    elfGetSectionheaderByid (parsedElf m heap header buffer) i = 0 := by
  simp [elfGetSectionheaderByid, parsedElf, hi]

/-- Program headers are not refused, up to the one BEHIND the last. -/
theorem parsedElf_program (h : HeadersInFile m heap buffer len)
    (hsome : 0 < ePhnum (parsedHeader m buffer)) {i : Nat}
    (hi : i ≤ ePhnum (parsedHeader m buffer)) :
    elfGetProgramheader (parsedElf m heap (parsedHeader m buffer) buffer) i
      = (programsBuffer heap (parsedHeader m buffer)).1 + sizeofPhdr * i ∧
    (programsBuffer heap (parsedHeader m buffer)).1 ≠ 0 := by
  have hinv := KernelHeapInv.reach h.reach
  have hprograms := h.programsGranted hsome
  have hend := ((buffersApart hinv h.file (parsedHeader m buffer)).programs hprograms).1
  have hle : sizeofPhdr * i ≤ sizeofPhdr * ePhnum (parsedHeader m buffer) :=
    Nat.mul_le_mul_left _ hi
  have hinside : (parsedElf m heap (parsedHeader m buffer) buffer).programHeaders
      + sizeofPhdr * i < 18446744073709551616 :=
    Nat.lt_of_le_of_lt (Nat.le_trans (Nat.add_le_add_left hle _) hend) (by decide)
  have hloaded : (parsedElf m heap (parsedHeader m buffer) buffer).programHeadersLoaded = true :=
    decide_eq_true hprograms
  rw [elfGetProgramheader_natCast hinside, elfGetProgramheaderByid, if_neg (not_not.mpr hloaded)]
  exact ⟨rfl, hprograms⟩

/-- With the sizes of the structures as strides, which is what ELF64 files have, the headers in
    range are right: what goes wrong there is program headers OUT of range. -/
theorem elf_headers_read (h : HeadersInFile m heap buffer len)
    (hsh : eShentsize (parsedHeader m buffer) = sizeofShdr)
    (hph : ePhentsize (parsedHeader m buffer) = sizeofPhdr) :
    ∃ st, elfAllocAndParse ⟨m, heap, elfFromfilebuffer buffer, []⟩ = .ok st ∧
      HeadersRead m buffer st := by
  have hinv := KernelHeapInv.reach h.reach
  have hapart := buffersApart hinv h.file (parsedHeader m buffer)
  obtain ⟨hst, hpt⟩ := tables_loaded hapart (hinv.inside h.file).2 (m := m)
    (fun _ => ⟨h.sections, Nat.le_of_eq (by rw [hsh])⟩)
    (fun _ => ⟨h.programs, Nat.le_of_eq (by rw [hph])⟩)
  refine ⟨_, elfAllocAndParse_accepted hinv rfl h.magic, ?_⟩
  constructor
  case section_at =>
    intro i hi
    rw [parsedElf_header] at hi
    have hsections := h.sectionsGranted (Nat.zero_lt_of_lt hi)
    rw [parsedElf_section h hi, parsedElf_header, hsh]
    refine ⟨by omega, fun j hj => ?_⟩
    have hroom : sizeofShdr * i + j < sizeofShdr * eShnum (parsedHeader m buffer) := by
      unfold sizeofShdr at hj ⊢
      omega
    dsimp only
    rw [Nat.add_assoc, sections_after_strings hinv hsections hroom, hst hsections _ hroom,
      sectionTable, tableByte, hsh, if_pos hroom]
  case program_at =>
    intro i hi
    rw [parsedElf_header] at hi
    obtain ⟨hptr, hprograms⟩ := parsedElf_program h (Nat.zero_lt_of_lt hi) (Nat.le_of_lt hi)
    rw [hptr, parsedElf_header, hph]
    refine ⟨by omega, fun j hj => ?_⟩
    have hroom : sizeofPhdr * i + j < sizeofPhdr * ePhnum (parsedHeader m buffer) := by
      unfold sizeofPhdr at hj ⊢
      omega
    dsimp only
    rw [Nat.add_assoc, programs_after_strings hapart hprograms hroom, hpt hprograms _ hroom,
      programTable, tableByte, hph, if_pos hroom]
  case no_section => exact fun i _ _ hout => parsedElf_no_section hout

/-- **Headers by index.**  For every accepted file with both tables inside and every stride of at
    least the structures' sizes: both accessors yield the headers of the file, and `NULL` for all
    other indices, if and only if the file has no program headers and its section headers look the
    same at the stride of the file and at the stride of the structure. -/
theorem elf_headers_decoded_iff (h : HeadersInFile m heap buffer len)
    (hheader : header = parsedHeader m buffer) :
    (∃ st, elfAllocAndParse ⟨m, heap, elfFromfilebuffer buffer, []⟩ = .ok st ∧
      HeadersDecoded m buffer st) ↔
    ePhnum header = 0 ∧ ∀ i, i < eShnum header → ∀ j, j < sizeofShdr →
      m (buffer + eShoff header + (sizeofShdr * i + j))
        = m (buffer + eShoff header + (eShentsize header * i + j)) := by
  subst hheader
  rw [elfAllocAndParse_accepted (KernelHeapInv.reach h.reach) rfl h.magic]
  have hroom : ∀ {i j}, i < eShnum (parsedHeader m buffer) → j < sizeofShdr →
      sizeofShdr * i + j < sizeofShdr * eShnum (parsedHeader m buffer) := by
    intro i j hi hj
    unfold sizeofShdr at hj ⊢
    omega
  constructor
  · rintro ⟨st, hst, hdec⟩
    obtain rfl := Except.ok.inj hst
    have hnone : ePhnum (parsedHeader m buffer) = 0 := by
      by_contra hsome
      have hlt : ePhnum (parsedHeader m buffer) < 65536 := loadNat_two_lt _ _
      obtain ⟨hptr, hprograms⟩ := parsedElf_program h (Nat.pos_of_ne_zero hsome) (Nat.le_refl _)
      have hnull := hdec.no_program (ePhnum (parsedHeader m buffer)) (by omega) (by omega)
        (Or.inr (Int.le_refl _))
      have hsame := hptr.symm.trans hnull
      omega
    refine ⟨hnone, fun i hi j hj => ?_⟩
    have hbyte := (hdec.section_at i hi).2 j hj
    dsimp only at hbyte
    rw [parsedElf_section h hi, Nat.add_assoc, sections_decoded h hnone (hroom hi hj)] at hbyte
    exact hbyte
  · rintro ⟨hnone, hsame⟩
    refine ⟨_, rfl, ?_⟩
    constructor
    case no_program =>
      have hprograms : (programsBuffer heap (parsedHeader m buffer)).1 = 0 := by
        rw [programsBuffer, hnone]
        exact congrArg Prod.fst (HeapState.kalloc_zero _)
      intro i _ _ _
      simp [elfGetProgramheader, parsedElf, hprograms]
    constructor
    case section_at =>
      intro i hi
      rw [parsedElf_header] at hi
      have hsections := h.sectionsGranted (Nat.zero_lt_of_lt hi)
      rw [parsedElf_section h hi, parsedElf_header]
      refine ⟨by omega, fun j hj => ?_⟩
      dsimp only
      rw [Nat.add_assoc, sections_decoded h hnone (hroom hi hj)]
      exact hsame i hi j hj
    case program_at =>
      intro i hi
      exact absurd (hnone ▸ hi) (Nat.not_lt_zero i)
    case no_section => exact fun i _ _ hout => parsedElf_no_section hout

end Headers

/-- A file of 128 bytes at 0x40180000 with so many program headers and one section header, both of
    which are at 64, and with the strides of ELF64. -/
def smallTables (phnum : Byte) : Mem := fun x =>
  if x = 0x40180000 then 0x7f
  else if x = 0x40180000 + 32 then 64 else if x = 0x40180000 + 40 then 64
  else if x = 0x40180000 + 54 then 56 else if x = 0x40180000 + 56 then phnum
  else if x = 0x40180000 + 58 then 64 else if x = 0x40180000 + 60 then 1
  else 0

/-- The fields of its header, and what the heap gives the parser for them. -/
theorem smallTables_checks : ∀ phnum ∈ ([0, 1] : List Byte),
    (0x40180000, 128) ∈ (heapWithFile 128).live ∧
    parsedHeader (smallTables phnum) 0x40180000 0 = elfMagicNumber ∧
    eShentsize (parsedHeader (smallTables phnum) 0x40180000) = sizeofShdr ∧
    ePhentsize (parsedHeader (smallTables phnum) 0x40180000) = sizeofPhdr ∧
    eShoff (parsedHeader (smallTables phnum) 0x40180000)
      + eShentsize (parsedHeader (smallTables phnum) 0x40180000)
        * eShnum (parsedHeader (smallTables phnum) 0x40180000) ≤ 128 ∧
    ePhoff (parsedHeader (smallTables phnum) 0x40180000)
      + ePhentsize (parsedHeader (smallTables phnum) 0x40180000)
        * ePhnum (parsedHeader (smallTables phnum) 0x40180000) ≤ 128 ∧
    (sectionsBuffer (heapWithFile 128) (parsedHeader (smallTables phnum) 0x40180000)).1 ≠ 0 ∧
    (0 < ePhnum (parsedHeader (smallTables phnum) 0x40180000) →
      (programsBuffer (heapWithFile 128) (parsedHeader (smallTables phnum) 0x40180000)).1 ≠ 0) ∧
    ePhnum (parsedHeader (smallTables phnum) 0x40180000) = phnum.toNat := by
  decide +kernel

theorem smallTables_inFile {phnum : Byte} (hphnum : phnum ∈ ([0, 1] : List Byte)) :
    HeadersInFile (smallTables phnum) (heapWithFile 128) 0x40180000 128 := by
  obtain ⟨hlive, hmagic, hsh, hph, hsections, hprograms, hbuffer, hbuffer', -⟩ :=
    smallTables_checks phnum hphnum
  constructor
  case reach => exact heapWithFile_reach 128
  case file => exact hlive
  case magic => exact hmagic
  case shentsize => exact Nat.le_of_eq hsh.symm
  case phentsize => exact Nat.le_of_eq hph.symm
  case sections => exact Or.inr hsections
  case programs => exact Or.inr hprograms
  case sectionsGranted => exact fun _ => hbuffer
  case programsGranted => exact hbuffer'

/-- Without program headers, both accessors are right. -/
theorem elf_headers_decoded_none : ∃ st, elfAllocAndParse
      ⟨smallTables 0, heapWithFile 128, elfFromfilebuffer 0x40180000, []⟩ = .ok st ∧
    HeadersDecoded (smallTables 0) 0x40180000 st := by
  obtain ⟨-, -, hstride, -, -, -, -, -, hnone⟩ := smallTables_checks 0 (by decide)
  refine (elf_headers_decoded_iff (smallTables_inFile (by decide)) rfl).mpr
    ⟨hnone, fun i hi j _ => ?_⟩
  rw [hstride]

/-- With one, a second is yielded too. -/
theorem elf_headers_unchecked :
    HeadersInFile (smallTables 1) (heapWithFile 128) 0x40180000 128 ∧
    ¬ ∃ st, elfAllocAndParse
        ⟨smallTables 1, heapWithFile 128, elfFromfilebuffer 0x40180000, []⟩ = .ok st ∧
      HeadersDecoded (smallTables 1) 0x40180000 st := by
  have h := @smallTables_inFile 1 (by decide)
  obtain ⟨-, -, -, -, -, -, -, -, hphnum⟩ := smallTables_checks 1 (by decide)
  rw [show (1 : Byte).toNat = 1 from rfl] at hphnum
  refine ⟨h, ?_⟩
  rintro ⟨st, hst, hdec⟩
  rw [elfAllocAndParse_accepted (KernelHeapInv.reach h.reach) rfl h.magic] at hst
  obtain rfl := Except.ok.inj hst
  obtain ⟨hptr, hprograms⟩ := parsedElf_program h (hphnum ▸ Nat.one_pos)
    (Nat.le_of_eq hphnum.symm)
  have hnull := hdec.no_program 1 (by decide) (by decide)
    (Or.inr (by rw [parsedElf_header, hphnum]; decide))
  have hsame := hptr.symm.trans hnull
  omega

end TinyKernel
