import EyaX.Elf.Bounds

/-!
# Images as they are written

An executable before it is an image: its file header, its program headers and what lies between and
behind them. The parser reads back from the image what was written, and it accepts the image for
exactly what the headers say.
-/

namespace EyaX.Elf

open LittleEndian

/-! ## The headers -/

/-- The fields of the file header that the parser does not read. -/
structure Rest where
  shoff : Nat
  flags : Nat
  shentsize : Nat
  shnum : Nat
  shstrndx : Nat

/-- The fields of `Elf64_Ehdr` behind `e_ident`, with their widths. -/
def Ehdr.fields (h : Ehdr) (r : Rest) : List (Nat × Nat) :=
  [(2, h.type), (2, h.machine), (4, h.version), (8, h.entry), (8, h.phoff), (8, r.shoff),
    (4, r.flags), (2, h.ehsize), (2, h.phentsize), (2, h.phnum), (2, r.shentsize), (2, r.shnum),
    (2, r.shstrndx)]

def Ehdr.encode (h : Ehdr) (r : Rest) : List UInt8 := h.ident ++ record (h.fields r)

/-- The values have room in their fields. -/
structure Ehdr.Fits (h : Ehdr) : Prop where
  ident : h.ident.length = 16
  type : h.type < 256 ^ 2
  machine : h.machine < 256 ^ 2
  version : h.version < 256 ^ 4
  entry : h.entry < 256 ^ 8
  phoff : h.phoff < 256 ^ 8
  ehsize : h.ehsize < 256 ^ 2
  phentsize : h.phentsize < 256 ^ 2
  phnum : h.phnum < 256 ^ 2

/-- The fields of `Elf64_Phdr`, with their widths; the parser does not read `p_paddr`. -/
def Phdr.fields (p : Phdr) (paddr : Nat) : List (Nat × Nat) :=
  [(4, p.type), (4, p.flags), (8, p.offset), (8, p.vaddr), (8, paddr), (8, p.filesz), (8, p.memsz),
    (8, p.align)]

def Phdr.encode (p : Phdr) (paddr : Nat) : List UInt8 := record (p.fields paddr)

structure Phdr.Fits (p : Phdr) : Prop where
  type : p.type < 256 ^ 4
  flags : p.flags < 256 ^ 4
  offset : p.offset < 256 ^ 8
  vaddr : p.vaddr < 256 ^ 8
  filesz : p.filesz < 256 ^ 8
  memsz : p.memsz < 256 ^ 8
  align : p.align < 256 ^ 8

@[simp] theorem Phdr.encode_length (p : Phdr) (paddr : Nat) : (p.encode paddr).length = 56 := by
  rw [encode, record_length]
  rfl

theorem Ehdr.Fits.encode_length {h : Ehdr} (hfits : h.Fits) (r : Rest) :
    (h.encode r).length = 64 := by
  rw [Ehdr.encode, List.length_append, record_length, hfits.ident]
  rfl

theorem ehdr_encode {h : Ehdr} (hfits : h.Fits) (r : Rest) (behind : List UInt8) :
    ehdr (h.encode r ++ behind) = h := by
  have hident : (h.encode r ++ behind).take 16 = h.ident := by
    rw [Ehdr.encode, List.append_assoc]
    exact List.take_left' hfits.ident
  have hfield : ∀ k offset {n v : Nat}, (h.fields r)[k]? = some (n, v) →
      size (((h.fields r).take k).map Prod.fst) = offset → v < 256 ^ n →
      field (h.encode r ++ behind) (16 + offset) n = v := by
    rintro k _ n v hget rfl hv
    rw [Ehdr.encode, List.append_assoc, ← hfits.ident, field_append_right]
    exact field_record_get hget hv behind
  unfold ehdr
  rw [hident, hfield 0 0 rfl rfl hfits.type, hfield 1 2 rfl rfl hfits.machine,
    hfield 2 4 rfl rfl hfits.version, hfield 3 8 rfl rfl hfits.entry,
    hfield 4 16 rfl rfl hfits.phoff, hfield 7 36 rfl rfl hfits.ehsize,
    hfield 8 38 rfl rfl hfits.phentsize, hfield 9 40 rfl rfl hfits.phnum]

theorem phdrAt_encode {p : Phdr} (hfits : p.Fits) (paddr : Nat) (before behind : List UInt8) :
    phdrAt (before ++ (p.encode paddr ++ behind)) before.length = p := by
  have hfield : ∀ k offset {n v : Nat}, (p.fields paddr)[k]? = some (n, v) →
      size (((p.fields paddr).take k).map Prod.fst) = offset → v < 256 ^ n →
      field (before ++ (p.encode paddr ++ behind)) (before.length + offset) n = v := by
    rintro k _ n v hget rfl hv
    rw [field_append_right]
    exact field_record_get hget hv behind
  have htype : field (before ++ (p.encode paddr ++ behind)) before.length 4 = p.type :=
    hfield 0 0 rfl rfl hfits.type
  unfold phdrAt
  rw [htype, hfield 1 4 rfl rfl hfits.flags, hfield 2 8 rfl rfl hfits.offset,
    hfield 3 16 rfl rfl hfits.vaddr, hfield 5 32 rfl rfl hfits.filesz,
    hfield 6 40 rfl rfl hfits.memsz, hfield 7 48 rfl rfl hfits.align]

/-! ## Images -/

/-- A program header table; each header comes with its `p_paddr`. -/
def table (segments : List (Phdr × Nat)) : List UInt8 := segments.flatMap fun p => p.1.encode p.2

theorem table_append (a b : List (Phdr × Nat)) : table (a ++ b) = table a ++ table b :=
  List.flatMap_append

theorem table_cons (p : Phdr × Nat) (segments : List (Phdr × Nat)) :
    table (p :: segments) = p.1.encode p.2 ++ table segments := List.flatMap_cons

theorem table_length (segments : List (Phdr × Nat)) :
    (table segments).length = 56 * segments.length := by
  induction segments with
  | nil => rfl
  | cons p segments ih =>
    rw [table_cons, List.length_append, Phdr.encode_length, ih, List.length_cons]
    omega

/-- An executable before it is written. -/
structure Executable where
  header : Ehdr
  rest : Rest
  /-- What stands between the file header and the table. -/
  gap : List UInt8
  segments : List (Phdr × Nat)
  /-- What stands behind the table. -/
  contents : List UInt8
  header_fits : header.Fits
  segments_fit : ∀ p ∈ segments, p.1.Fits
  phoff : header.phoff = 64 + gap.length
  phnum : header.phnum = segments.length

namespace Executable

def image (x : Executable) : List UInt8 :=
  x.header.encode x.rest ++ (x.gap ++ (table x.segments ++ x.contents))

theorem image_length (x : Executable) :
    x.image.length = x.header.phoff + 56 * x.header.phnum + x.contents.length := by
  rw [image, List.length_append, List.length_append, List.length_append, table_length,
    x.header_fits.encode_length, x.phoff, x.phnum]
  omega

theorem ehdr_image (x : Executable) : ehdr x.image = x.header := ehdr_encode x.header_fits _ _

theorem phdr_image (x : Executable) {i : Nat} {p : Phdr × Nat} (hp : x.segments[i]? = some p) :
    phdr x.image i = p.1 := by
  obtain ⟨hi, hith⟩ := List.getElem?_eq_some_iff.mp hp
  have hsegments : x.segments = x.segments.take i ++ p :: x.segments.drop (i + 1) := by
    rw [← hith, ← List.drop_eq_getElem_cons hi, List.take_append_drop]
  have himage : x.image = (x.header.encode x.rest ++ x.gap ++ table (x.segments.take i)) ++
      (p.1.encode p.2 ++ (table (x.segments.drop (i + 1)) ++ x.contents)) := by
    conv_lhs => rw [image, hsegments, table_append, table_cons]
    simp only [List.append_assoc]
  have hbefore : (x.header.encode x.rest ++ x.gap ++ table (x.segments.take i)).length =
      x.header.phoff + 56 * i := by
    rw [List.length_append, List.length_append, table_length, x.header_fits.encode_length, x.phoff,
      List.length_take, Nat.min_eq_left hi.le]
  rw [phdr, ehdr_image, ← hbefore, himage]
  exact phdrAt_encode (x.segments_fit p (List.mem_of_getElem? hp)) p.2 _ _

end Executable

/-- A file header that the parser supports, as far as the header alone is concerned. -/
structure Ehdr.Wanted (h : Ehdr) : Prop where
  magic : h.ident.take 4 = [0x7F, 0x45, 0x4C, 0x46]
  elfClass : h.ident[4]? = some 2
  data : h.ident[5]? = some 1
  identVersion : h.ident[6]? = some 1
  version : h.version = 1
  machine : h.machine = 62
  type : h.type = 2
  ehsize : h.ehsize = 64
  phnum : 0 < h.phnum
  phentsize : h.phentsize = 56

namespace Executable

theorem supported_iff (x : Executable) : Supported x.image ↔ x.header.Wanted := by
  have hlength := x.image_length
  have hphoff := x.phoff
  have hehdr := x.ehdr_image
  constructor
  · rintro ⟨-, h₁, h₂, h₃, h₄, h₅, h₆, h₇, h₈, h₉, h₁₀, -⟩
    rw [hehdr] at *
    exact ⟨h₁, h₂, h₃, h₄, h₅, h₆, h₇, h₈, h₉, h₁₀⟩
  · rintro ⟨h₁, h₂, h₃, h₄, h₅, h₆, h₇, h₈, h₉, h₁₀⟩
    rw [← hehdr] at h₁ h₂ h₃ h₄ h₅ h₆ h₇ h₈ h₉ h₁₀
    refine ⟨by omega, h₁, h₂, h₃, h₄, h₅, h₆, h₇, h₈, h₉, h₁₀, ?_⟩
    rw [hehdr]
    omega

/-- What the headers of an accepted executable say. -/
structure Loads (x : Executable) : Prop where
  wanted : x.header.Wanted
  segments : ∀ p ∈ x.segments, p.1.IsLoad → p.1.Loadable x.image.length
  entry : ∃ p ∈ x.segments, p.1.IsLoad ∧ p.1.Executes x.header.entry

theorem phdr_iff (x : Executable) {i : Nat} :
    i < (ehdr x.image).phnum ↔ ∃ p, x.segments[i]? = some p := by
  rw [ehdr_image, x.phnum]
  constructor
  · exact fun hi => ⟨_, List.getElem?_eq_getElem hi⟩
  · exact fun ⟨p, hp⟩ => (List.getElem?_eq_some_iff.mp hp).1

theorem valid_iff (x : Executable) : Valid x.image ↔ x.Loads := by
  constructor
  · intro h
    refine ⟨x.supported_iff.mp h.supported, fun p hp hload => ?_, ?_⟩
    · obtain ⟨i, hi⟩ := List.getElem?_of_mem hp
      rw [← x.phdr_image hi] at hload ⊢
      exact h.segments i (x.phdr_iff.mpr ⟨p, hi⟩) hload
    · obtain ⟨i, hi, hload, hexecutes⟩ := h.entry
      obtain ⟨p, hp⟩ := x.phdr_iff.mp hi
      rw [x.phdr_image hp] at hload hexecutes
      exact ⟨p, List.mem_of_getElem? hp, hload, x.ehdr_image ▸ hexecutes⟩
  · intro h
    refine ⟨x.supported_iff.mpr h.wanted, fun i hi hload => ?_, ?_⟩
    · obtain ⟨p, hp⟩ := x.phdr_iff.mp hi
      rw [x.phdr_image hp] at hload ⊢
      exact h.segments p (List.mem_of_getElem? hp) hload
    · obtain ⟨p, hp, hload, hexecutes⟩ := h.entry
      obtain ⟨i, hi⟩ := List.getElem?_of_mem hp
      refine ⟨i, x.phdr_iff.mpr ⟨p, hi⟩, ?_⟩
      rw [x.phdr_image hi, x.ehdr_image]
      exact ⟨hload, hexecutes⟩

end Executable

/-! ## Reading back -/

/-- The fields that are read at a pointer are those of the header. -/
structure Reads (image : Image) (pointer : UInt64) (p : Phdr) : Prop where
  type : (pType image pointer).map UInt32.toNat = .ok p.type
  flags : (pFlags image pointer).map UInt32.toNat = .ok p.flags
  offset : (pOffset image pointer).map UInt64.toNat = .ok p.offset
  vaddr : (pVaddr image pointer).map UInt64.toNat = .ok p.vaddr
  filesz : (pFilesz image pointer).map UInt64.toNat = .ok p.filesz
  memsz : (pMemsz image pointer).map UInt64.toNat = .ok p.memsz
  align : (pAlign image pointer).map UInt64.toNat = .ok p.align

theorem reads_phdrAt {bytes : List UInt8} {offset : UInt64}
    (hin : offset.toNat + 56 ≤ bytes.length) :
    Reads (some bytes) offset (phdrAt bytes offset.toNat) := by
  constructor
  · rw [pType_eq hin]
    exact congrArg Except.ok (field32_toNat _ _)
  · rw [pFlags_eq hin]
    exact congrArg Except.ok (field32_toNat _ _)
  · rw [pOffset_eq hin]
    exact congrArg Except.ok (field64_toNat _ _)
  · rw [pVaddr_eq hin]
    exact congrArg Except.ok (field64_toNat _ _)
  · rw [pFilesz_eq hin]
    exact congrArg Except.ok (field64_toNat _ _)
  · rw [pMemsz_eq hin]
    exact congrArg Except.ok (field64_toNat _ _)
  · rw [pAlign_eq hin]
    exact congrArg Except.ok (field64_toNat _ _)

/-- The parser's verdict on a written executable is that of its headers, and under a supported file
header the lookup leads to each program header as it was written and to nothing behind the last. -/
theorem elf_reads_back (x : Executable) (hsize : x.image.length < 2 ^ 64) :
    (elfCheckSupported (some x.image) (UInt64.ofNat x.image.length) = .ok true ↔
      x.header.Wanted) ∧
    (elfValidateImage (some x.image) (UInt64.ofNat x.image.length) = .ok true ↔ x.Loads) ∧
    (x.header.Wanted → ∀ index : UInt16,
      (∀ p, x.segments[index.toNat]? = some p → ∃ offset : UInt64,
        elfProgramHeader (some x.image) (UInt64.ofNat x.image.length) index =
          .ok (some offset) ∧ Reads (some x.image) offset p.1) ∧
      (x.segments.length ≤ index.toNat →
        elfProgramHeader (some x.image) (UInt64.ofNat x.image.length) index = .ok none)) := by
  refine ⟨?_, ?_, fun hwanted index => ⟨fun p hp => ?_, fun hle => ?_⟩⟩
  · rw [(elfCheckSupported_decides hsize).eq_true_iff, x.supported_iff]
  · rw [(elfValidateImage_decides hsize).eq_true_iff, x.valid_iff]
  · have hsup := x.supported_iff.mpr hwanted
    obtain ⟨offset, hheader, hoffset, hin, -⟩ :=
      elfProgramHeader_of_lt hsize hsup (x.phdr_iff.mpr ⟨p, hp⟩)
    refine ⟨offset, hheader, ?_⟩
    have hreads := reads_phdrAt hin
    rw [hoffset, ← phdr, x.phdr_image hp] at hreads
    exact hreads
  · have hsup := x.supported_iff.mpr hwanted
    refine elfProgramHeader_of_le hsize hsup ?_
    rw [x.ehdr_image, x.phnum]
    exact hle

/-- The executable behind the image with one segment. -/
def oneSegment : Executable where
  header :=
    { ident := [0x7F, 0x45, 0x4C, 0x46, 2, 1, 1, 0, 0, 0, 0, 0, 0, 0, 0, 0]
      type := 2
      machine := 62
      version := 1
      entry := 0
      phoff := 64
      ehsize := 64
      phentsize := 56
      phnum := 1 }
  rest := ⟨0, 0, 0, 0, 0⟩
  gap := []
  segments := [(⟨1, 1, 0, 0, 0, 1, 0⟩, 0)]
  contents := []
  header_fits := by constructor <;> decide
  segments_fit := by
    rintro p hp
    obtain rfl := List.mem_singleton.mp hp
    constructor <;> decide
  phoff := rfl
  phnum := rfl

theorem elf_reads_back_oneSegment : oneSegment.image = oneSegmentImage ∧ oneSegment.Loads :=
  ⟨by decide +kernel, (elf_reads_back oneSegment (by decide +kernel)).2.1.mp (by decide +kernel)⟩

/-! ## Every supported image is written -/

/-- The fields of an image's file header that the parser does not read. -/
def restOf (bytes : List UInt8) : Rest where
  shoff := field bytes 40 8
  flags := field bytes 48 4
  shentsize := field bytes 58 2
  shnum := field bytes 60 2
  shstrndx := field bytes 62 2

section written

variable {bytes : List UInt8}

theorem fits_ehdr (h64 : 64 ≤ bytes.length) : (ehdr bytes).Fits where
  ident := by
    show (bytes.take 16).length = 16
    rw [List.length_take]
    omega
  type := field_lt bytes 16 2
  machine := field_lt bytes 18 2
  version := field_lt bytes 20 4
  entry := field_lt bytes 24 8
  phoff := field_lt bytes 32 8
  ehsize := field_lt bytes 52 2
  phentsize := field_lt bytes 54 2
  phnum := field_lt bytes 56 2

theorem fits_phdrAt (offset : Nat) : (phdrAt bytes offset).Fits where
  type := field_lt bytes offset 4
  flags := field_lt bytes (offset + 4) 4
  offset := field_lt bytes (offset + 8) 8
  vaddr := field_lt bytes (offset + 16) 8
  filesz := field_lt bytes (offset + 32) 8
  memsz := field_lt bytes (offset + 40) 8
  align := field_lt bytes (offset + 48) 8

theorem encode_ehdr (h64 : 64 ≤ bytes.length) :
    (ehdr bytes).encode (restOf bytes) = bytes.take 64 := by
  have hfields : (ehdr bytes).fields (restOf bytes) =
      fieldsAt bytes 16 [2, 2, 4, 8, 8, 8, 4, 2, 2, 2, 2, 2, 2] := rfl
  have hrecord := record_fieldsAt bytes [2, 2, 4, 8, 8, 8, 4, 2, 2, 2, 2, 2, 2]
    (show 16 + 48 ≤ bytes.length from h64)
  rw [Ehdr.encode, hfields, hrecord]
  exact (List.take_add (i := 16) (j := 48)).symm

theorem encode_phdrAt (bytes : List UInt8) {offset : Nat} (h : offset + 56 ≤ bytes.length) :
    (phdrAt bytes offset).encode (field bytes (offset + 24) 8) = (bytes.drop offset).take 56 :=
  record_fieldsAt bytes [4, 4, 8, 8, 8, 8, 8, 8] h

/-- The first headers of an image's table. -/
def segmentsOf (bytes : List UInt8) (n : Nat) : List (Phdr × Nat) :=
  (List.range n).map fun i =>
    (phdr bytes i, field bytes ((ehdr bytes).phoff + 56 * i + 24) 8)

theorem table_segmentsOf {n : Nat} (h : (ehdr bytes).phoff + 56 * n ≤ bytes.length) :
    table (segmentsOf bytes n) = (bytes.drop (ehdr bytes).phoff).take (56 * n) := by
  induction n with
  | zero => rfl
  | succ n ih =>
    have hin : (ehdr bytes).phoff + 56 * n + 56 ≤ bytes.length := by omega
    have hlast := encode_phdrAt bytes hin
    have hcons : segmentsOf bytes (n + 1) = segmentsOf bytes n ++
        [(phdr bytes n, field bytes ((ehdr bytes).phoff + 56 * n + 24) 8)] := by
      rw [segmentsOf, List.range_succ, List.map_append]
      rfl
    rw [hcons, table_append, ih (by omega), table_cons, phdr, hlast, Nat.mul_succ, List.take_add,
      List.drop_drop]
    exact congrArg _ (List.append_nil _)

end written

/-- Every image that the parser supports and whose table lies behind the file header has been
written from an executable, and the parser accepts it for what the headers of this executable
say. -/
theorem elf_supported_written (bytes : List UInt8) (hlen : bytes.length < 2 ^ 64)
    (hsupported : elfCheckSupported (some bytes) (UInt64.ofNat bytes.length) = .ok true)
    (hbehind : 64 ≤ (ehdr bytes).phoff) :
    ∃ x : Executable, x.image = bytes ∧
      (elfValidateImage (some bytes) (UInt64.ofNat bytes.length) = .ok true ↔ x.Loads) := by
  have hsup := (elfCheckSupported_decides hlen).eq_true_iff.mp hsupported
  have htable := hsup.table
  let x : Executable :=
    { header := ehdr bytes
      rest := restOf bytes
      gap := (bytes.drop 64).take ((ehdr bytes).phoff - 64)
      segments := segmentsOf bytes (ehdr bytes).phnum
      contents := bytes.drop ((ehdr bytes).phoff + 56 * (ehdr bytes).phnum)
      header_fits := fits_ehdr hsup.size
      segments_fit := fun p hp => by
        obtain ⟨i, -, rfl⟩ := List.mem_map.mp hp
        exact fits_phdrAt _
      phoff := by
        rw [List.length_take, List.length_drop]
        omega
      phnum := by rw [segmentsOf, List.length_map, List.length_range] }
  have himage : x.image = bytes := by
    show (ehdr bytes).encode (restOf bytes) ++ ((bytes.drop 64).take ((ehdr bytes).phoff - 64) ++
      (table (segmentsOf bytes (ehdr bytes).phnum) ++
        bytes.drop ((ehdr bytes).phoff + 56 * (ehdr bytes).phnum))) = bytes
    have hgap : bytes.drop (ehdr bytes).phoff = (bytes.drop 64).drop ((ehdr bytes).phoff - 64) := by
      rw [List.drop_drop, Nat.add_sub_cancel' hbehind]
    rw [encode_ehdr hsup.size, table_segmentsOf htable, ← List.drop_drop, List.take_append_drop,
      hgap, List.take_append_drop, List.take_append_drop]
  refine ⟨x, himage, ?_⟩
  rw [(elfValidateImage_decides hlen).eq_true_iff, ← himage, x.valid_iff]

theorem elf_supported_written_oneSegmentImage : ∃ x : Executable, x.image = oneSegmentImage := by
  obtain ⟨x, himage, -⟩ := elf_supported_written oneSegmentImage (by decide +kernel)
    (by decide +kernel) (by decide +kernel)
  exact ⟨x, himage⟩

end EyaX.Elf
