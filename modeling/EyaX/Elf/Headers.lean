import EyaX.Elf.Validate

/-!
# The verdict depends on the headers

The specification reads an image through its file header, its program headers and its size. Two
images with the same headers are therefore loadable for the same reasons, up to the two clauses that
mention the size, and both of them only ask the image to be large enough.
-/

namespace EyaX.Elf

open LittleEndian (field field_congr)

/-- The same file header and the same program header table, both of them inside the first image. -/
structure SameHeaders (a b : List UInt8) : Prop where
  size : 64 ≤ a.length
  header : a.take 64 = b.take 64
  fits : (ehdr a).phoff + 56 * (ehdr a).phnum ≤ a.length
  table : (a.drop (ehdr a).phoff).take (56 * (ehdr a).phnum) =
    (b.drop (ehdr a).phoff).take (56 * (ehdr a).phnum)

section headers

variable {a b : List UInt8}

theorem ehdr_congr (h : a.take 64 = b.take 64) : ehdr a = ehdr b := by
  have hident : a.take 16 = b.take 16 := by
    have h16 := congrArg (List.take 16) h
    rwa [List.take_take, List.take_take, Nat.min_eq_left (by omega)] at h16
  have hall : (a.drop 0).take 64 = (b.drop 0).take 64 := h
  have hfield : ∀ offset n : Nat, offset + n ≤ 64 → field a offset n = field b offset n := by
    intro offset n hin
    exact field_congr hall (Nat.zero_le offset) (by omega)
  unfold ehdr
  rw [hident, hfield 16 2 (by omega), hfield 18 2 (by omega), hfield 20 4 (by omega),
    hfield 24 8 (by omega), hfield 32 8 (by omega), hfield 52 2 (by omega),
    hfield 54 2 (by omega), hfield 56 2 (by omega)]

theorem phdr_congr (h : SameHeaders a b) {i : Nat} (hi : i < (ehdr a).phnum) :
    phdr a i = phdr b i := by
  have hfield : ∀ {offset n : Nat}, (ehdr a).phoff ≤ offset →
      offset + n ≤ (ehdr a).phoff + 56 * (ehdr a).phnum → field a offset n = field b offset n :=
    fun hlo hhi => field_congr h.table hlo hhi
  unfold phdr
  rw [← ehdr_congr h.header]
  unfold phdrAt
  rw [hfield (n := 4) (by omega) (by omega), hfield (n := 4) (by omega) (by omega),
    hfield (n := 8) (by omega) (by omega), hfield (n := 8) (by omega) (by omega),
    hfield (n := 8) (by omega) (by omega), hfield (n := 8) (by omega) (by omega),
    hfield (n := 8) (by omega) (by omega)]

theorem Phdr.Loadable.mono {p : Phdr} {n m : Nat} (h : p.Loadable n) (hnm : n ≤ m) :
    p.Loadable m where
  filesz := h.filesz
  file := h.file.trans hnm
  memory := h.memory
  align := h.align
  congruent := h.congruent

theorem Supported.mono (h : Supported a) (hsame : SameHeaders a b) (hle : a.length ≤ b.length) :
    Supported b := by
  have hehdr := ehdr_congr hsame.header
  constructor
  · exact h.size.trans hle
  · exact hehdr ▸ h.magic
  · exact hehdr ▸ h.elfClass
  · exact hehdr ▸ h.data
  · exact hehdr ▸ h.identVersion
  · exact hehdr ▸ h.version
  · exact hehdr ▸ h.machine
  · exact hehdr ▸ h.type
  · exact hehdr ▸ h.ehsize
  · exact hehdr ▸ h.phnum
  · exact hehdr ▸ h.phentsize
  · exact (hehdr ▸ h.table).trans hle

theorem Valid.mono (h : Valid a) (hsame : SameHeaders a b) (hle : a.length ≤ b.length) :
    Valid b := by
  have hehdr := ehdr_congr hsame.header
  refine ⟨h.supported.mono hsame hle, fun i hi hload => ?_, ?_⟩
  · rw [← hehdr] at hi
    rw [← phdr_congr hsame hi] at hload ⊢
    exact (h.segments i hi hload).mono hle
  · obtain ⟨i, hi, hload, hexecutes⟩ := h.entry
    rw [phdr_congr hsame hi] at hload hexecutes
    exact ⟨i, hehdr ▸ hi, hload, hehdr ▸ hexecutes⟩

theorem SameHeaders.symm (h : SameHeaders a b) (hlength : a.length = b.length) :
    SameHeaders b a := by
  have hehdr := ehdr_congr h.header
  constructor
  · exact hlength ▸ h.size
  · exact h.header.symm
  · rw [← hehdr, ← hlength]
    exact h.fits
  · rw [← hehdr]
    exact h.table.symm

theorem Supported.sameHeaders_append (h : Supported a) (extra : List UInt8) :
    SameHeaders a (a ++ extra) := by
  refine ⟨h.size, ?_, h.table, ?_⟩
  · rw [List.take_append_of_le_length h.size]
  · have hfits : 56 * (ehdr a).phnum ≤ (a.drop (ehdr a).phoff).length := by
      rw [List.length_drop]
      have := h.table
      omega
    have hphoff : (ehdr a).phoff ≤ a.length := by
      have := h.table
      omega
    rw [List.drop_append_of_le_length hphoff, List.take_append_of_le_length hfits]

end headers

/-- The verdict of the validator as a function of the image alone. -/
def accepts (bytes : List UInt8) : Exec Bool :=
  elfValidateImage (some bytes) (UInt64.ofNat bytes.length)

/-- The verdict depends on the headers and grows with the size: an image with the headers of an
accepted one, in at least as many bytes, is accepted; images of one size with the same headers get
the same verdict; and an accepted image stays accepted whatever is appended to it. -/
theorem accepts_of_sameHeaders :
    (∀ a b : List UInt8, a.length ≤ b.length → b.length < 2 ^ 64 → SameHeaders a b →
      (accepts a = .ok true → accepts b = .ok true) ∧
        (a.length = b.length → accepts a = accepts b)) ∧
    (∀ a extra : List UInt8, (a ++ extra).length < 2 ^ 64 → accepts a = .ok true →
      accepts (a ++ extra) = .ok true) := by
  refine ⟨fun a b hle hlen hsame => ?_, fun a extra hlen ha => ?_⟩
  · have hlena : a.length < 2 ^ 64 := lt_of_le_of_lt hle hlen
    refine ⟨fun ha => ?_, fun hlength => ?_⟩
    · have hvalid := (elfValidateImage_decides hlena).eq_true_iff.mp ha
      exact (elfValidateImage_decides hlen).eq_true_iff.mpr (hvalid.mono hsame hle)
    · obtain ⟨va, hva, hvalida⟩ := elfValidateImage_decides hlena
      obtain ⟨vb, hvb, hvalidb⟩ := elfValidateImage_decides hlen
      have hverdict : va = vb := by
        rw [Bool.eq_iff_iff, hvalida, hvalidb]
        exact ⟨fun h => h.mono hsame hle, fun h => h.mono (hsame.symm hlength) hlength.ge⟩
      rw [accepts, accepts, hva, hvb, hverdict]
  · have hle : a.length ≤ (a ++ extra).length := by simp
    have hvalid := (elfValidateImage_decides (lt_of_le_of_lt hle hlen)).eq_true_iff.mp ha
    have hsame := hvalid.supported.sameHeaders_append extra
    exact (elfValidateImage_decides hlen).eq_true_iff.mpr (hvalid.mono hsame hle)

theorem accepts_oneSegmentImage_append :
    accepts (oneSegmentImage ++ [7, 7]) = .ok true ∧
      accepts (oneSegmentImage ++ [7]) = accepts (oneSegmentImage ++ [9]) := by
  have haccepts : accepts oneSegmentImage = .ok true := by decide +kernel
  have hsame : SameHeaders (oneSegmentImage ++ [7]) (oneSegmentImage ++ [9]) :=
    ⟨by decide +kernel, by decide +kernel, by decide +kernel, by decide +kernel⟩
  exact ⟨accepts_of_sameHeaders.2 oneSegmentImage [7, 7] (by decide +kernel) haccepts,
    (accepts_of_sameHeaders.1 _ _ (by decide +kernel) (by decide +kernel) hsame).2
      (by decide +kernel)⟩

end EyaX.Elf
