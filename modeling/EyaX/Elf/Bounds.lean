import EyaX.Elf.Validate

/-!
# The parser stays inside the image

A load outside the image has no result, so that the parser ends on every byte string means that
every byte it reads is one of the image's. Once the header is supported, the program header table
lies inside the image and every index below `e_phnum` leads to a header of it.
-/

namespace EyaX.Elf

open Exec (Decides)

section parser

variable {bytes : List UInt8} (hlen : bytes.length < 2 ^ 64)

include hlen

theorem elfProgramHeader_of_le (hsup : Supported bytes) {index : UInt16}
    (hle : (ehdr bytes).phnum ≤ index.toNat) :
    elfProgramHeader (some bytes) (UInt64.ofNat bytes.length) index = .ok none := by
  obtain ⟨b, hb, hiff⟩ := elfCheckSupported_decides hlen
  obtain rfl : b = true := hiff.mpr hsup
  have hge : index ≥ UInt16.ofNat (LittleEndian.field bytes 56 2) := by
    rw [ge_iff_le, UInt16.le_iff_toNat_le, field16_toNat]
    exact hle
  unfold elfProgramHeader
  rw [hb, ePhnum_eq hsup.size]
  simp only [Exec.ok_bind, Bool.not_true, Bool.false_eq_true, if_false, if_pos hge]
  rfl

theorem elfProgramHeader_of_not_supported (hsup : ¬ Supported bytes) (index : UInt16) :
    elfProgramHeader (some bytes) (UInt64.ofNat bytes.length) index = .ok none := by
  obtain ⟨b, hb, hiff⟩ := elfCheckSupported_decides hlen
  obtain rfl : b = false := by
    rw [← Bool.not_eq_true]
    exact fun hb' => hsup (hiff.mp hb')
  unfold elfProgramHeader
  rw [hb]
  rfl

/-- The header of an index in the table: its offset is the exact sum, and the range check behind the
sum passes. -/
theorem elfProgramHeader_of_lt (hsup : Supported bytes) {index : UInt16}
    (hlt : index.toNat < (ehdr bytes).phnum) :
    ∃ offset : UInt64,
      elfProgramHeader (some bytes) (UInt64.ofNat bytes.length) index = .ok (some offset) ∧
        offset.toNat = (ehdr bytes).phoff + 56 * index.toNat ∧
        offset.toNat + 56 ≤ bytes.length ∧
        elfRangeValid offset (UInt64.ofNat sizeofPhdr) (UInt64.ofNat bytes.length) = true := by
  obtain ⟨offset, hoffset, hheader⟩ := elfProgramHeader_eq hlen hsup hlt
  rw [UInt16.ofNat_toNat] at hheader
  have htable := hsup.table
  have hin : offset.toNat + 56 ≤ bytes.length := by omega
  refine ⟨offset, hheader, hoffset, hin, ?_⟩
  rw [elfRangeValid_iff, size_toNat hlen]
  exact hin

end parser

/-- On every image the validator and the header lookup read bytes of the image only. Where the
header is supported, the lookup returns a header exactly below `e_phnum`, at the exact offset and
inside the image, so neither its second range check nor the null test in the validator's loop ever
rejects. -/
theorem elfParser_in_image (bytes : List UInt8) (hlen : bytes.length < 2 ^ 64) :
    (∃ b, elfValidateImage (some bytes) (UInt64.ofNat bytes.length) = .ok b) ∧
    (∀ index, ∃ r, elfProgramHeader (some bytes) (UInt64.ofNat bytes.length) index = .ok r) ∧
    (elfCheckSupported (some bytes) (UInt64.ofNat bytes.length) = .ok true → ∀ index : UInt16,
      ((ehdr bytes).phnum ≤ index.toNat →
        elfProgramHeader (some bytes) (UInt64.ofNat bytes.length) index = .ok none) ∧
      (index.toNat < (ehdr bytes).phnum → ∃ offset : UInt64,
        elfProgramHeader (some bytes) (UInt64.ofNat bytes.length) index = .ok (some offset) ∧
          offset.toNat = (ehdr bytes).phoff + 56 * index.toNat ∧
          offset.toNat + 56 ≤ bytes.length ∧
          elfRangeValid offset (UInt64.ofNat sizeofPhdr) (UInt64.ofNat bytes.length) = true)) := by
  refine ⟨?_, fun index => ?_, fun hsupported index => ?_⟩
  · obtain ⟨b, hb, -⟩ := elfValidateImage_decides hlen
    exact ⟨b, hb⟩
  · by_cases hsup : Supported bytes
    · by_cases hlt : index.toNat < (ehdr bytes).phnum
      · obtain ⟨offset, hheader, -⟩ := elfProgramHeader_of_lt hlen hsup hlt
        exact ⟨some offset, hheader⟩
      · exact ⟨none, elfProgramHeader_of_le hlen hsup (Nat.le_of_not_lt hlt)⟩
    · exact ⟨none, elfProgramHeader_of_not_supported hlen hsup index⟩
  · have hsup := (elfCheckSupported_decides hlen).eq_true_iff.mp hsupported
    exact ⟨elfProgramHeader_of_le hlen hsup, elfProgramHeader_of_lt hlen hsup⟩

theorem elfParser_in_oneSegmentImage : ∃ offset : UInt64,
    elfProgramHeader (some oneSegmentImage) (UInt64.ofNat oneSegmentImage.length) 0 =
      .ok (some offset) ∧ offset.toNat + 56 ≤ oneSegmentImage.length := by
  have hsupported : elfCheckSupported (some oneSegmentImage)
      (UInt64.ofNat oneSegmentImage.length) = .ok true := by decide +kernel
  have hlt : (0 : UInt16).toNat < (ehdr oneSegmentImage).phnum := by decide +kernel
  have himage := elfParser_in_image oneSegmentImage (by decide +kernel)
  obtain ⟨offset, hheader, -, hin, -⟩ := (himage.2.2 hsupported 0).2 hlt
  exact ⟨offset, hheader, hin⟩

end EyaX.Elf
