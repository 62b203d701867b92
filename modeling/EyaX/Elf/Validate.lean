import EyaX.Elf.Basic
import EyaX.Elf.Format
import Mathlib.Tactic.Ring

/-!
# The validator accepts exactly the loadable executables

Each check of `elf.c` decides one clause of the specification: the subtractions of the range and
overflow checks are the exact sums, the bit trick is being a power of two, and no 64-bit sum that a
check relies on wraps. The loop over the program headers decides the conjunction of its clauses by
induction over the indices that are left.
-/

namespace EyaX.Elf

open LittleEndian (field field_lt field_one)
open Exec (Decides)

/-! ## Loads inside the image -/

section loads

variable {bytes : List UInt8} {offset : Nat}

theorem load_eq {n : Nat} (h : offset + n ≤ bytes.length) :
    load (some bytes) offset n = .ok (field bytes offset n) := if_pos h

theorem load8_eq (h : offset + 1 ≤ bytes.length) :
    load8 (some bytes) offset = .ok bytes[offset] := by
  rw [load8, load_eq h, field_one h]
  exact congrArg Except.ok (UInt8.ofNat_toNat)

theorem load16_eq (h : offset + 2 ≤ bytes.length) :
    load16 (some bytes) offset = .ok (UInt16.ofNat (field bytes offset 2)) := by
  rw [load16, load_eq h]
  rfl

theorem load32_eq (h : offset + 4 ≤ bytes.length) :
    load32 (some bytes) offset = .ok (UInt32.ofNat (field bytes offset 4)) := by
  rw [load32, load_eq h]
  rfl

theorem load64_eq (h : offset + 8 ≤ bytes.length) :
    load64 (some bytes) offset = .ok (UInt64.ofNat (field bytes offset 8)) := by
  rw [load64, load_eq h]
  rfl

variable (bytes offset)

@[simp] theorem field16_toNat : (UInt16.ofNat (field bytes offset 2)).toNat = field bytes offset 2 := by
  rw [UInt16.toNat_ofNat']
  exact Nat.mod_eq_of_lt (field_lt bytes offset 2)

@[simp] theorem field32_toNat : (UInt32.ofNat (field bytes offset 4)).toNat = field bytes offset 4 := by
  rw [UInt32.toNat_ofNat']
  exact Nat.mod_eq_of_lt (field_lt bytes offset 4)

@[simp] theorem field64_toNat : (UInt64.ofNat (field bytes offset 8)).toNat = field bytes offset 8 := by
  rw [UInt64.toNat_ofNat']
  exact Nat.mod_eq_of_lt (field_lt bytes offset 8)

end loads

/-! ## The arithmetic checks -/

theorem elfRangeValid_iff (offset length size : UInt64) :
    elfRangeValid offset length size = true ↔ offset.toNat + length.toNat ≤ size.toNat := by
  unfold elfRangeValid
  by_cases hoffset : offset > size
  · rw [if_pos hoffset]
    rw [gt_iff_lt, UInt64.lt_iff_toNat_lt] at hoffset
    simp only [Bool.false_eq_true, false_iff]
    omega
  · rw [if_neg hoffset]
    rw [gt_iff_lt, UInt64.lt_iff_toNat_lt] at hoffset
    have hsub : (size - offset).toNat = size.toNat - offset.toNat :=
      UInt64.toNat_sub_of_le _ _ (UInt64.le_iff_toNat_le.mpr (by omega))
    by_cases hlength : length > size - offset
    · rw [if_pos hlength]
      rw [gt_iff_lt, UInt64.lt_iff_toNat_lt, hsub] at hlength
      simp only [Bool.false_eq_true, false_iff]
      omega
    · rw [if_neg hlength]
      rw [gt_iff_lt, UInt64.lt_iff_toNat_lt, hsub] at hlength
      simp only [true_iff]
      omega

theorem elfAddOverflow_iff (a b : UInt64) :
    elfAddOverflow a b = true ↔ 2 ^ 64 ≤ a.toNat + b.toNat := by
  have ha := a.toNat_lt
  have hsub : (0xFFFFFFFFFFFFFFFF - a).toNat = 2 ^ 64 - 1 - a.toNat :=
    UInt64.toNat_sub_of_le _ _ (UInt64.le_iff_toNat_le.mpr (show a.toNat ≤ 2 ^ 64 - 1 by omega))
  rw [elfAddOverflow, decide_eq_true_eq, gt_iff_lt, UInt64.lt_iff_toNat_lt, hsub]
  omega

/-- `a & (a - 1)` is zero exactly for the powers of two. -/
theorem elfValidAlignment_iff (a : UInt64) :
    elfValidAlignment a = true ↔ a.toNat = 0 ∨ ∃ k, a.toNat = 2 ^ k := by
  unfold elfValidAlignment
  by_cases hsmall : a ≤ 1
  · rw [if_pos hsmall]
    have hle : a.toNat ≤ 1 := UInt64.le_iff_toNat_le.mp hsmall
    simp only [true_iff]
    rcases Nat.le_one_iff_eq_zero_or_eq_one.mp hle with h | h
    · exact Or.inl h
    · exact Or.inr ⟨0, h⟩
  · rw [if_neg hsmall]
    have hlt : 1 < a.toNat := by
      rw [UInt64.le_iff_toNat_le] at hsmall
      exact Nat.lt_of_not_le hsmall
    have hpow := Nat.and_sub_one_eq_zero_iff_isPowerOfTwo (n := a.toNat) (by omega)
    rw [beq_iff_eq, ← UInt64.toNat_inj, UInt64.toNat_and, toNat_pred hlt.le]
    constructor
    · intro h
      exact Or.inr (hpow.mp h)
    · rintro (h | h)
      · omega
      · exact hpow.mpr h

section fields

variable {a b c : Nat} (ha : (UInt64.ofNat a).toNat = a) (hb : (UInt64.ofNat b).toNat = b)
  (hc : (UInt64.ofNat c).toNat = c)

include ha

theorem ofNat_gt_one_iff : UInt64.ofNat a > 1 ↔ 1 < a := by
  rw [gt_iff_lt, UInt64.lt_iff_toNat_lt, ha, UInt64.toNat_one]

theorem not_elfValidAlignment_iff :
    (!elfValidAlignment (UInt64.ofNat a)) = true ↔ ¬ (a = 0 ∨ ∃ k, a = 2 ^ k) := by
  rw [Bool.not_eq_true', ← Bool.not_eq_true, elfValidAlignment_iff, ha]

include hb

theorem ofNat_gt_iff : UInt64.ofNat a > UInt64.ofNat b ↔ ¬ a ≤ b := by
  rw [gt_iff_lt, UInt64.lt_iff_toNat_lt, ha, hb, Nat.not_le]

theorem elfAddOverflow_ofNat_iff :
    elfAddOverflow (UInt64.ofNat a) (UInt64.ofNat b) = true ↔ ¬ a + b < 2 ^ 64 := by
  rw [elfAddOverflow_iff, ha, hb, Nat.not_lt]

include hc

theorem not_elfRangeValid_iff :
    (!elfRangeValid (UInt64.ofNat a) (UInt64.ofNat b) (UInt64.ofNat c)) = true ↔
      ¬ a + b ≤ c := by
  rw [Bool.not_eq_true', ← Bool.not_eq_true, elfRangeValid_iff, ha, hb, hc]

theorem ofNat_mod_ne_iff :
    UInt64.ofNat a % UInt64.ofNat c ≠ UInt64.ofNat b % UInt64.ofNat c ↔ ¬ a ≡ b [MOD c] := by
  rw [ne_eq, ← UInt64.toNat_inj, UInt64.toNat_mod, UInt64.toNat_mod, ha, hb, hc]
  rfl

end fields

/-! ## The header -/

section loads

variable {bytes : List UInt8} (h64 : 64 ≤ bytes.length)

include h64

theorem eIdent_eq {index : Nat} (h : index < 16) :
    eIdent (some bytes) index = .ok bytes[index] := load8_eq (by omega)

theorem eType_eq : eType (some bytes) = .ok (UInt16.ofNat (field bytes 16 2)) :=
  load16_eq (by omega)

theorem eMachine_eq : eMachine (some bytes) = .ok (UInt16.ofNat (field bytes 18 2)) :=
  load16_eq (by omega)

theorem eVersion_eq : eVersion (some bytes) = .ok (UInt32.ofNat (field bytes 20 4)) :=
  load32_eq (by omega)

theorem eEntry_eq : eEntry (some bytes) = .ok (UInt64.ofNat (field bytes 24 8)) :=
  load64_eq (by omega)

theorem ePhoff_eq : ePhoff (some bytes) = .ok (UInt64.ofNat (field bytes 32 8)) :=
  load64_eq (by omega)

theorem eEhsize_eq : eEhsize (some bytes) = .ok (UInt16.ofNat (field bytes 52 2)) :=
  load16_eq (by omega)

theorem ePhentsize_eq : ePhentsize (some bytes) = .ok (UInt16.ofNat (field bytes 54 2)) :=
  load16_eq (by omega)

theorem ePhnum_eq : ePhnum (some bytes) = .ok (UInt16.ofNat (field bytes 56 2)) :=
  load16_eq (by omega)

end loads

theorem field16_ne_iff (bytes : List UInt8) (offset : Nat) (c : UInt16) :
    UInt16.ofNat (field bytes offset 2) ≠ c ↔ ¬ field bytes offset 2 = c.toNat := by
  rw [ne_eq, ← UInt16.toNat_inj, field16_toNat]

theorem field32_ne_iff (bytes : List UInt8) (offset : Nat) (c : UInt32) :
    UInt32.ofNat (field bytes offset 4) ≠ c ↔ ¬ field bytes offset 4 = c.toNat := by
  rw [ne_eq, ← UInt32.toNat_inj, field32_toNat]

section segmentLoads

variable {bytes : List UInt8} {offset : UInt64} (hin : offset.toNat + 56 ≤ bytes.length)

include hin

theorem pType_eq : pType (some bytes) offset = .ok (UInt32.ofNat (phdrAt bytes offset.toNat).type) :=
  load32_eq (by omega)

theorem pFlags_eq :
    pFlags (some bytes) offset = .ok (UInt32.ofNat (phdrAt bytes offset.toNat).flags) :=
  load32_eq (by omega)

theorem pOffset_eq :
    pOffset (some bytes) offset = .ok (UInt64.ofNat (phdrAt bytes offset.toNat).offset) :=
  load64_eq (by omega)

theorem pVaddr_eq :
    pVaddr (some bytes) offset = .ok (UInt64.ofNat (phdrAt bytes offset.toNat).vaddr) :=
  load64_eq (by omega)

theorem pFilesz_eq :
    pFilesz (some bytes) offset = .ok (UInt64.ofNat (phdrAt bytes offset.toNat).filesz) :=
  load64_eq (by omega)

theorem pMemsz_eq :
    pMemsz (some bytes) offset = .ok (UInt64.ofNat (phdrAt bytes offset.toNat).memsz) :=
  load64_eq (by omega)

theorem pAlign_eq :
    pAlign (some bytes) offset = .ok (UInt64.ofNat (phdrAt bytes offset.toNat).align) :=
  load64_eq (by omega)

end segmentLoads

theorem type_ne_iff (bytes : List UInt8) (offset : Nat) :
    UInt32.ofNat (phdrAt bytes offset).type ≠ ptLoad ↔ ¬ (phdrAt bytes offset).IsLoad :=
  field32_ne_iff bytes offset ptLoad

theorem phdrAt_toNat (bytes : List UInt8) (offset : Nat) :
    (UInt64.ofNat (phdrAt bytes offset).filesz).toNat = (phdrAt bytes offset).filesz ∧
      (UInt64.ofNat (phdrAt bytes offset).memsz).toNat = (phdrAt bytes offset).memsz ∧
      (UInt64.ofNat (phdrAt bytes offset).offset).toNat = (phdrAt bytes offset).offset ∧
      (UInt64.ofNat (phdrAt bytes offset).vaddr).toNat = (phdrAt bytes offset).vaddr ∧
      (UInt64.ofNat (phdrAt bytes offset).align).toNat = (phdrAt bytes offset).align :=
  ⟨field64_toNat _ _, field64_toNat _ _, field64_toNat _ _, field64_toNat _ _, field64_toNat _ _⟩

section header

variable {bytes : List UInt8} (hlen : bytes.length < 2 ^ 64)

include hlen

theorem size_toNat : (UInt64.ofNat bytes.length).toNat = bytes.length := by
  rw [UInt64.toNat_ofNat']
  exact Nat.mod_eq_of_lt hlen

theorem size_lt_iff {k : Nat} (hk : k < 2 ^ 64) :
    UInt64.ofNat bytes.length < UInt64.ofNat k ↔ ¬ k ≤ bytes.length := by
  rw [UInt64.lt_iff_toNat_lt, size_toNat hlen, UInt64.toNat_ofNat', Nat.mod_eq_of_lt hk]
  exact Nat.not_le.symm

theorem elfCheckFile_decides :
    Decides (elfCheckFile (some bytes) (UInt64.ofNat bytes.length))
      (bytes.take 4 = [0x7F, 0x45, 0x4C, 0x46]) := by
  have hsize : (some bytes = none ∨ UInt64.ofNat bytes.length < 4) ↔ ¬ 4 ≤ bytes.length := by
    rw [← size_lt_iff hlen (by decide)]
    simp
  unfold elfCheckFile
  refine (Decides.reject (P := 4 ≤ bytes.length)
    (Q := bytes[0]? = some 0x7F ∧ bytes[1]? = some 0x45 ∧ bytes[2]? = some 0x4C ∧
      bytes[3]? = some 0x46 ∧ True) hsize fun h4 => ?_).congr ?_
  · rw [load8_eq (by omega), load8_eq (by omega), load8_eq (by omega), load8_eq (by omega)]
    simp only [Exec.ok_bind, List.getElem?_eq_getElem (show 0 < bytes.length by omega),
      List.getElem?_eq_getElem (show 1 < bytes.length by omega),
      List.getElem?_eq_getElem (show 2 < bytes.length by omega),
      List.getElem?_eq_getElem (show 3 < bytes.length by omega), Option.some.injEq]
    refine Decides.reject Iff.rfl fun _ => Decides.reject Iff.rfl fun _ => ?_
    refine Decides.reject Iff.rfl fun _ => Decides.reject Iff.rfl fun _ => ?_
    exact (Decides.ok true).congr (by simp)
  · match bytes with
    | [] => simp
    | [_] => simp
    | [_, _] => simp
    | [_, _, _] => simp
    | _ :: _ :: _ :: _ :: _ => simp

theorem elfCheckSupported_decides :
    Decides (elfCheckSupported (some bytes) (UInt64.ofNat bytes.length)) (Supported bytes) := by
  unfold elfCheckSupported
  refine (((elfCheckFile_decides hlen).andThen (Q := 64 ≤ bytes.length ∧
    bytes[4]? = some 2 ∧ bytes[5]? = some 1 ∧ bytes[6]? = some 1 ∧ field bytes 20 4 = 1 ∧
    field bytes 18 2 = 62 ∧ field bytes 16 2 = 2 ∧ field bytes 52 2 = 64 ∧
    0 < field bytes 56 2 ∧ field bytes 54 2 = 56 ∧
    field bytes 32 8 + 56 * field bytes 56 2 ≤ bytes.length) fun _ => ?_)).congr ?_
  · refine Decides.reject (size_lt_iff hlen (by decide)) fun h64 => ?_
    rw [eIdent_eq h64 (by decide), eIdent_eq h64 (by decide), eIdent_eq h64 (by decide)]
    simp only [eVersion_eq h64, eMachine_eq h64, eType_eq h64, eEhsize_eq h64, ePhnum_eq h64,
      ePhentsize_eq h64, ePhoff_eq h64, Exec.ok_bind, Exec.pure_eq_ok]
    have hget : ∀ i (hi : i < bytes.length) (b : UInt8), bytes[i] ≠ b ↔ ¬ bytes[i]? = some b := by
      intro i hi b
      rw [List.getElem?_eq_getElem hi, Option.some.injEq]
    refine Decides.reject (hget 4 _ _) fun _ => Decides.reject (hget 5 _ _) fun _ => ?_
    refine Decides.reject (hget 6 _ _) fun _ => Decides.reject (field32_ne_iff _ _ _) fun _ => ?_
    refine Decides.reject (field16_ne_iff _ _ _) fun _ => ?_
    refine Decides.reject (field16_ne_iff _ _ _) fun _ => ?_
    refine Decides.reject (field16_ne_iff _ _ _) fun _ => Decides.reject ?_ fun _ => ?_
    · rw [← UInt16.toNat_inj, field16_toNat, Nat.pos_iff_ne_zero, ne_eq, not_not]
      rfl
    refine Decides.reject (field16_ne_iff _ _ _) fun _ => ?_
    apply ((Decides.ok _).andThen (Q := True) fun _ => (Decides.ok true).congr (by simp)).congr
    rw [elfRangeValid_iff, field64_toNat, size_toNat hlen, and_true]
    have hnum := field_lt bytes 56 2
    have htable : ((UInt16.ofNat (field bytes 56 2)).toUInt64 * UInt64.ofNat sizeofPhdr).toNat =
        56 * field bytes 56 2 := by
      rw [UInt64.toNat_mul, UInt16.toNat_toUInt64, field16_toNat]
      show field bytes 56 2 * 56 % 2 ^ 64 = 56 * field bytes 56 2
      omega
    rw [htable]
  · have hident : ∀ i < 16, (bytes.take 16)[i]? = bytes[i]? := fun i hi =>
      List.getElem?_take_of_lt hi
    have htake : (bytes.take 16).take 4 = bytes.take 4 := by
      rw [List.take_take]
      rfl
    constructor
    · rintro ⟨h₁, h₂, h₃, h₄, h₅, h₆, h₇, h₈, h₉, h₁₀, h₁₁, h₁₂⟩
      exact ⟨h₂, htake.trans h₁, (hident 4 (by decide)).trans h₃, (hident 5 (by decide)).trans h₄,
        (hident 6 (by decide)).trans h₅, h₆, h₇, h₈, h₉, h₁₀, h₁₁, h₁₂⟩
    · intro h
      exact ⟨htake.symm.trans h.magic, h.size, (hident 4 (by decide)).symm.trans h.elfClass,
        (hident 5 (by decide)).symm.trans h.data, (hident 6 (by decide)).symm.trans h.identVersion,
        h.version, h.machine, h.type, h.ehsize, h.phnum, h.phentsize, h.table⟩

theorem elfProgramHeader_eq (hsup : Supported bytes) {i : Nat} (hi : i < (ehdr bytes).phnum) :
    ∃ offset : UInt64, offset.toNat = (ehdr bytes).phoff + 56 * i ∧
      elfProgramHeader (some bytes) (UInt64.ofNat bytes.length) (UInt16.ofNat i) =
        .ok (some offset) := by
  have h64 := hsup.size
  have htable := hsup.table
  have hnum : (ehdr bytes).phnum < 2 ^ 16 := field_lt bytes 56 2
  have hindex : (UInt16.ofNat i).toNat = i := by
    rw [UInt16.toNat_ofNat']
    omega
  have hoffset : (UInt64.ofNat (field bytes 32 8) +
      (UInt16.ofNat i).toUInt64 * UInt64.ofNat sizeofPhdr).toNat = (ehdr bytes).phoff + 56 * i := by
    rw [UInt64.toNat_add, UInt64.toNat_mul, field64_toNat, UInt16.toNat_toUInt64, hindex]
    show ((ehdr bytes).phoff + i * 56 % 2 ^ 64) % 2 ^ 64 = (ehdr bytes).phoff + 56 * i
    omega
  obtain ⟨b, hb, hiff⟩ := elfCheckSupported_decides hlen
  obtain rfl : b = true := hiff.mpr hsup
  have hlt : ¬ UInt16.ofNat i ≥ UInt16.ofNat (field bytes 56 2) := by
    rw [ge_iff_le, UInt16.le_iff_toNat_le, field16_toNat, hindex]
    exact Nat.not_le.mpr hi
  have hrange : elfRangeValid (UInt64.ofNat (field bytes 32 8) +
      (UInt16.ofNat i).toUInt64 * UInt64.ofNat sizeofPhdr) (UInt64.ofNat sizeofPhdr)
      (UInt64.ofNat bytes.length) = true := by
    rw [elfRangeValid_iff, hoffset, size_toNat hlen]
    show (ehdr bytes).phoff + 56 * i + 56 ≤ bytes.length
    omega
  refine ⟨_, hoffset, ?_⟩
  unfold elfProgramHeader
  rw [hb, ePhnum_eq h64, ePhoff_eq h64]
  simp only [Exec.ok_bind, Bool.not_true, Bool.false_eq_true, if_false, if_neg hlt, hrange]
  rfl

/-! ## One segment -/

section segment

variable {offset : UInt64} (hin : offset.toNat + 56 ≤ bytes.length)

include hin

theorem elfCheckLoadSegment_decides :
    Decides (elfCheckLoadSegment (some bytes) (UInt64.ofNat bytes.length) (some offset))
      ((phdrAt bytes offset.toNat).IsLoad ∧ (phdrAt bytes offset.toNat).Loadable bytes.length) := by
  simp only [elfCheckLoadSegment, pType_eq hin, pFilesz_eq hin, pMemsz_eq hin, pOffset_eq hin,
    pVaddr_eq hin, pAlign_eq hin, Exec.ok_bind, Exec.pure_eq_ok]
  obtain ⟨hfilesz, hmemsz, hoffset, hvaddr, halign⟩ := phdrAt_toNat bytes offset.toNat
  have htype := type_ne_iff bytes offset.toNat
  have hsizes := ofNat_gt_iff hfilesz hmemsz
  have hfile := not_elfRangeValid_iff hoffset hfilesz (size_toNat hlen)
  have hmemory := elfAddOverflow_ofNat_iff hvaddr hmemsz
  have hpower := not_elfValidAlignment_iff halign
  have hone : UInt64.ofNat (phdrAt bytes offset.toNat).align > 1 ↔
      1 < (phdrAt bytes offset.toNat).align := ofNat_gt_one_iff halign
  have hmod := ofNat_mod_ne_iff hvaddr hoffset halign
  refine (Decides.reject htype fun _ => Decides.reject hsizes fun _ =>
    Decides.reject hfile fun _ => Decides.reject hmemory fun _ =>
    Decides.reject (Q := 1 < (phdrAt bytes offset.toNat).align →
      (phdrAt bytes offset.toNat).vaddr ≡ (phdrAt bytes offset.toNat).offset
        [MOD (phdrAt bytes offset.toNat).align]) hpower fun _ => ?_).congr ?_
  · by_cases hlarge : UInt64.ofNat (phdrAt bytes offset.toNat).align > 1
    · rw [if_pos hlarge]
      apply (Decides.reject hmod fun _ => Decides.ok true).congr
      simp only [hone.mp hlarge, and_true, true_implies]
    · rw [if_neg hlarge]
      have hvacuous : 1 < (phdrAt bytes offset.toNat).align → (phdrAt bytes offset.toNat).vaddr ≡
          (phdrAt bytes offset.toNat).offset [MOD (phdrAt bytes offset.toNat).align] :=
        fun h => absurd (hone.mpr h) hlarge
      exact (Decides.ok true).congr (iff_of_true rfl hvacuous)
  · refine and_congr_right fun _ => ⟨?_, ?_⟩
    · rintro ⟨h₁, h₂, h₃, h₄, h₅⟩
      exact ⟨h₁, h₂, h₃, h₄, h₅⟩
    · intro h
      exact ⟨h.filesz, h.file, h.memory, h.align, h.congruent⟩

omit hlen in
theorem entryInSegment_decides (h64 : 64 ≤ bytes.length) :
    Decides (entryInSegment (some bytes) offset)
      ((phdrAt bytes offset.toNat).Executes (ehdr bytes).entry) := by
  simp only [entryInSegment, pFlags_eq hin, pMemsz_eq hin, pVaddr_eq hin, eEntry_eq h64,
    Exec.ok_bind, Exec.pure_eq_ok]
  have hflags : (UInt32.ofNat (phdrAt bytes offset.toNat).flags).toNat =
      (phdrAt bytes offset.toNat).flags := field32_toNat _ _
  obtain ⟨-, hmemsz, -, hvaddr, -⟩ := phdrAt_toNat bytes offset.toNat
  generalize phdrAt bytes offset.toNat = p at *
  have hentry : (UInt64.ofNat (field bytes 24 8)).toNat = (ehdr bytes).entry := field64_toNat _ _
  refine (Decides.reject (P := p.flags.testBit 0 = true) (Q := p.memsz ≠ 0 ∧
    p.vaddr ≤ (ehdr bytes).entry ∧ (ehdr bytes).entry - p.vaddr < p.memsz) ?_ fun _ => ?_).congr ?_
  · rw [← UInt32.toNat_inj, UInt32.toNat_and, hflags, Nat.testBit_zero, decide_eq_true_eq]
    show p.flags &&& 1 = 0 ↔ _
    rw [Nat.and_one_is_mod]
    omega
  · refine Decides.reject ?_ fun _ => Decides.reject ?_ fun hle => ?_
    · rw [← UInt64.toNat_inj, hmemsz, ne_eq, not_not]
      rfl
    · rw [UInt64.lt_iff_toNat_lt, hentry, hvaddr, Nat.not_le]
    · apply (Decides.ok _).congr
      have hsub : (UInt64.ofNat (field bytes 24 8) - UInt64.ofNat p.vaddr).toNat =
          (ehdr bytes).entry - p.vaddr := by
        rw [UInt64.toNat_sub_of_le, hentry, hvaddr]
        rwa [UInt64.le_iff_toNat_le, hentry, hvaddr]
      rw [decide_eq_true_eq, UInt64.lt_iff_toNat_lt, hsub, hmemsz]
  · unfold Phdr.Executes
    apply and_congr_right
    intro _
    omega

end segment

/-! ## The loop and the whole validator -/

/-- The loop decides the clauses of the headers that are left, given what the flags say of those
before. -/
theorem validateLoop_decides (hsup : Supported bytes) (is : List Nat) :
    ∀ found entry, (∀ i ∈ is, i < (ehdr bytes).phnum) → (entry = true → found = true) →
      Decides (validateLoop (some bytes) (UInt64.ofNat bytes.length) is found entry)
        ((∀ i ∈ is, (phdr bytes i).IsLoad → (phdr bytes i).Loadable bytes.length) ∧
          (entry = true ∨ ∃ i ∈ is, (phdr bytes i).IsLoad ∧
            (phdr bytes i).Executes (ehdr bytes).entry)) := by
  induction is with
  | nil =>
    intro found entry _ hflags
    refine (Decides.reject (P := found = true) (Q := entry = true) (by simp) fun _ =>
      (Decides.reject (P := entry = true) (by simp) fun _ => Decides.ok true).congr
        (by simp)).congr ?_
    simp only [List.not_mem_nil, false_implies, implies_true, true_and, false_and, exists_false,
      or_false]
    exact ⟨fun h => h.2, fun h => ⟨hflags h, h⟩⟩
  | cons i is ih =>
    intro found entry his hflags
    have hi := his i (by simp)
    have his' : ∀ j ∈ is, j < (ehdr bytes).phnum := fun j hj => his j (by simp [hj])
    obtain ⟨offset, hoffset, hheader⟩ := elfProgramHeader_eq hlen hsup hi
    have hin : offset.toNat + 56 ≤ bytes.length := by
      have htable := hsup.table
      omega
    have hphdr : phdrAt bytes offset.toNat = phdr bytes i := by rw [hoffset, phdr]
    have hload := elfCheckLoadSegment_decides hlen hin
    have hentry := entryInSegment_decides hin hsup.size
    have htype := type_ne_iff bytes offset.toNat
    rw [hphdr] at hload hentry htype
    rw [validateLoop, hheader]
    simp only [Exec.ok_bind, pType_eq hin, hphdr]
    simp only [List.mem_cons, forall_eq_or_imp, exists_eq_or_imp]
    by_cases hisLoad : (phdr bytes i).IsLoad
    · rw [if_neg (fun h => htype.mp h hisLoad)]
      obtain ⟨b, hb, hbiff⟩ := hload
      rw [hb]
      cases b with
      | false =>
        have hnot : ¬ (phdr bytes i).Loadable bytes.length := fun h => by
          simpa using hbiff.mpr ⟨hisLoad, h⟩
        refine ⟨false, rfl, ?_⟩
        simp [hisLoad, hnot]
      | true =>
        have hloadable := (hbiff.mp rfl).2
        obtain ⟨e, he, heiff⟩ := hentry
        simp only [Exec.ok_bind, Bool.not_true, Bool.false_eq_true, if_false, he]
        cases e with
        | true =>
          apply (ih true true his' (fun _ => rfl)).congr
          simp [hisLoad, hloadable, heiff.mp rfl]
        | false =>
          have hnot : ¬ (phdr bytes i).Executes (ehdr bytes).entry := fun h => by
            simpa using heiff.mpr h
          apply (ih true entry his' (fun _ => rfl)).congr
          simp [hisLoad, hloadable, hnot]
    · rw [if_pos (htype.mpr hisLoad)]
      apply (ih found entry his' hflags).congr
      simp [hisLoad]

theorem elfValidateImage_decides :
    Decides (elfValidateImage (some bytes) (UInt64.ofNat bytes.length)) (Valid bytes) := by
  unfold elfValidateImage
  refine ((elfCheckSupported_decides hlen).andThen (Q := Valid bytes) fun hsup => ?_).congr
    ⟨fun h => h.2, fun h => ⟨h.supported, h⟩⟩
  rw [ePhnum_eq hsup.size, Exec.ok_bind, field16_toNat]
  refine (validateLoop_decides hlen hsup _ false false (fun i hi => List.mem_range.mp hi)
    (fun h => h)).congr ?_
  simp only [List.mem_range, Bool.false_eq_true, false_or]
  exact ⟨fun h => ⟨hsup, h.1, h.2⟩, fun h => ⟨h.segments, h.entry⟩⟩

end header

/-- The validator accepts an image, passed with its length, exactly when it is a loadable
executable. -/
theorem elfValidateImage_iff (bytes : List UInt8) (hlen : bytes.length < 2 ^ 64) :
    elfValidateImage (some bytes) (UInt64.ofNat bytes.length) = .ok true ↔ Valid bytes :=
  (elfValidateImage_decides hlen).eq_true_iff

/-- A header and one executable segment of one zero byte at the entry point 0. -/
def oneSegmentImage : List UInt8 :=
  [0x7F, 0x45, 0x4C, 0x46, 2, 1, 1] ++ List.replicate 9 0 ++ [2, 0, 62, 0, 1, 0, 0, 0] ++
    List.replicate 8 0 ++ [64] ++ List.replicate 19 0 ++ [64, 0, 56, 0, 1, 0] ++
    List.replicate 6 0 ++ [1, 0, 0, 0, 1, 0, 0, 0] ++ List.replicate 32 0 ++ [1] ++
    List.replicate 15 0

theorem elfValidateImage_oneSegmentImage : Valid oneSegmentImage :=
  (elfValidateImage_iff oneSegmentImage (by decide)).mp (by decide +kernel)

end EyaX.Elf
