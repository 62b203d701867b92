import EyaX.Console.Effects
import EyaX.Lib.Numeral

/-!
# Numbers are printed as their canonical numerals

The digit loop fills its buffer from the least significant digit on and the second loop prints it
from the other end: together they print the canonical numeral. The largest 64-bit value has twenty
decimal digits, so the buffer never fills, and the magnitude of a negative value is reached without
an overflow because the addition of one comes before the negation.
-/

namespace EyaX.Console

open Interrupt Code

/-! ## Code that prints a text -/

/-- The code calls `eX_PrintChar` on the characters of the text, in order, and does nothing else. -/
def Prints (code : Code Stop Screen Unit) (text : List UInt8) : Prop := code = text.forM printChar

theorem forM_append (text text' : List UInt8) :
    (text ++ text').forM printChar = (text.forM printChar >>= fun _ => text'.forM printChar) :=
  List.forM_append

theorem printChar_prints (c : UInt8) : Prints (printChar c) [c] := (bind_pure (printChar c)).symm

theorem pure_prints : Prints (pure ()) [] := rfl

namespace Prints

variable {code code' : Code Stop Screen Unit} {text text' : List UInt8}

theorem run (h : Prints code text) (s : Screen) : code.run s = .ok ((), s.afterText text) := by
  rw [h]
  exact run_text text s

theorem append (h : Prints code text) (h' : Prints code' text') :
    Prints (code >>= fun _ => code') (text ++ text') := by
  unfold Prints at *
  rw [h, h', forM_append]

end Prints

/-! ## Numerals -/

theorem decimal_nodup : (bytes "0123456789").Nodup := by decide

theorem two_le_decimal : 2 ≤ (bytes "0123456789").length := by decide

def decimal : Numeral UInt8 := ⟨bytes "0123456789", decimal_nodup, two_le_decimal⟩

/-- The digits of base 16 in either case. -/
def hexDigits (uppercase : Bool) : List UInt8 :=
  if uppercase then bytes "0123456789ABCDEF" else bytes "0123456789abcdef"

theorem hexDigits_nodup (uppercase : Bool) : (hexDigits uppercase).Nodup := by
  cases uppercase <;> decide

theorem hexDigits_length (uppercase : Bool) : (hexDigits uppercase).length = 16 := by
  cases uppercase <;> rfl

theorem two_le_hexDigits (uppercase : Bool) : 2 ≤ (hexDigits uppercase).length := by
  rw [hexDigits_length]
  decide

def hexadecimal (uppercase : Bool) : Numeral UInt8 :=
  ⟨hexDigits uppercase, hexDigits_nodup uppercase, two_le_hexDigits uppercase⟩

theorem decimal_base : decimal.base = 10 := rfl

theorem hexadecimal_base (uppercase : Bool) : (hexadecimal uppercase).base = 16 :=
  hexDigits_length uppercase

/-! ## The digit loop -/

section digits

variable {A : Numeral UInt8} {digits : List UInt8}

theorem digits_getElem? (hdigits : A.digits <+: digits) (n : Nat) :
    digits[n % A.base]? = some (A.digit n) := by
  have hlt : n % A.base < A.digits.length := Nat.mod_lt n A.base_pos
  obtain ⟨rest, rfl⟩ := hdigits
  rw [List.getElem?_append_left hlt, List.getElem?_eq_getElem hlt]
  rfl

theorem fillBuffer_zero (digits : List UInt8) (base : UInt64) (room : Nat) {value : UInt64}
    (hvalue : ¬ 0 < value) (buffer : List UInt8) :
    fillBuffer digits base room value buffer = .ok buffer := by
  rw [fillBuffer.eq_def]
  exact if_neg hvalue

theorem fillBuffer_succ {digits : List UInt8} {base value : UInt64} {d : UInt8}
    (hvalue : 0 < value) (hd : digits[(value % base).toNat]? = some d) (room : Nat)
    (buffer : List UInt8) :
    fillBuffer digits base (room + 1) value buffer =
      fillBuffer digits base room (value / base) (d :: buffer) := by
  rw [fillBuffer.eq_def]
  show (if 0 < value then _ else _) = _
  rw [if_pos hvalue, hd]

/-- The loop puts the numeral of what is left in front of the digits it has already. -/
theorem fillBuffer_eq (hdigits : A.digits <+: digits) {base : UInt64}
    (hbase : base.toNat = A.base) : ∀ {room : Nat} {value : UInt64} (buffer : List UInt8),
      0 < value → value.toNat < A.base ^ room →
      fillBuffer digits base room value buffer = .ok (A.numeral value.toNat ++ buffer) := by
  intro room
  induction room with
  | zero =>
    intro value buffer hpos hlt
    have := UInt64.lt_iff_toNat_lt.mp hpos
    rw [Nat.pow_zero] at hlt
    exact absurd this (by rw [UInt64.toNat_zero]; omega)
  | succ room ih =>
    intro value buffer hpos hlt
    have hdigit : digits[(value % base).toNat]? = some (A.digit value.toNat) := by
      rw [UInt64.toNat_mod, hbase]
      exact digits_getElem? hdigits value.toNat
    have hdiv : (value / base).toNat = value.toNat / A.base := by rw [UInt64.toNat_div, hbase]
    rw [fillBuffer_succ hpos hdigit]
    by_cases hlast : value.toNat < A.base
    · have hzero : ¬ value / base > 0 := by
        rw [gt_iff_lt, UInt64.lt_iff_toNat_lt, hdiv, Nat.div_eq_of_lt hlast]
        exact Nat.lt_irrefl 0
      rw [fillBuffer_zero digits base room hzero, A.numeral_of_lt hlast]
      rfl
    · have hle := Nat.le_of_not_lt hlast
      have hmore : 0 < value / base := by
        rw [UInt64.lt_iff_toNat_lt, hdiv]
        exact Nat.div_pos hle A.base_pos
      have hroom : (value / base).toNat < A.base ^ room := by
        rw [hdiv]
        exact Nat.div_lt_of_lt_mul (by rwa [← Nat.pow_succ'])
      rw [ih _ hmore hroom, hdiv, A.numeral_of_le hle, List.append_assoc]
      rfl

end digits

/-! ## Printed numbers -/

/-- A value is printed as its numeral, where the table has the digits of the base and the numeral
fits into the buffer. -/
theorem printNumberUnsigned_prints {A : Numeral UInt8} {base : UInt32} {uppercase : Bool}
    (hdigits : A.digits <+: hexDigits uppercase) (hbase : base.toNat = A.base)
    (hzero : A.digit 0 = '0'.toUInt8) (value : UInt64) (hroom : value.toNat < A.base ^ 32) :
    Prints (printNumberUnsigned value base uppercase) (A.numeral value.toNat) := by
  have htable : A.digits <+: hexDigits uppercase ++ [0] :=
    hdigits.trans (List.prefix_append _ _)
  unfold printNumberUnsigned
  by_cases hvalue : value = 0
  · rw [if_pos hvalue, hvalue, UInt64.toNat_zero, A.numeral_of_lt A.base_pos, hzero]
    exact printChar_prints '0'.toUInt8
  · have hpos : 0 < value := UInt64.pos_iff_ne_zero.mpr hvalue
    have hcase : (if uppercase = true then cString "0123456789ABCDEF"
        else cString "0123456789abcdef") = hexDigits uppercase ++ [0] := by
      cases uppercase <;> rfl
    have hbase64 : base.toUInt64.toNat = A.base := hbase
    have hbuffer := fillBuffer_eq htable hbase64 [] hpos hroom
    rw [if_neg hvalue, hcase, hbuffer, List.append_nil]
    rfl

theorem printNumberUnsigned_decimal (value : UInt64) (uppercase : Bool) :
    Prints (printNumberUnsigned value 10 uppercase) (decimal.numeral value.toNat) := by
  have hdigits : decimal.digits <+: hexDigits uppercase := by
    cases uppercase <;> exact ⟨_, rfl⟩
  have hbase : (10 : UInt32).toNat = decimal.base := rfl
  refine printNumberUnsigned_prints hdigits hbase rfl value ?_
  exact value.toNat_lt.trans (by rw [decimal_base]; omega)

theorem printNumberUnsigned_hexadecimal (value : UInt64) (uppercase : Bool) :
    Prints (printNumberUnsigned value 16 uppercase)
      ((hexadecimal uppercase).numeral value.toNat) := by
  have hzero : (hexadecimal uppercase).digit 0 = '0'.toUInt8 := by
    cases uppercase <;> rfl
  have hbase : (16 : UInt32).toNat = (hexadecimal uppercase).base :=
    (hexadecimal_base uppercase).symm
  refine printNumberUnsigned_prints (List.prefix_refl _) hbase hzero value ?_
  exact value.toNat_lt.trans (by rw [hexadecimal_base]; omega)

/-- The decimal numeral of an integer. -/
def signed (value : Int) : List UInt8 :=
  if value < 0 then '-'.toUInt8 :: decimal.numeral value.natAbs else decimal.numeral value.natAbs

/-- The steps to the magnitude of a negative value stay in the range of `int64_t`, also for the
least value. -/
theorem magnitude_eq {value : Int64} (hneg : value.toInt < 0) :
    (do
      let successor ← int64 (value.toInt + 1)
      let negated ← int64 (-successor)
      return UInt64.ofInt negated + 1 : Exec UInt64) = .ok (UInt64.ofNat value.toInt.natAbs) := by
  have hle := value.le_toInt
  have hsucc : int64 (value.toInt + 1) = .ok (value.toInt + 1) := if_pos (by omega)
  have hnegated : int64 (-(value.toInt + 1)) = .ok (-(value.toInt + 1)) := if_pos (by omega)
  obtain ⟨m, hm⟩ : ∃ m : Nat, -(value.toInt + 1) = m := Int.eq_ofNat_of_zero_le (by omega)
  have habs : value.toInt.natAbs = m + 1 := by omega
  have hmod : ((m : Int) % 2 ^ 64).toNat = m := by omega
  have hofInt : UInt64.ofInt m = UInt64.ofNat m := congrArg UInt64.ofNat hmod
  rw [hsucc, Exec.ok_bind, hnegated, Exec.ok_bind, hm, habs, hofInt, UInt64.ofNat_add]
  rfl

theorem printNumberSigned_prints (value : Int64) :
    Prints (printNumberSigned value) (signed value.toInt) := by
  unfold printNumberSigned signed
  by_cases hneg : value < 0
  · have hint : value.toInt < 0 := by
      rwa [Int64.lt_iff_toInt_lt] at hneg
    have hle := value.le_toInt
    have hlt : value.toInt.natAbs < 2 ^ 64 := by omega
    have hnat : (UInt64.ofNat value.toInt.natAbs).toNat = value.toInt.natAbs :=
      toNat_ofNat hlt
    have hmagnitude := printNumberUnsigned_decimal (UInt64.ofNat value.toInt.natAbs) false
    rw [hnat] at hmagnitude
    rw [if_pos hneg, if_pos hint, magnitude_eq hint]
    exact (printChar_prints '-'.toUInt8).append hmagnitude
  · have hint : ¬ value.toInt < 0 := by
      rwa [Int64.lt_iff_toInt_lt] at hneg
    have hnat : value.toUInt64.toNat = value.toInt.natAbs := by
      have hcond := value.toBitVec.toInt_eq_toNat_cond
      have hlt := value.toBitVec.isLt
      change value.toInt = _ at hcond
      show value.toBitVec.toNat = _
      omega
    rw [if_neg hneg, if_neg hint, ← hnat]
    exact printNumberUnsigned_decimal value.toUInt64 false

/-- The characters printed for a number are its one canonical numeral: in base 10 and base 16 for
every unsigned value, with fewer characters than the buffer has room for, and with a sign exactly
for the negative values of `int64_t`. -/
theorem printNumber_exact :
    (∀ (value : UInt64) (uppercase : Bool),
      (∃! text, decimal.Canonical text value.toNat ∧
        Prints (printNumberUnsigned value 10 uppercase) text ∧ text.length < 32) ∧
      (∃! text, (hexadecimal uppercase).Canonical text value.toNat ∧
        Prints (printNumberUnsigned value 16 uppercase) text ∧ text.length < 32)) ∧
    (∀ value : Int64, ∃! text, decimal.Canonical text value.toInt.natAbs ∧
      Prints (printNumberSigned value)
        (if value.toInt < 0 then '-'.toUInt8 :: text else text)) := by
  refine ⟨fun value uppercase => ⟨?_, ?_⟩, fun value => ?_⟩
  · have hlt : value.toNat < decimal.base ^ (19 + 1) :=
      value.toNat_lt.trans (by rw [decimal_base]; omega)
    have hlength := lt_of_le_of_lt (decimal.numeral_length_le hlt) (by omega : 19 + 1 < 32)
    exact ⟨decimal.numeral value.toNat, ⟨decimal.canonical_numeral _,
      printNumberUnsigned_decimal value uppercase, hlength⟩, fun text h => h.1.eq_numeral⟩
  · have hlt : value.toNat < (hexadecimal uppercase).base ^ (15 + 1) := by
      rw [hexadecimal_base]
      exact value.toNat_lt.trans_le (by omega)
    have hlength := lt_of_le_of_lt ((hexadecimal uppercase).numeral_length_le hlt)
      (by omega : 15 + 1 < 32)
    exact ⟨(hexadecimal uppercase).numeral value.toNat,
      ⟨(hexadecimal uppercase).canonical_numeral _,
        printNumberUnsigned_hexadecimal value uppercase, hlength⟩, fun text h => h.1.eq_numeral⟩
  · exact ⟨decimal.numeral value.toInt.natAbs,
      ⟨decimal.canonical_numeral _, printNumberSigned_prints value⟩,
      fun text h => h.1.eq_numeral⟩

example : signed Int64.minValue.toInt = bytes "-9223372036854775808" := by decide

end EyaX.Console
