import Mathlib.Data.List.Basic
import Mathlib.Tactic.Ring

/-!
# Little-endian fields of a byte string

The value of a byte string with the least significant byte first, and the value of the `n` bytes at
an offset of a larger one. Records write fields of given widths one behind the other; reading and
writing are inverse to each other.
-/

namespace LittleEndian

def value : List UInt8 → Nat
  | [] => 0
  | b :: bs => b.toNat + 256 * value bs

theorem value_lt (bs : List UInt8) : value bs < 256 ^ bs.length := by
  induction bs with
  | nil => simp [value]
  | cons b bs ih =>
    have hb := b.toNat_lt
    rw [value, List.length_cons, Nat.pow_succ]
    omega

/-- The `n` bytes at `offset`; bytes past the end count as missing. -/
def field (bytes : List UInt8) (offset n : Nat) : Nat := value ((bytes.drop offset).take n)

theorem field_lt (bytes : List UInt8) (offset n : Nat) : field bytes offset n < 256 ^ n := by
  refine lt_of_lt_of_le (value_lt _) (Nat.pow_le_pow_right (by decide) ?_)
  rw [List.length_take]
  exact Nat.min_le_left _ _

theorem field_one {bytes : List UInt8} {offset : Nat} (h : offset < bytes.length) :
    field bytes offset 1 = bytes[offset].toNat := by
  rw [field, List.drop_eq_getElem_cons h, List.take_succ_cons, List.take_zero]
  rfl

theorem field_congr {a b : List UInt8} {start length : Nat}
    (h : (a.drop start).take length = (b.drop start).take length) {offset n : Nat}
    (hlo : start ≤ offset) (hhi : offset + n ≤ start + length) :
    field a offset n = field b offset n := by
  have hcut : ∀ c : List UInt8,
      (c.drop offset).take n = (((c.drop start).take length).drop (offset - start)).take n := by
    intro c
    rw [List.drop_take, List.drop_drop, List.take_take, Nat.add_sub_cancel' hlo,
      Nat.min_eq_left (by omega)]
  rw [field, field, hcut a, hcut b, h]

/-! ## Writing -/

/-- The `n` lowest bytes of a number. -/
def encode : Nat → Nat → List UInt8
  | 0, _ => []
  | n + 1, v => UInt8.ofNat v :: encode n (v / 256)

@[simp] theorem encode_length (n v : Nat) : (encode n v).length = n := by
  induction n generalizing v with
  | zero => rfl
  | succ n ih => rw [encode, List.length_cons, ih]

theorem value_encode {n v : Nat} (h : v < 256 ^ n) : value (encode n v) = v := by
  induction n generalizing v with
  | zero =>
    rw [Nat.pow_zero] at h
    exact (Nat.lt_one_iff.mp h).symm
  | succ n ih =>
    have hdiv : v / 256 < 256 ^ n := Nat.div_lt_of_lt_mul (by rwa [Nat.pow_succ, Nat.mul_comm] at h)
    rw [encode, value, ih hdiv, UInt8.toNat_ofNat']
    exact Nat.mod_add_div v 256

theorem encode_value (bs : List UInt8) : encode bs.length (value bs) = bs := by
  induction bs with
  | nil => rfl
  | cons b bs ih =>
    have hb := b.toNat_lt
    have hdiv : (b.toNat + 256 * value bs) / 256 = value bs := by omega
    have hbyte : UInt8.ofNat (b.toNat + 256 * value bs) = b := by
      rw [← UInt8.toNat_inj, UInt8.toNat_ofNat']
      omega
    rw [value, List.length_cons, encode, hdiv, hbyte, ih]

theorem encode_field {bytes : List UInt8} {offset n : Nat} (h : offset + n ≤ bytes.length) :
    encode n (field bytes offset n) = (bytes.drop offset).take n := by
  have hlength : ((bytes.drop offset).take n).length = n := by
    rw [List.length_take, List.length_drop]
    omega
  have hencode := encode_value ((bytes.drop offset).take n)
  rwa [hlength] at hencode

theorem field_append_left {a : List UInt8} (b : List UInt8) {offset n : Nat}
    (h : offset + n ≤ a.length) : field (a ++ b) offset n = field a offset n := by
  rw [field, field, List.drop_append_of_le_length (by omega),
    List.take_append_of_le_length (by rw [List.length_drop]; omega)]

theorem field_append_right (a b : List UInt8) (offset n : Nat) :
    field (a ++ b) (a.length + offset) n = field b offset n := by
  rw [field, field, List.drop_length_add_append]

/-! ## Records -/

/-- Fields of given widths, one behind the other. -/
def record (fields : List (Nat × Nat)) : List UInt8 := fields.flatMap fun f => encode f.1 f.2

/-- The size of a record of fields of these widths. -/
def size : List Nat → Nat
  | [] => 0
  | n :: widths => n + size widths

theorem record_length (fields : List (Nat × Nat)) :
    (record fields).length = size (fields.map Prod.fst) := by
  induction fields with
  | nil => rfl
  | cons f fields ih =>
    rw [record, List.flatMap_cons, List.length_append, encode_length]
    exact congrArg (f.1 + ·) ih

/-- A field is read back where the fields before it end. -/
theorem field_record (before : List (Nat × Nat)) {n v : Nat} (h : v < 256 ^ n)
    (behind : List (Nat × Nat)) (rest : List UInt8) :
    field (record (before ++ (n, v) :: behind) ++ rest) (size (before.map Prod.fst)) n = v := by
  have hcut : record (before ++ (n, v) :: behind) ++ rest =
      record before ++ (encode n v ++ (record behind ++ rest)) := by
    simp only [record, List.flatMap_append, List.flatMap_cons, List.append_assoc]
  rw [hcut, ← record_length, ← Nat.add_zero (record before).length, field_append_right,
    field_append_left _ (by simp), field, List.drop_zero, List.take_of_length_le (by simp),
    value_encode h]

theorem field_record_get {fields : List (Nat × Nat)} {k n v : Nat} (hget : fields[k]? = some (n, v))
    (h : v < 256 ^ n) (rest : List UInt8) :
    field (record fields ++ rest) (size ((fields.take k).map Prod.fst)) n = v := by
  obtain ⟨hk, hkth⟩ := List.getElem?_eq_some_iff.mp hget
  have hfields : fields.take k ++ (n, v) :: fields.drop (k + 1) = fields := by
    rw [← hkth, ← List.drop_eq_getElem_cons hk, List.take_append_drop]
  have hfield := field_record (fields.take k) h (fields.drop (k + 1)) rest
  rwa [hfields] at hfield

/-- The fields of these widths from an offset on. -/
def fieldsAt (bytes : List UInt8) : Nat → List Nat → List (Nat × Nat)
  | _, [] => []
  | offset, n :: widths => (n, field bytes offset n) :: fieldsAt bytes (offset + n) widths

/-- Every stretch of a byte string is the record of its fields. -/
theorem record_fieldsAt (bytes : List UInt8) (widths : List Nat) :
    ∀ {offset : Nat}, offset + size widths ≤ bytes.length →
      record (fieldsAt bytes offset widths) = (bytes.drop offset).take (size widths) := by
  induction widths with
  | nil => exact fun _ => rfl
  | cons n widths ih =>
    intro offset h
    rw [size] at h ⊢
    rw [fieldsAt, record, List.flatMap_cons, encode_field (by omega), List.take_add, List.drop_drop]
    exact congrArg _ (ih (by omega))

end LittleEndian
