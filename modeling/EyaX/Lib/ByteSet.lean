import Mathlib.Data.Nat.Basic
import Mathlib.Tactic.IntervalCases

/-!
# Sets of numbers packed eight to a byte

An array of `n` bytes stands for a set of numbers below `8 * n`: number `i` is bit `i % 8` of byte
`i / 8`. Or-ing the mask of `i` into its byte inserts `i`, and-ing the complement removes it, and
neither touches another number, also not one that shares the byte.
-/

namespace ByteSet

variable {n : Nat}

/-- The byte in which only bit `i % 8` is set. -/
def mask (i : Nat) : UInt8 := 1 <<< UInt8.ofNat (i % 8)

/-- Whether the array has `i`. No number past its end is a member. -/
def test (v : Vector UInt8 n) (i : Nat) : Bool :=
  if h : i / 8 < n then (v[i / 8] &&& mask i) != 0 else false

/-! ## One byte -/

theorem mask_toBitVec (i : Nat) : (mask i).toBitVec = BitVec.twoPow 8 (i % 8) := by
  have h : i % 8 < 8 := Nat.mod_lt _ (by decide)
  unfold mask
  generalize i % 8 = k at h
  interval_cases k <;> rfl

/-- C shifts and complements an `unsigned int` and then keeps the lowest byte. -/
theorem mask_promoted (i : Nat) :
    ((1 : UInt32) <<< UInt32.ofNat (i % 8)).toUInt8 = mask i ∧
      (~~~((1 : UInt32) <<< UInt32.ofNat (i % 8))).toUInt8 = ~~~mask i := by
  have h : i % 8 < 8 := Nat.mod_lt _ (by decide)
  unfold mask
  generalize i % 8 = k at h
  interval_cases k <;> exact ⟨rfl, rfl⟩

theorem twoPow_ne_zero {k : Nat} (hk : k < 8) : BitVec.twoPow 8 k ≠ 0#8 := by
  interval_cases k <;> decide

theorem and_mask_ne_zero (b : UInt8) (i : Nat) :
    ((b &&& mask i) != 0) = b.toBitVec.getLsbD (i % 8) := by
  have h : i % 8 < 8 := Nat.mod_lt _ (by decide)
  rw [Bool.eq_iff_iff, bne_iff_ne, ne_eq, ← UInt8.toBitVec_inj, UInt8.toBitVec_and, mask_toBitVec,
    BitVec.and_twoPow]
  split
  · rename_i hb
    simpa [hb] using twoPow_ne_zero h
  · rename_i hb
    simpa using hb

theorem getLsbD_or_mask (b : UInt8) {i j : Nat} (h : j / 8 = i / 8) :
    (b ||| mask i).toBitVec.getLsbD (j % 8) = (decide (j = i) || b.toBitVec.getLsbD (j % 8)) := by
  have hi : i % 8 < 8 := Nat.mod_lt _ (by decide)
  have hbit : decide (i % 8 = j % 8) = decide (j = i) := decide_eq_decide.mpr (by omega)
  rw [UInt8.toBitVec_or, BitVec.getLsbD_or, mask_toBitVec, BitVec.getLsbD_twoPow, Bool.or_comm, hbit]
  simp [hi]

theorem getLsbD_and_mask (b : UInt8) {i j : Nat} (h : j / 8 = i / 8) :
    (b &&& ~~~mask i).toBitVec.getLsbD (j % 8) =
      (!decide (j = i) && b.toBitVec.getLsbD (j % 8)) := by
  have hi : i % 8 < 8 := Nat.mod_lt _ (by decide)
  have hj : j % 8 < 8 := Nat.mod_lt _ (by decide)
  have hbit : decide (i % 8 = j % 8) = decide (j = i) := decide_eq_decide.mpr (by omega)
  rw [UInt8.toBitVec_and, UInt8.toBitVec_not, BitVec.getLsbD_and, BitVec.getLsbD_not, mask_toBitVec,
    BitVec.getLsbD_twoPow, Bool.and_comm, hbit]
  simp [hi, hj]

theorem getLsbD_ones {k : Nat} (hk : k < 8) : (0xFF : UInt8).toBitVec.getLsbD k = true := by
  interval_cases k <;> rfl

/-! ## The array -/

theorem test_of_lt (v : Vector UInt8 n) {i : Nat} (h : i / 8 < n) :
    test v i = v[i / 8].toBitVec.getLsbD (i % 8) := by
  rw [test, dif_pos h, and_mask_ne_zero]

theorem lt_of_test {v : Vector UInt8 n} {i : Nat} (h : test v i = true) : i / 8 < n := by
  by_contra hn
  simp [test, hn] at h

theorem test_set (v : Vector UInt8 n) (b : UInt8) {i j : Nat} (h : i / 8 < n) :
    test (v.set (i / 8) b) j = if j / 8 = i / 8 then b.toBitVec.getLsbD (j % 8) else test v j := by
  by_cases hj : j / 8 < n
  · rw [test_of_lt _ hj, test_of_lt _ hj, Vector.getElem_set]
    by_cases he : i / 8 = j / 8
    · rw [if_pos he, if_pos he.symm]
    · rw [if_neg he, if_neg (Ne.symm he)]
  · rw [if_neg (by omega), test, test, dif_neg hj, dif_neg hj]

theorem test_set_or (v : Vector UInt8 n) {i : Nat} (h : i / 8 < n) (j : Nat) :
    test (v.set (i / 8) (v[i / 8] ||| mask i)) j = (decide (j = i) || test v j) := by
  rw [test_set v _ h]
  split
  · rename_i hj
    rw [getLsbD_or_mask _ hj, test_of_lt v (hj ▸ h)]
    simp only [hj]
  · rename_i hj
    have hne : j ≠ i := fun he => hj (by rw [he])
    simp [hne]

theorem test_set_and (v : Vector UInt8 n) {i : Nat} (h : i / 8 < n) (j : Nat) :
    test (v.set (i / 8) (v[i / 8] &&& ~~~mask i)) j = (!decide (j = i) && test v j) := by
  rw [test_set v _ h]
  split
  · rename_i hj
    rw [getLsbD_and_mask _ hj, test_of_lt v (hj ▸ h)]
    simp only [hj]
  · rename_i hj
    have hne : j ≠ i := fun he => hj (by rw [he])
    simp [hne]

theorem test_replicate_zero (i : Nat) : test (Vector.replicate n 0) i = false := by
  by_cases h : i / 8 < n
  · simp [test_of_lt _ h]
  · simp [test, h]

theorem test_replicate_ones {i : Nat} (h : i / 8 < n) :
    test (Vector.replicate n 0xFF) i = true := by
  rw [test_of_lt _ h, Vector.getElem_replicate]
  exact getLsbD_ones (Nat.mod_lt _ (by decide))

theorem ext {v w : Vector UInt8 n} (h : ∀ i, test v i = test w i) : v = w := by
  refine Vector.ext fun b hb => UInt8.toBitVec_inj.mp (BitVec.eq_of_getLsbD_eq fun k hk => ?_)
  have hdiv : (8 * b + k) / 8 = b := by omega
  have hmod : (8 * b + k) % 8 = k := by omega
  have hi := h (8 * b + k)
  rw [test_of_lt v (by omega), test_of_lt w (by omega)] at hi
  simpa only [hdiv, hmod] using hi

end ByteSet
