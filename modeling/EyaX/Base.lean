import Mathlib.Algebra.Group.Int.Defs
import Mathlib.Algebra.Group.Nat.Defs
import Mathlib.Data.List.Basic

/-!
# How the kernel's C code is read

A C function is a function of the globals it reads, in the order the source writes them. Where the
source has no behaviour to speak of (an access outside an array, a signed overflow) or never comes
back (`hcf`), the function has no result but a `Stop`. A `for` loop over an index is a fold or a
recursion over the list of the index's values. `uint64_t` and `size_t` are `UInt64`, whose
arithmetic wraps as in C; an index that a loop bounds is a `Nat`.
-/

namespace EyaX

/-- Why a piece of C code has no next state. -/
inductive Stop
  /-- A read or a write outside the object. -/
  | outOfBounds
  /-- An `int` result outside the range of `int`. -/
  | signedOverflow
  /-- `hcf`: interrupts may come, but control does not return. -/
  | halt
  deriving DecidableEq, Repr

/-- The result of a piece of C code. -/
abbrev Exec := Except Stop

/-! ## `uint64_t` -/

theorem toNat_add {a b : UInt64} (h : a.toNat + b.toNat < 2 ^ 64) :
    (a + b).toNat = a.toNat + b.toNat := by
  rw [UInt64.toNat_add]
  exact Nat.mod_eq_of_lt h

theorem toNat_succ {a : UInt64} (h : a.toNat + 1 < 2 ^ 64) : (a + 1).toNat = a.toNat + 1 :=
  toNat_add h

theorem toNat_ofNat {n : Nat} (h : n < 2 ^ 64) : (UInt64.ofNat n).toNat = n :=
  UInt64.toNat_ofNat_of_lt' h

theorem one_le_toNat {a : UInt64} (h : a ≠ 0) : 1 ≤ a.toNat :=
  Nat.pos_of_ne_zero fun he => h (UInt64.toNat_inj.mp he)

theorem toNat_pred {a : UInt64} (h : 1 ≤ a.toNat) : (a - 1).toNat = a.toNat - 1 :=
  UInt64.toNat_sub_of_le _ _ (UInt64.le_iff_toNat_le.mpr h)

/-! ## Sequences -/

namespace Exec

variable {α β : Type}

-- Not by plain `rfl`: `simp` would then leave it to the kernel to compare the two sides, which
-- evaluates the tests of `f`.
@[simp] theorem ok_bind (a : α) (f : α → Exec β) : (Except.ok a >>= f : Exec β) = f a := (rfl)

@[simp] theorem pure_eq_ok (a : α) : (pure a : Exec α) = .ok a := rfl

/-- The result of an `int` operation. -/
def int (x : Int) : Exec Int := if -2 ^ 31 ≤ x ∧ x < 2 ^ 31 then .ok x else .error .signedOverflow

theorem int_eq {x : Int} (hlo : -2 ^ 31 ≤ x) (hhi : x < 2 ^ 31) : int x = .ok x :=
  if_pos ⟨hlo, hhi⟩

theorem int_eq_ok {x r : Int} (h : int x = .ok r) : r = x := by
  unfold int at h
  split at h
  · exact (Except.ok.inj h).symm
  · cases h

theorem bind_eq_ok {x : Exec α} {f : α → Exec β} {b : β} :
    (x >>= f) = .ok b ↔ ∃ a, x = .ok a ∧ f a = .ok b := by
  cases x with
  | error e => simp [bind, Except.bind]
  | ok a => simp [bind, Except.bind]

/-! ## Checks

A validator is a sequence of rejecting tests. `Decides x P` says that the check `x` ends and that
its answer is whether `P` holds. -/

def Decides (x : Exec Bool) (P : Prop) : Prop := ∃ b, x = .ok b ∧ (b = true ↔ P)

namespace Decides

variable {x : Exec Bool} {P Q : Prop}

theorem ok (b : Bool) : Decides (.ok b) (b = true) := ⟨b, rfl, Iff.rfl⟩

theorem congr (h : Decides x P) (hPQ : P ↔ Q) : Decides x Q := by
  obtain ⟨b, hx, hb⟩ := h
  exact ⟨b, hx, hb.trans hPQ⟩

/-- A test that rejects unless `P`, before the checks for `Q`. -/
theorem reject {c : Prop} [Decidable c] (hc : c ↔ ¬ P) (hx : P → Decides x Q) :
    Decides (if c then .ok false else x) (P ∧ Q) := by
  by_cases hP : P
  · rw [if_neg (fun h => hc.mp h hP)]
    exact (hx hP).congr (by simp [hP])
  · rw [if_pos (hc.mpr hP)]
    exact ⟨false, rfl, by simp [hP]⟩

theorem andThen {y : Exec Bool} (hx : Decides x P) (hy : P → Decides y Q) :
    Decides (x >>= fun b => if (!b) = true then .ok false else y) (P ∧ Q) := by
  obtain ⟨b, rfl, hb⟩ := hx
  refine reject ?_ hy
  rw [← hb, Bool.not_eq_true', Bool.not_eq_true]

theorem eq_true_iff (h : Decides x P) : x = .ok true ↔ P := by
  obtain ⟨b, rfl, hb⟩ := h
  rw [Except.ok.injEq]
  exact hb

end Decides

end Exec

end EyaX
