import Mathlib.Data.List.Induction
import Mathlib.Data.List.Nodup
import Mathlib.Data.Nat.Digits.Defs

/-!
# Positional numerals

Numerals over any set of digit characters, most significant digit first: how a character string is
read, which numeral of a number is the canonical one, and how many digits it has.
-/

/-- The digit characters of a base, in the order of their values. -/
structure Numeral (α : Type) where
  digits : List α
  nodup : digits.Nodup
  two_le : 2 ≤ digits.length

namespace Numeral

variable {α : Type} (A : Numeral α)

def base : Nat := A.digits.length

theorem one_lt_base : 1 < A.base := A.two_le

theorem base_pos : 0 < A.base := Nat.zero_lt_of_lt A.one_lt_base

/-- The character of the last digit of a number. -/
def digit (n : Nat) : α := A.digits.get ⟨n % A.base, Nat.mod_lt n A.base_pos⟩

theorem digit_mod (n : Nat) : A.digit (n % A.base) = A.digit n := by
  unfold digit
  congr 2
  exact Nat.mod_mod n A.base

theorem digit_inj {m n : Nat} (hm : m < A.base) (hn : n < A.base) (h : A.digit m = A.digit n) :
    m = n := by
  have hmod : m % A.base = n % A.base := congrArg Fin.val ((List.Nodup.get_inj_iff A.nodup).mp h)
  rwa [Nat.mod_eq_of_lt hm, Nat.mod_eq_of_lt hn] at hmod

/-- The canonical numeral. -/
def numeral (n : Nat) : List α :=
  if n = 0 then [A.digit 0] else (Nat.digits A.base n).reverse.map A.digit

theorem numeral_of_lt {n : Nat} (h : n < A.base) : A.numeral n = [A.digit n] := by
  unfold numeral
  by_cases hn : n = 0
  · rw [if_pos hn, hn]
  · rw [if_neg hn, Nat.digits_of_lt A.base n hn h]
    rfl

theorem numeral_of_le {n : Nat} (h : A.base ≤ n) :
    A.numeral n = A.numeral (n / A.base) ++ [A.digit n] := by
  have hbase := A.base_pos
  have hdiv : n / A.base ≠ 0 := (Nat.div_pos h hbase).ne'
  unfold numeral
  rw [if_neg (by omega), if_neg hdiv, Nat.digits_def' A.one_lt_base (by omega), List.reverse_cons,
    List.map_append, List.map_singleton, A.digit_mod]

theorem numeral_ne_nil (n : Nat) : A.numeral n ≠ [] := by
  by_cases hlt : n < A.base
  · rw [A.numeral_of_lt hlt]
    simp
  · rw [A.numeral_of_le (Nat.le_of_not_lt hlt)]
    simp

theorem numeral_length_le {n : Nat} : ∀ {k : Nat}, n < A.base ^ (k + 1) →
    (A.numeral n).length ≤ k + 1 := by
  intro k
  induction k generalizing n with
  | zero =>
    intro h
    rw [Nat.zero_add, Nat.pow_one] at h
    rw [A.numeral_of_lt h]
    exact le_refl 1
  | succ k ih =>
    intro h
    by_cases hlt : n < A.base
    · rw [A.numeral_of_lt hlt]
      exact Nat.succ_le_succ (Nat.zero_le _)
    · rw [A.numeral_of_le (Nat.le_of_not_lt hlt), List.length_append, List.length_singleton]
      have hdiv : n / A.base < A.base ^ (k + 1) :=
        Nat.div_lt_of_lt_mul (by rwa [← Nat.pow_succ'])
      exact Nat.succ_le_succ (ih hdiv)

theorem head_numeral (n : Nat) : (A.numeral n).head? = some (A.digit 0) → n = 0 := by
  induction n using Nat.strong_induction_on with
  | _ n ih =>
    intro hhead
    by_cases hlt : n < A.base
    · rw [A.numeral_of_lt hlt, List.head?_singleton] at hhead
      exact A.digit_inj hlt A.base_pos (Option.some.inj hhead)
    · have hle := Nat.le_of_not_lt hlt
      have hpos := Nat.div_pos hle A.base_pos
      have hdiv : n / A.base < n := Nat.div_lt_self (by have := A.base_pos; omega) A.one_lt_base
      rw [A.numeral_of_le hle, List.head?_append_of_ne_nil _ (A.numeral_ne_nil _)] at hhead
      have := ih _ hdiv hhead
      omega

/-! ## Reading -/

variable [DecidableEq α]

/-- The value of a digit character. -/
def value (c : α) : Option Nat := A.digits.idxOf? c

theorem value_eq_some_iff {c : α} {d : Nat} : A.value c = some d ↔ d < A.base ∧ A.digit d = c := by
  unfold value digit
  rw [List.idxOf?_eq_some_iff]
  constructor
  · intro ⟨hd, hc, _⟩
    refine ⟨hd, ?_⟩
    rw [← hc]
    congr 2
    exact Nat.mod_eq_of_lt hd
  · intro ⟨hd, hc⟩
    have hget : A.digits[d] = c := by
      rw [← hc]
      congr 1
      exact (Nat.mod_eq_of_lt hd).symm
    refine ⟨hd, hget, fun j hj he => ?_⟩
    have hsame := A.nodup.getElem_inj_iff.mp (he.trans hget.symm)
    omega

/-- The value of a digit string. -/
def parse (text : List α) : Option Nat :=
  text.foldlM (fun n c => (A.value c).map fun d => A.base * n + d) 0

theorem parse_concat {text : List α} {c : α} {n : Nat} :
    A.parse (text ++ [c]) = some n ↔
      ∃ m d, A.parse text = some m ∧ A.value c = some d ∧ A.base * m + d = n := by
  unfold parse
  rw [List.foldlM_append]
  simp [Option.bind_eq_some_iff]

/-- The digit string denotes the number, and it has no leading zero unless it is the digit zero. -/
structure Canonical (text : List α) (n : Nat) : Prop where
  parses : A.parse text = some n
  nonempty : text ≠ []
  noLeadingZero : text.head? = some (A.digit 0) → text = [A.digit 0]

theorem parse_singleton {c : α} {n : Nat} : A.parse [c] = some n ↔ A.value c = some n := by
  unfold parse
  simp

theorem parse_numeral (n : Nat) : A.parse (A.numeral n) = some n := by
  induction n using Nat.strong_induction_on with
  | _ n ih =>
    by_cases hlt : n < A.base
    · rw [A.numeral_of_lt hlt, parse_singleton, value_eq_some_iff]
      exact ⟨hlt, rfl⟩
    · have hle := Nat.le_of_not_lt hlt
      have hdiv : n / A.base < n := Nat.div_lt_self (by have := A.base_pos; omega) A.one_lt_base
      rw [A.numeral_of_le hle, parse_concat]
      refine ⟨n / A.base, n % A.base, ih _ hdiv, ?_, Nat.div_add_mod n A.base⟩
      rw [value_eq_some_iff]
      exact ⟨Nat.mod_lt n A.base_pos, A.digit_mod n⟩

theorem mem_digits_of_parse {text : List α} {n : Nat} (h : A.parse text = some n) :
    ∀ c ∈ text, c ∈ A.digits := by
  induction text using List.reverseRecOn generalizing n with
  | nil => simp
  | append_singleton text c ih =>
    obtain ⟨m, d, hm, hd, -⟩ := A.parse_concat.mp h
    intro b hb
    rcases List.mem_append.mp hb with hfront | hlast
    · exact ih hm b hfront
    · rw [List.mem_singleton.mp hlast]
      exact List.isSome_idxOf?.mp (by rw [← value, hd]; rfl)

theorem canonical_numeral (n : Nat) : A.Canonical (A.numeral n) n := by
  refine ⟨A.parse_numeral n, A.numeral_ne_nil n, fun hhead => ?_⟩
  rw [A.head_numeral n hhead]
  exact A.numeral_of_lt A.base_pos

/-- There is one canonical numeral. -/
theorem Canonical.eq_numeral {A : Numeral α} {text : List α} {n : Nat}
    (h : A.Canonical text n) : text = A.numeral n := by
  induction text using List.reverseRecOn generalizing n with
  | nil => exact absurd rfl h.nonempty
  | append_singleton text c ih =>
    obtain ⟨m, d, hm, hd, hn⟩ := A.parse_concat.mp h.parses
    obtain ⟨hlt, hdigit⟩ := A.value_eq_some_iff.mp hd
    by_cases htext : text = []
    · subst htext
      obtain rfl : 0 = m := Option.some.inj hm
      rw [Nat.mul_zero, Nat.zero_add] at hn
      subst hn
      rw [A.numeral_of_lt hlt, hdigit]
      rfl
    · have hhead : (text ++ [c]).head? = text.head? := List.head?_append_of_ne_nil _ htext
      have hzero : text.head? ≠ some (A.digit 0) := by
        intro he
        have hlength := congrArg List.length (h.noLeadingZero (hhead.trans he))
        rw [List.length_append, List.length_singleton, List.length_singleton] at hlength
        exact htext (List.length_eq_zero_iff.mp (by omega))
      have hfront : text = A.numeral m := ih ⟨hm, htext, fun he => absurd he hzero⟩
      have hpos : m ≠ 0 := by
        intro he
        rw [he, A.numeral_of_lt A.base_pos] at hfront
        exact hzero (by rw [hfront, List.head?_singleton])
      have hle : A.base ≤ n := by
        have := Nat.le_mul_of_pos_right A.base (Nat.pos_of_ne_zero hpos)
        omega
      have hdiv : n / A.base = m := by
        rw [← hn, Nat.mul_add_div A.base_pos, Nat.div_eq_of_lt hlt, Nat.add_zero]
      have hmod : n % A.base = d := by
        rw [← hn, Nat.mul_add_mod, Nat.mod_eq_of_lt hlt]
      rw [A.numeral_of_le hle, hdiv, ← hfront, ← A.digit_mod n, hmod, hdigit]

end Numeral
