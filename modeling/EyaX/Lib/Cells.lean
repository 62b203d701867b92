import Mathlib.Data.Set.Lattice
import Mathlib.Data.Set.Pairwise.Basic
import Mathlib.Order.CompletePartialOrder

/-!
# Families of disjoint cells

A table of records that each own a set of points is a family of sets. Splitting cell `i` keeps a
part of it in slot `i` and moves the rest to slot `j`, whatever slot `j` held before. Cells stay
disjoint under any split; the points they cover together stay the same exactly when slot `j` was
empty. Nothing here depends on what the points are.
-/

namespace Cells

open Function

variable {ι α : Type} [DecidableEq ι] {f : ι → Set α} {i j : ι} {A B : Set α}

/-- Slot `i` keeps `A`, slot `j` gets `B`. -/
def split (f : ι → Set α) (i j : ι) (A B : Set α) : ι → Set α :=
  Function.update (Function.update f i A) j B

@[simp] theorem split_right : split f i j A B j = B := by
  rw [split, Function.update_self]

theorem split_left (hij : i ≠ j) : split f i j A B i = A := by
  rw [split, Function.update_of_ne hij, Function.update_self]

theorem split_of_ne {k : ι} (hi : k ≠ i) (hj : k ≠ j) : split f i j A B k = f k := by
  rw [split, Function.update_of_ne hj, Function.update_of_ne hi]

/-- Every cell after a split lies in a cell before it, and never in the one that slot `j` held. -/
theorem split_subset (hij : i ≠ j) (hA : A ⊆ f i) (hB : B ⊆ f i) (k : ι) :
    ∃ o, o ≠ j ∧ (k ≠ i → k ≠ j → o = k) ∧ split f i j A B k ⊆ f o := by
  by_cases hkj : k = j
  · subst hkj
    exact ⟨i, hij, fun _ h => absurd rfl h, by rwa [split_right]⟩
  by_cases hki : k = i
  · subst hki
    exact ⟨k, hij, fun h => absurd rfl h, by rwa [split_left hij]⟩
  · exact ⟨k, hkj, fun _ _ => rfl, by rw [split_of_ne hki hkj]⟩

theorem disjoint_split (hij : i ≠ j) (hA : A ⊆ f i) (hB : B ⊆ f i) {s : Set α}
    (hs : ∀ k, k ≠ j → Disjoint s (f k)) (k : ι) : Disjoint s (split f i j A B k) := by
  obtain ⟨o, ho, -, hsub⟩ := split_subset hij hA hB k
  exact (hs o ho).mono_right hsub

theorem pairwise_split (hf : Pairwise (Disjoint on f)) (hij : i ≠ j) (hA : A ⊆ f i) (hB : B ⊆ f i)
    (hAB : Disjoint A B) : Pairwise (Disjoint on split f i j A B) := by
  -- the parts of `f i` against a cell that the split leaves alone
  have hpart : ∀ {k : ι} {C : Set α}, C ⊆ f i → k ≠ i → k ≠ j →
      Disjoint C (split f i j A B k) := by
    intro k C hC hki hkj
    rw [split_of_ne hki hkj]
    exact (hf (Ne.symm hki)).mono_left hC
  have hright : ∀ k, k ≠ j → Disjoint B (split f i j A B k) := by
    intro k hkj
    by_cases hki : k = i
    · subst hki
      rw [split_left hij]
      exact hAB.symm
    · exact hpart hB hki hkj
  have hleft : ∀ k, k ≠ i → Disjoint A (split f i j A B k) := by
    intro k hki
    by_cases hkj : k = j
    · subst hkj
      rwa [split_right]
    · exact hpart hA hki hkj
  intro k l hkl
  show Disjoint (split f i j A B k) (split f i j A B l)
  by_cases hkj : k = j
  · subst hkj
    rw [split_right]
    exact hright l (Ne.symm hkl)
  by_cases hki : k = i
  · subst hki
    rw [split_left hij]
    exact hleft l (Ne.symm hkl)
  by_cases hlj : l = j
  · subst hlj
    rw [split_right]
    exact (hright k hkj).symm
  by_cases hli : l = i
  · subst hli
    rw [split_left hij]
    exact (hleft k hki).symm
  · rw [split_of_ne hki hkj, split_of_ne hli hlj]
    exact hf hkl

theorem mem_split_iff (hij : i ≠ j) (hAB : A ∪ B = f i) (x : α) :
    (∃ k, x ∈ split f i j A B k) ↔ ∃ k, k ≠ j ∧ x ∈ f k := by
  constructor
  · rintro ⟨k, hk⟩
    obtain ⟨o, ho, -, hsub⟩ := split_subset hij (hAB ▸ Set.subset_union_left)
      (hAB ▸ Set.subset_union_right) k
    exact ⟨o, ho, hsub hk⟩
  · rintro ⟨k, hkj, hk⟩
    by_cases hki : k = i
    · subst hki
      rw [← hAB] at hk
      rcases hk with hk | hk
      · exact ⟨k, by rwa [split_left hij]⟩
      · exact ⟨j, by rwa [split_right]⟩
    · exact ⟨k, by rwa [split_of_ne hki hkj]⟩

/-! ## Partitions -/

/-- The cells cover `U` exactly, each point once. -/
def Partitions (f : ι → Set α) (U : Set α) : Prop :=
  Pairwise (Disjoint on f) ∧ ∀ x, (∃ k, x ∈ f k) ↔ x ∈ U

variable {U : Set α}

omit [DecidableEq ι] in
theorem eq_of_mem (hf : Pairwise (Disjoint on f)) {k l : ι} {x : α} (hk : x ∈ f k) (hl : x ∈ f l) :
    k = l := by
  by_contra hne
  exact Set.disjoint_left.mp (hf hne) hk hl

omit [DecidableEq ι] in
theorem Partitions.existsUnique (hf : Partitions f U) {x : α} (hx : x ∈ U) : ∃! k, x ∈ f k := by
  obtain ⟨k, hk⟩ := (hf.2 x).mpr hx
  exact ⟨k, hk, fun l hl => eq_of_mem hf.1 hl hk⟩

/-- Splitting a cell of a partition leaves a partition exactly when the slot of the rest was
empty. -/
theorem Partitions.split_iff (hf : Partitions f U) (hij : i ≠ j) (hAB : A ∪ B = f i)
    (hdisj : Disjoint A B) : Partitions (split f i j A B) U ↔ f j = ∅ := by
  have hpair := pairwise_split hf.1 hij (hAB ▸ Set.subset_union_left)
    (hAB ▸ Set.subset_union_right) hdisj
  constructor
  · intro hsplit
    apply Set.eq_empty_of_forall_notMem
    intro x hx
    obtain ⟨k, hkj, hk⟩ := (mem_split_iff hij hAB x).mp ((hsplit.2 x).mpr ((hf.2 x).mp ⟨j, hx⟩))
    exact hkj (eq_of_mem hf.1 hk hx)
  · intro hempty
    refine ⟨hpair, fun x => ?_⟩
    rw [mem_split_iff hij hAB, ← hf.2 x]
    constructor
    · rintro ⟨k, -, hk⟩
      exact ⟨k, hk⟩
    · rintro ⟨k, hk⟩
      refine ⟨k, fun hkj => ?_, hk⟩
      rw [hkj, hempty] at hk
      exact hk

end Cells
