import EyaX.Pmm.Calls

/-!
# What the memory map decides

The state that `pmm_init` leaves is a function of the set of usable entries: the usable bitmap holds
exactly the frames that lie whole inside one of them, and the rest is the same for every map. The
position of an entry matters in one place only, as the index of the bit that the inner loop tests,
and there only whether it is inside the bitmap.
-/

namespace EyaX.Pmm

open ByteSet (test)
open Fallible (Run)

/-! ## The usable bitmap -/

/-- After `pmm_init` the usable bitmap is exact: overflowing, unaligned and overlapping entries
included, bit `p` is set when a usable entry contains frame `p` whole. -/
theorem usableBitmap_exact (entries : List MemmapEntry)
    (hlen : entries.length ≤ pmmMaxPages.toNat) (s₀ : State) :
    ∃ s, pmmInit (some ⟨some entries⟩) s₀ = .ok (true, s) ∧
      ∀ p < pmmMaxPages.toNat, bitmapGet s.usableBitmap p = .ok true ↔
        ∃ entry ∈ entries, entry.type = limineMemmapUsable ∧ entry.base.toNat ≤ 4096 * p ∧
          4096 * (p + 1) ≤ entry.base.toNat + entry.length.toNat := by
  obtain ⟨s, hinit⟩ := pmmInit_total hlen s₀
  have hfresh := (pmmInit_fresh hinit).2
  refine ⟨s, hinit, fun p hp => ?_⟩
  have husable := hfresh.usable p
  rw [bitmapGet_eq _ hp, Except.ok.injEq, husable]
  exact and_iff_right hp

/-- An unaligned entry whose end is past `2 ^ 64`. -/
def wrappingEntry : MemmapEntry := ⟨0x1800, 0xFFFFFFFFFFFFFFFF, limineMemmapUsable⟩

theorem usableBitmap_exact_wrappingEntry :
    ∃ s, pmmInit (some ⟨some [wrappingEntry]⟩) reserved = .ok (true, s) ∧
      ∀ p < pmmMaxPages.toNat, bitmapGet s.usableBitmap p = .ok true ↔
        ∃ entry ∈ [wrappingEntry], entry.type = limineMemmapUsable ∧
          entry.base.toNat ≤ 4096 * p ∧
            4096 * (p + 1) ≤ entry.base.toNat + entry.length.toNat :=
  usableBitmap_exact [wrappingEntry] (by decide) reserved

/-! ## The order of the entries -/

theorem Fresh.eq_of_inside {entries entries' : List MemmapEntry} {s s' : State}
    (hs : Fresh entries s) (hs' : Fresh entries' s')
    (hsame : ∀ p, (∃ entry ∈ entries, Inside entry p) ↔ ∃ entry ∈ entries', Inside entry p) :
    s = s' := by
  have husable : s.usableBitmap = s'.usableBitmap := by
    apply ByteSet.ext
    intro p
    rw [Bool.eq_iff_iff, hs.usable, hs'.usable, hsame]
  cases s
  cases s'
  rw [State.mk.injEq]
  exact ⟨hs.bitmap.trans hs'.bitmap.symm, husable, hs.availablePages.trans hs'.availablePages.symm,
    hs.initialized.trans hs'.initialized.symm⟩

/-- Permuting the entries of a map or repeating some changes nothing of what `pmm_init` leaves, nor
of what later calls return. -/
theorem pmmInit_order_irrelevant (entries entries' : List MemmapEntry)
    (hlen : entries.length ≤ pmmMaxPages.toNat) (hlen' : entries'.length ≤ pmmMaxPages.toNat)
    (hsame : ∀ entry, entry ∈ entries ↔ entry ∈ entries') (s₀ s₀' : State) :
    ∃ s s', pmmInit (some ⟨some entries⟩) s₀ = .ok (true, s) ∧
      pmmInit (some ⟨some entries'⟩) s₀' = .ok (true, s') ∧
      s.bitmap = s'.bitmap ∧ s.usableBitmap = s'.usableBitmap ∧
      s.availablePages = s'.availablePages ∧ ∀ h t, Run step s h t ↔ Run step s' h t := by
  obtain ⟨s, hinit⟩ := pmmInit_total hlen s₀
  obtain ⟨s', hinit'⟩ := pmmInit_total hlen' s₀'
  have heq : s = s' := by
    refine (pmmInit_fresh hinit).2.eq_of_inside (pmmInit_fresh hinit').2 fun p => ?_
    simp only [hsame]
  subst heq
  exact ⟨s, s, hinit, hinit', rfl, rfl, rfl, fun _ _ => Iff.rfl⟩

theorem pmmInit_order_irrelevant_swap :
    ∃ s s', pmmInit (some ⟨some [⟨0, 0x3000, 0⟩, wrappingEntry]⟩) reserved = .ok (true, s) ∧
      pmmInit (some ⟨some [wrappingEntry, ⟨0, 0x3000, 0⟩, wrappingEntry]⟩) reserved =
        .ok (true, s') ∧
      s.bitmap = s'.bitmap ∧ s.usableBitmap = s'.usableBitmap ∧
      s.availablePages = s'.availablePages ∧ ∀ h t, Run step s h t ↔ Run step s' h t :=
  pmmInit_order_irrelevant [⟨0, 0x3000, 0⟩, wrappingEntry]
    [wrappingEntry, ⟨0, 0x3000, 0⟩, wrappingEntry] (by decide) (by decide)
    (fun entry => by simp [or_comm]) reserved reserved

/-! ## The indices -/

/-- Every index that `pmm_init` and the later calls pass to the bitmap functions is below
`PMM_MAX_PAGES`: an access outside the bitmaps would have no result. -/
def IndicesInRange (entries : List MemmapEntry) : Prop :=
  ∀ s₀, ∃ s, pmmInit (some ⟨some entries⟩) s₀ = .ok (true, s) ∧
    ∀ h s', Run step s h s' → ∀ c, ∃ o s'', step s' c = .ok (o, s'')

theorem bitmapGet_outOfBounds_iff (bitmap : Bitmap) (index : Nat) :
    bitmapGet bitmap index = .error .outOfBounds ↔ pmmMaxPages.toNat ≤ index := by
  by_cases hlt : index < 2 ^ 24
  · rw [bitmapGet_eq bitmap hlt]
    exact iff_of_false (by simp) (Nat.not_le.mpr hlt)
  · rw [bitmapGet, dif_neg (fun hb => hlt (inRange_iff.mp hb))]
    exact iff_of_true rfl (Nat.le_of_not_lt hlt)

/-- All indices are in range exactly for the maps in which no entry at a position past
`PMM_MAX_PAGES` has a frame to free: frame numbers are clipped, addresses are checked, and the
position is the one index that nothing bounds. -/
theorem indicesInRange_iff (entries : List MemmapEntry) :
    IndicesInRange entries ↔
      ∀ (i : Nat) (hi : i < entries.length), pmmMaxPages.toNat ≤ i →
        ∀ p, p ≠ 0 → p < pmmMaxPages.toNat → ¬ Inside entries[i] p := by
  refine Iff.trans ?_ (pmmInit_total_iff entries reserved)
  constructor
  · intro hall
    obtain ⟨s, hinit, -⟩ := hall reserved
    exact ⟨s, hinit⟩
  · intro htotal s₀
    obtain ⟨s, hinit⟩ := (pmmInit_total_iff entries s₀).mpr ((pmmInit_total_iff _ _).mp htotal)
    have hs := (pmmInit_fresh hinit).2.initialized
    exact ⟨s, hinit, fun h s' hrun c => run_total hs hrun c⟩

theorem not_indicesInRange_of_late_frame {n : Nat} (hn : 2 ^ 24 ≤ n) (e : MemmapEntry) :
    ¬ IndicesInRange (List.replicate n e ++ [⟨0x1000, 0x1000, limineMemmapUsable⟩]) := by
  intro hall
  obtain ⟨s, hinit, -⟩ := hall reserved
  have hpos := (pmmInit_total_iff _ _).mp ⟨s, hinit⟩
  have hlt : n < (List.replicate n e ++
      [(⟨0x1000, 0x1000, limineMemmapUsable⟩ : MemmapEntry)]).length := by simp
  have hlast : (List.replicate n e ++
      [(⟨0x1000, 0x1000, limineMemmapUsable⟩ : MemmapEntry)]).get ⟨n, hlt⟩ =
      ⟨0x1000, 0x1000, limineMemmapUsable⟩ := by
    rw [List.get_eq_getElem, List.getElem_append_right (by simp)]
    simp
  have hin : Inside ((List.replicate n e ++
      [(⟨0x1000, 0x1000, limineMemmapUsable⟩ : MemmapEntry)]).get ⟨n, hlt⟩) 1 := by
    rw [hlast]
    exact ⟨rfl, by decide, by decide⟩
  exact hpos n hlt hn 1 (by decide) (by decide) hin

/-- One entry too many: a usable frame at position `PMM_MAX_PAGES`. -/
theorem indicesInRange_large_map :
    ¬ IndicesInRange
      (List.replicate pmmMaxPages.toNat ⟨0, 0, 1⟩ ++ [⟨0x1000, 0x1000, limineMemmapUsable⟩]) :=
  not_indicesInRange_of_late_frame (le_of_eq pmmMaxPages_toNat.symm) ⟨0, 0, 1⟩

end EyaX.Pmm
