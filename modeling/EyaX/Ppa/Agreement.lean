import EyaX.Pmm.Placement
import EyaX.Ppa.Init

/-!
# Two allocators of one memory map

`pmm_init` and `eX_PPA_Init` read the same map, and neither knows of the other. Below the limit of
the first they agree on every frame but those that the bitmap of the second meets: these are as
usable as any other to the first.
-/

namespace EyaX.Ppa

open Console (Screen)
open Fallible (Run)
open Pmm (MemmapEntry)

variable {entries : List MemmapEntry}

/-! ## One frame -/

theorem inside_iff {entry : MemmapEntry} {page : UInt64} :
    Pmm.Inside entry page.toNat ↔ Usable entry ∧ frame page ⊆ span entry := by
  rw [frame_subset]
  exact Iff.rfl

section frames

variable (hr : Regular entries)

include hr

theorem usable_iff {t : Pmm.State} (hfresh : Pmm.Fresh entries t) {page : UInt64}
    (hlt : page.toNat < 2 ^ 24) :
    Pmm.Usable t page.toNat ↔ ∃ entry ∈ entries, Usable entry ∧ frame page ⊆ span entry := by
  rw [hfresh.usable_iff]
  simp only [inside_iff]
  constructor
  · exact fun h => h.2.2
  · rintro ⟨entry, hmem, husable, hsub⟩
    have habove := hr.above entry hmem husable
    have hbase := (frame_subset.mp hsub).1
    exact ⟨by omega, hlt, entry, hmem, husable, hsub⟩

theorem ppaInit_ends {s s' : State} {screen screen' : Screen}
    (h : (ppaInit entries s).run screen = .ok (s', screen')) :
    s'.pageCount = frameCount entries ∧ FreeMap entries s s' := by
  rcases placeBitmap_cases (bitmapSize entries) entries with ⟨hnull, -⟩ | ⟨entry, hmem, hentry⟩
  · rw [ppaInit_null hnull s screen] at h
    cases h
  · obtain ⟨husable, hlong, hplace⟩ := hentry
    have habove := hr.above entry hmem husable
    have hne : entry.base ≠ 0 := by
      rintro hzero
      rw [hzero] at habove
      exact absurd habove (by decide)
    have hroomy : Roomy entries entry := ⟨hmem, husable, hlong⟩
    rw [ppaInit_placed hplace hne s] at h
    cases h
    exact ⟨(hr.within_build hroomy s).pageCount, hr.freeMap hroomy s⟩

end frames

/-! ## Both at once -/

/-- On every map that keeps the bootloader's promises: below 64 GiB a frame is free to the second
allocator exactly when it is usable to the first and the second's bitmap lies elsewhere; a frame
that the bitmap fills is usable to the first all the same; and whatever the first allocates in any
run is free to the second, or meets its bitmap. -/
theorem allocators_agree (hr : Regular entries) {t₀ t : Pmm.State} {success : Bool}
    (hpmm : Pmm.pmmInit (some ⟨some entries⟩) t₀ = .ok (success, t)) {s s' : State}
    {screen screen' : Screen} (hppa : (ppaInit entries s).run screen = .ok (s', screen')) :
    (∀ page, page < s'.pageCount → page.toNat < 2 ^ 24 →
      (s'.used page = false ↔ Pmm.Usable t page.toNat ∧ Disjoint (frame page) (region s'))) ∧
    (∀ page, page.toNat < 2 ^ 24 → frame page ⊆ region s' → Pmm.Usable t page.toNat) ∧
    ∀ h t', Run Pmm.step t h t' → ∀ a, Pmm.Event.alloc a ∈ h → a ≠ 0 →
      ∃ page, page < s'.pageCount ∧ a.toNat = 4096 * page.toNat ∧
        (s'.used page = false ∨ ¬ Disjoint (frame page) (region s')) := by
  obtain ⟨-, hfresh⟩ := Pmm.pmmInit_fresh hpmm
  obtain ⟨hcount, hmap⟩ := ppaInit_ends hr hppa
  refine ⟨fun page hpage hlt => ?_, fun page hlt hsub => ?_, fun h t' hrun a ha hzero => ?_⟩
  · rw [usable_iff hr hfresh hlt]
    exact hmap.bits page hpage
  · obtain ⟨entry, hmem, husable, hlo, hhi⟩ := hmap.placed
    exact (usable_iff hr hfresh hlt).mpr ⟨entry, hmem, husable,
      hsub.trans (Set.Ico_subset_Ico hlo hhi)⟩
  · obtain ⟨p, hp, husable⟩ := Pmm.alloc_usable hfresh.initialized hrun ha hzero
    obtain ⟨-, hlt, -⟩ := (hfresh.usable_iff p).mp husable
    obtain ⟨page, rfl⟩ : ∃ page : UInt64, page.toNat = p := ⟨UInt64.ofNat p, toNat_ofNat (by omega)⟩
    obtain ⟨entry, hmem, hentry, hsub⟩ := (usable_iff hr hfresh hlt).mp husable
    have hpage : page < s'.pageCount := by
      rw [hcount]
      exact UInt64.lt_iff_toNat_lt.mpr (hr.lt_frameCount hmem hsub)
    refine ⟨page, hpage, by rw [hp, Pmm.frameAddress_toNat hlt], ?_⟩
    rw [hmap.bits page hpage, or_iff_not_imp_right, not_not]
    exact fun hdisjoint => ⟨⟨entry, hmem, hentry, hsub⟩, hdisjoint⟩

theorem allocators_agree_smallMap : ∃ (t : Pmm.State) (s' : State),
    (∀ page, page < s'.pageCount → page.toNat < 2 ^ 24 →
      (s'.used page = false ↔ Pmm.Usable t page.toNat ∧ Disjoint (frame page) (region s'))) ∧
    ∀ page, page.toNat < 2 ^ 24 → frame page ⊆ region s' → Pmm.Usable t page.toNat := by
  have hlength : smallMap.length ≤ Pmm.pmmMaxPages.toNat := by decide
  have hplace : placeBitmap (bitmapSize smallMap) smallMap =
      (⟨0x1000, 0x3000, 0⟩ : MemmapEntry).base := by decide
  obtain ⟨t, hpmm⟩ := Pmm.pmmInit_total hlength Pmm.reserved
  have hppa := ppaInit_placed hplace (by decide) boot
  have hrun : (ppaInit smallMap boot).run (Console.blank 8 8 32) = .ok (_, Console.blank 8 8 32) :=
    congrArg (fun code => code.run (Console.blank 8 8 32)) hppa
  obtain ⟨hagree, husable, -⟩ := allocators_agree regular_smallMap hpmm hrun
  exact ⟨t, _, hagree, husable⟩

end EyaX.Ppa
