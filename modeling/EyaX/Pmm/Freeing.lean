import EyaX.Pmm.Ownership

/-!
# Which frees succeed

`pmm_free_page` accepts a frame when it is marked, and after `pmm_init` a frame is marked when it is
usable and was not freed yet: whether it was ever allocated plays no part. So a second free of a
frame is always rejected, a free of a frame that nobody asked for is not, and a free after an
allocation leaves a bit cleared that the allocation had found set.
-/

namespace EyaX.Pmm

open ByteSet (test)
open Fallible (Run)

/-- After `pmm_init` the marked frames are the usable ones that were not freed. -/
theorem Fresh.run_marked_iff {entries : List MemmapEntry} {s s' : State} {h : List Event}
    (hs : Fresh entries s) (hrun : Run step s h s') {p : Nat} (hp : p < 2 ^ 24) :
    Marked s' p ↔ Usable s p ∧ Event.free (frameAddress p) true ∉ h := by
  constructor
  · intro hmark
    refine ⟨(run_usable hs.initialized hrun p).mp hmark.1, fun hfree => ?_⟩
    exact run_freed hs.initialized hrun hp hfree hmark
  · rintro ⟨husable, hfree⟩
    exact run_still_marked hs.initialized hrun ((hs.marked p).mpr husable) hfree

/-- `pmm_free_page(a)` returns false and leaves the bitmaps and the counter as they are. -/
def Rejects (a : UInt64) (s : State) : Prop :=
  ∃ s', pmmFreePage a s = .ok (false, s') ∧ s'.bitmap = s.bitmap ∧
    s'.usableBitmap = s.usableBitmap ∧ s'.availablePages = s.availablePages

theorem rejects_iff {s : State} (hs : s.initialized = true) (a : UInt64) :
    Rejects a s ↔ ∀ p, Marked s p → a ≠ frameAddress p := by
  rcases pmmFreePage_spec hs a with ⟨p, bitmap, ha, hp, -, hres⟩ | ⟨hnone, hres⟩
  · refine iff_of_false ?_ fun hne => hne p hp ha
    rintro ⟨s', hs', -⟩
    rw [hres] at hs'
    cases hs'
  · exact iff_of_true ⟨s, hres, rfl, rfl, rfl⟩ hnone

/-! ## Double frees -/

/-- Two successful frees of one address have an allocation of it between them (no run has two), and
a rejected free changes nothing. -/
theorem double_free_rejected (entries : List MemmapEntry)
    (hlen : entries.length ≤ pmmMaxPages.toNat) (s₀ : State) :
    ∃ s, pmmInit (some ⟨some entries⟩) s₀ = .ok (true, s) ∧
      ∀ h s', Run step s h s' →
        (∀ h₁ h₂ h₃ a, h = h₁ ++ .free a true :: h₂ ++ .free a true :: h₃ →
          Event.alloc a ∈ h₂) ∧
        ∀ a s'', pmmFreePage a s' = .ok (false, s'') →
          s''.bitmap = s'.bitmap ∧ s''.usableBitmap = s'.usableBitmap ∧
            s''.availablePages = s'.availablePages := by
  obtain ⟨s, hinit⟩ := pmmInit_total hlen s₀
  have hs := (pmmInit_fresh hinit).2.initialized
  refine ⟨s, hinit, fun h s' hrun => ⟨?_, fun a s'' hfree => ?_⟩⟩
  · rintro h₁ h₂ h₃ a rfl
    obtain ⟨s₁, c, s₂, hrun₁, hstep, -⟩ := hrun.event
    -- the second free found a frame marked that the first one had unmarked for good
    obtain ⟨p, rfl, hmark, -⟩ := (step_cases (run_frame hs hrun₁).2 hstep).of_free
    exact absurd hmark (run_freed hs hrun₁ hmark.lt (by simp))
  · have hstep : step s' (.freePage a) = .ok (.free a false, s'') := by
      rw [step, hfree]
      rfl
    obtain ⟨-, rfl⟩ := (step_cases (run_frame hs hrun).2 hstep).of_reject
    exact ⟨rfl, rfl, rfl⟩

theorem double_free_rejected_one_frame :
    ∃ s, pmmInit (some ⟨some (framesFromOne 1)⟩) bss = .ok (true, s) ∧
      ∀ h s', Run step s h s' →
        (∀ h₁ h₂ h₃ a, h = h₁ ++ .free a true :: h₂ ++ .free a true :: h₃ →
          Event.alloc a ∈ h₂) ∧
        ∀ a s'', pmmFreePage a s' = .ok (false, s'') →
          s''.bitmap = s'.bitmap ∧ s''.usableBitmap = s'.usableBitmap ∧
            s''.availablePages = s'.availablePages :=
  double_free_rejected (framesFromOne 1) (by decide) bss

/-! ## Frees of frames nobody asked for -/

/-- `a` is the address of a frame that the map makes usable, other than frame zero. -/
def UsableAddress (entries : List MemmapEntry) (a : UInt64) : Prop :=
  ∃ p, p ≠ 0 ∧ p < pmmMaxPages.toNat ∧ a.toNat = 4096 * p ∧ ∃ entry ∈ entries, Inside entry p

theorem Fresh.usableAddress_iff {entries : List MemmapEntry} {s : State} (hs : Fresh entries s)
    (a : UInt64) : UsableAddress entries a ↔ ∃ p, Usable s p ∧ a = frameAddress p := by
  constructor
  · rintro ⟨p, hzero, hlt, ha, hin⟩
    refine ⟨p, (hs.usable_iff p).mpr ⟨hzero, hlt, hin⟩, ?_⟩
    rw [← UInt64.toNat_inj, ha, frameAddress_toNat hlt]
  · rintro ⟨p, husable, rfl⟩
    obtain ⟨hzero, hlt, hin⟩ := (hs.usable_iff p).mp husable
    exact ⟨p, hzero, hlt, frameAddress_toNat hlt, hin⟩

/-- An address, returned by `pmm_alloc_page` before or not, is rejected exactly when it is not a
usable frame's or was already freed once. -/
theorem rejects_unallocated_iff {entries : List MemmapEntry} {s₀ s s' : State} {h : List Event}
    (hinit : pmmInit (some ⟨some entries⟩) s₀ = .ok (true, s)) (hrun : Run step s h s')
    (a : UInt64) :
    Rejects a s' ↔ ¬ UsableAddress entries a ∨ Event.free a true ∈ h := by
  have hfresh := (pmmInit_fresh hinit).2
  rw [rejects_iff (run_frame hfresh.initialized hrun).2, hfresh.usableAddress_iff]
  constructor
  · intro hne
    by_cases hfree : Event.free a true ∈ h
    · exact Or.inr hfree
    · apply Or.inl
      rintro ⟨p, husable, rfl⟩
      exact hne p ((hfresh.run_marked_iff hrun husable.lt).mpr ⟨husable, hfree⟩) rfl
  · rintro hor p hmark rfl
    obtain ⟨husable, hfree⟩ := (hfresh.run_marked_iff hrun hmark.lt).mp hmark
    rcases hor with hnot | hmem
    · exact hnot ⟨p, husable, rfl⟩
    · exact hfree hmem

/-- The first call after `pmm_init` frees a frame that nobody allocated. -/
theorem frees_unallocated : ∃ s,
    pmmInit (some ⟨some (framesFromOne 1)⟩) bss = .ok (true, s) ∧ ¬ Rejects 0x1000 s := by
  obtain ⟨s, hinit, hs⟩ := exists_fresh (framesFromOne 1) (by decide)
  have hfirst := first_framesFromOne (by decide) (by decide) hs
  exact ⟨s, hinit, fun hrej => (rejects_iff hs.initialized _).mp hrej 1 hfirst.1 rfl⟩

theorem rejects_unallocated_again : ∃ s s',
    pmmInit (some ⟨some (framesFromOne 2)⟩) bss = .ok (true, s) ∧
    Run step s [.alloc 0x1000, .free 0x1000 true] s' ∧ Rejects 0x1000 s' ∧ ¬ Rejects 0x2000 s' := by
  obtain ⟨s, s', hinit, hrun, -⟩ := exists_alloc_free
  refine ⟨s, s', hinit, hrun, (rejects_unallocated_iff hinit hrun 0x1000).mpr (.inr (by simp)),
    fun hrejects => ?_⟩
  rcases (rejects_unallocated_iff hinit hrun 0x2000).mp hrejects with hnot | hfree
  · exact hnot ⟨2, by decide, by decide, rfl, _, List.mem_singleton.mpr rfl, rfl, by decide,
      by decide⟩
  · simp at hfree

/-! ## Freeing what was just allocated -/

/-- Freeing the page that `pmm_alloc_page` returns in `s` succeeds and leads back to `s`. -/
def FreeUndoesAlloc (s : State) : Prop :=
  ∀ a s₁, pmmAllocPage s = .ok (a, s₁) → a ≠ 0 →
    ∃ s₂, pmmFreePage a s₁ = .ok (true, s₂) ∧ s₂.bitmap = s.bitmap ∧
      s₂.usableBitmap = s.usableBitmap ∧ s₂.availablePages = s.availablePages

/-- A free right after an allocation succeeds and restores all but the bit of the frame, which was
set before. -/
theorem free_after_alloc {s : State} (hs : s.initialized = true) {p : Nat} (hp : First s p) :
    ∃ bitmap, (∀ j, test bitmap j = (!decide (j = p) && test s.bitmap j)) ∧
      pmmAllocPage s = .ok (frameAddress p, { s with availablePages := s.availablePages - 1 }) ∧
      pmmFreePage (frameAddress p) { s with availablePages := s.availablePages - 1 } =
        .ok (true, { s with bitmap := bitmap }) := by
  have halloc : pmmAllocPage s =
      .ok (frameAddress p, { s with availablePages := s.availablePages - 1 }) := by
    rcases pmmAllocPage_spec hs with ⟨q, hq, hres⟩ | ⟨hnone, -⟩
    · rw [hres, hp.unique hq]
    · exact absurd hp.1 (hnone p)
  rcases pmmFreePage_spec (s := { s with availablePages := s.availablePages - 1 }) hs
    (frameAddress p) with ⟨q, bitmap, ha, hq, hbitmap, hres⟩ | ⟨hne, -⟩
  · obtain rfl := frameAddress_injective hp.1.lt hq.lt ha
    refine ⟨bitmap, hbitmap, halloc, ?_⟩
    rw [hres]
    simp only [UInt64.sub_add_cancel]
  · exact absurd rfl (hne p hp.1)

theorem not_freeUndoesAlloc {s : State} (hs : s.initialized = true) {p : Nat} (hp : First s p) :
    ¬ FreeUndoesAlloc s := by
  intro hundo
  obtain ⟨bitmap, hbitmap, halloc, hfree⟩ := free_after_alloc hs hp
  obtain ⟨s₂, hfree', hsame, -⟩ := hundo _ _ halloc (frameAddress_ne_zero hp.1.1)
  rw [hfree] at hfree'
  cases hfree'
  have hset := hp.1.2
  change bitmap = s.bitmap at hsame
  rw [← hsame, hbitmap] at hset
  simp at hset

/-- In a reachable state the law holds only where `pmm_alloc_page` has no frame to return. -/
theorem freeUndoesAlloc_iff {response : Option MemmapResponse} {s₀ s s' : State}
    {h : List Event} (hinit : pmmInit response s₀ = .ok (true, s)) (hrun : Run step s h s') :
    FreeUndoesAlloc s' ↔
      ∀ p, p ≠ 0 → bitmapGet s'.usableBitmap p = .ok true → bitmapGet s'.bitmap p ≠ .ok true := by
  obtain ⟨entries, -, hfresh⟩ := pmmInit_true hinit
  have hs' := (run_frame hfresh.initialized hrun).2
  have hcond : (∀ p, p ≠ 0 → bitmapGet s'.usableBitmap p = .ok true →
      bitmapGet s'.bitmap p ≠ .ok true) ↔ ∀ p, ¬ Marked s' p := by
    apply forall_congr'
    intro p
    constructor
    · rintro hno ⟨⟨hzero, husable⟩, hmark⟩
      have hlt := lt_of_test husable
      refine hno hzero ?_ ?_
      · rw [bitmapGet_eq _ hlt, husable]
      · rw [bitmapGet_eq _ hlt, hmark]
    · intro hno hzero husable hmark
      exact hno ⟨⟨hzero, (bitmapGet_eq_ok husable).2.symm⟩, (bitmapGet_eq_ok hmark).2.symm⟩
  rw [hcond]
  constructor
  · intro hundo p hp
    obtain ⟨q, hq⟩ := hp.exists_first
    exact not_freeUndoesAlloc hs' hq hundo
  · intro hnone a s₁ halloc hzero
    rcases pmmAllocPage_spec hs' with ⟨q, hq, -⟩ | ⟨-, hres⟩
    · exact absurd hq.1 (hnone q)
    · rw [hres] at halloc
      cases halloc
      exact absurd rfl hzero

/-- Right after `pmm_init` with one usable frame, allocating and freeing it does not lead back. -/
theorem freeUndoesAlloc_one_frame : ∃ s,
    pmmInit (some ⟨some (framesFromOne 1)⟩) bss = .ok (true, s) ∧ ¬ FreeUndoesAlloc s := by
  obtain ⟨s, hinit, hs⟩ := exists_fresh (framesFromOne 1) (by decide)
  exact ⟨s, hinit, not_freeUndoesAlloc hs.initialized
    (first_framesFromOne (by decide) (by decide) hs)⟩

theorem freeUndoesAlloc_after_free : ∃ s s',
    pmmInit (some ⟨some (framesFromOne 2)⟩) bss = .ok (true, s) ∧
    Run step s [.alloc 0x1000, .free 0x1000 true] s' ∧
    (FreeUndoesAlloc s' ↔ ∀ p, p ≠ 0 → bitmapGet s'.usableBitmap p = .ok true →
      bitmapGet s'.bitmap p ≠ .ok true) ∧ ¬ FreeUndoesAlloc s' := by
  obtain ⟨s, s', hinit, hrun, hs', hfirst⟩ := exists_alloc_free
  exact ⟨s, s', hinit, hrun, freeUndoesAlloc_iff hinit hrun, not_freeUndoesAlloc hs' hfirst⟩

end EyaX.Pmm
