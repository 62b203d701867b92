import EyaX.Pmm.Calls
import Mathlib.Data.Finset.Card

/-!
# Who owns which frame

The polarity of `pmm_bitmap` decides everything here: allocation leaves the bit that it searches
for, so it returns the same frame until that frame is freed, and a freed frame is never marked
again. Hence at most one frame is outstanding at any time, the first marked one, and each property
of a page allocator below holds exactly as far as that allows.
-/

namespace EyaX.Pmm

open ByteSet (test)
open Fallible (Run)

/-! ## The calls, forwards -/

theorem step_alloc {s : State} (hs : s.initialized = true) {p : Nat} (hp : First s p) :
    step s .allocPage =
      .ok (.alloc (frameAddress p), { s with availablePages := s.availablePages - 1 }) := by
  rcases pmmAllocPage_spec hs with ⟨q, hq, hres⟩ | ⟨hnone, -⟩
  · rw [step, hres, hp.unique hq]
    rfl
  · exact absurd hp.1 (hnone p)

theorem step_exhausted {s : State} (hs : s.initialized = true) (hnone : ∀ p, ¬ Marked s p) :
    step s .allocPage = .ok (.alloc 0, s) := by
  rcases pmmAllocPage_spec hs with ⟨q, hq, -⟩ | ⟨-, hres⟩
  · exact absurd hq.1 (hnone q)
  · rw [step, hres]
    rfl

theorem step_free {s : State} (hs : s.initialized = true) {p : Nat} (hp : Marked s p) :
    ∃ s', step s (.freePage (frameAddress p)) = .ok (.free (frameAddress p) true, s') ∧
      s'.initialized = true ∧ ∀ q, Marked s' q ↔ q ≠ p ∧ Marked s q := by
  rcases pmmFreePage_spec hs (frameAddress p) with ⟨q, bitmap, ha, hq, hbitmap, hres⟩ | ⟨hne, -⟩
  · obtain rfl := frameAddress_injective hp.lt hq.lt ha
    refine ⟨{ s with bitmap := bitmap, availablePages := s.availablePages + 1 },
      by rw [step, hres]; rfl, hs, fun j => ?_⟩
    show Usable s j ∧ test bitmap j = true ↔ j ≠ p ∧ Usable s j ∧ test s.bitmap j = true
    rw [hbitmap, Bool.and_eq_true, Bool.not_eq_true', decide_eq_false_iff_not]
    exact and_left_comm
  · exact absurd rfl (hne p hp)

/-! ## At most one frame is outstanding -/

/-- An outstanding frame is the first marked one: allocation returned it from there, and nothing but
freeing it takes it away. -/
theorem outstanding_first {s s' : State} {h : List Event} (hs : s.initialized = true)
    (hrun : Run step s h s') :
    ∀ a ∈ outstanding h, ∃ p, a = frameAddress p ∧ First s' p := by
  refine hrun.invariant (I := fun h s' => ∀ a ∈ outstanding h, ∃ p, a = frameAddress p ∧ First s' p)
    (by simp) ?_
  intro h₁ s₁ c o s₂ hrun₁ ih hstep a ha
  have hS := step_cases (run_frame hs hrun₁).2 hstep
  -- a frame that stays marked stays the first one
  have hkeep : ∀ p, First s₁ p → o ≠ .free (frameAddress p) true → First s₂ p := fun p hp hne =>
    ⟨hS.still_marked hp.1 hne, fun q hq => hp.2 q (hS.marked hq)⟩
  rw [outstanding_snoc] at ha
  cases hS with
  | alloc p hp =>
    rw [own, if_neg (frameAddress_ne_zero hp.1.1), Finset.mem_insert] at ha
    rcases ha with rfl | ha
    · exact ⟨p, rfl, hkeep p hp (by simp)⟩
    · obtain ⟨q, rfl, hq⟩ := ih a ha
      exact ⟨q, rfl, hkeep q hq (by simp)⟩
  | exhausted hnone =>
    obtain ⟨q, rfl, hq⟩ := ih a (by simpa [own] using ha)
    exact ⟨q, rfl, hq⟩
  | reject b hb =>
    obtain ⟨q, rfl, hq⟩ := ih a (by simpa [own] using ha)
    exact ⟨q, rfl, hq⟩
  | free p bitmap hp hbitmap =>
    rw [own, Finset.mem_erase] at ha
    obtain ⟨q, rfl, hq⟩ := ih a ha.2
    refine ⟨q, rfl, hkeep q hq fun he => ha.1 ?_⟩
    rw [Event.free.injEq] at he
    exact he.1.symm

/-! ## A concrete map -/

/-- The globals at boot. -/
def bss : State where
  bitmap := Vector.replicate pmmBitmapSize 0
  usableBitmap := Vector.replicate pmmBitmapSize 0
  availablePages := 0
  initialized := false

/-- The map of one usable entry that covers exactly the frames `1` to `n`. -/
def framesFromOne (n : Nat) : List MemmapEntry := [⟨0x1000, UInt64.ofNat (4096 * n), limineMemmapUsable⟩]

theorem usable_framesFromOne {n : Nat} (hn : n < 2 ^ 20) {s : State}
    (hs : Fresh (framesFromOne n) s) (p : Nat) : Usable s p ↔ 1 ≤ p ∧ p ≤ n := by
  have hlen : (UInt64.ofNat (4096 * n)).toNat = 4096 * n := by
    rw [UInt64.toNat_ofNat']
    omega
  rw [Usable, hs.usable]
  simp only [framesFromOne, List.mem_singleton, exists_eq_left, Inside, hlen, true_and]
  show p ≠ 0 ∧ p < 2 ^ 24 ∧ 4096 ≤ 4096 * p ∧ 4096 * (p + 1) ≤ 4096 + 4096 * n ↔ 1 ≤ p ∧ p ≤ n
  omega

theorem Fresh.marked {entries : List MemmapEntry} {s : State} (hs : Fresh entries s) (p : Nat) :
    Marked s p ↔ Usable s p := by
  refine ⟨fun h => h.1, fun h => ⟨h, ?_⟩⟩
  rw [hs.bitmap]
  exact test_reserved h.lt

theorem exists_fresh (entries : List MemmapEntry) (hlen : entries.length ≤ 2 ^ 24) :
    ∃ s, pmmInit (some ⟨some entries⟩) bss = .ok (true, s) ∧ Fresh entries s := by
  obtain ⟨s, hs⟩ := pmmInit_total hlen bss
  exact ⟨s, hs, (pmmInit_fresh hs).2⟩

theorem first_framesFromOne {n : Nat} (hn : n < 2 ^ 20) (hpos : 1 ≤ n) {s : State}
    (hs : Fresh (framesFromOne n) s) : First s 1 := by
  refine ⟨(hs.marked 1).mpr ((usable_framesFromOne hn hs 1).mpr ⟨le_refl 1, hpos⟩), fun q hq => ?_⟩
  exact ((usable_framesFromOne hn hs q).mp hq.1).1

theorem exists_alloc_free : ∃ s s', pmmInit (some ⟨some (framesFromOne 2)⟩) bss = .ok (true, s) ∧
    Run step s [.alloc 0x1000, .free 0x1000 true] s' ∧ s'.initialized = true ∧ First s' 2 := by
  obtain ⟨s, hinit, hs⟩ := exists_fresh (framesFromOne 2) (by decide)
  have h₁ := first_framesFromOne (by decide) (by decide) hs
  have hs₀ := hs.initialized
  have run₁ := Run.single (step_alloc hs₀ h₁)
  obtain ⟨s₂, hfree, hs₂, hmarked⟩ := step_free (run_frame hs₀ run₁).2 (p := 1) h₁.1
  refine ⟨s, s₂, hinit, run₁.snoc hfree, hs₂, ?_, fun q hq => ?_⟩
  · refine (hmarked 2).mpr ⟨by decide, (hs.marked 2).mpr ?_⟩
    exact (usable_framesFromOne (by decide) hs 2).mpr ⟨by decide, by decide⟩
  · obtain ⟨hne, hq⟩ := (hmarked q).mp hq
    have hpos := h₁.2 q hq
    omega

/-! ## No double allocation -/

/-- Between two calls that return the same frame there is a call that freed it. -/
def NoDoubleAllocation (h : List Event) : Prop :=
  ∀ h₁ h₂ h₃ a, h = h₁ ++ .alloc a :: h₂ ++ .alloc a :: h₃ → a ≠ 0 → Event.free a true ∈ h₂

/-- The callers ask for a frame only when they own none. -/
def AllocatesEmptyHanded (h : List Event) : Prop :=
  ∀ h₁ h₂ a, h = h₁ ++ .alloc a :: h₂ → outstanding h₁ = ∅

theorem noDoubleAllocation_iff {h : List Event} :
    NoDoubleAllocation h ↔
      ∀ h₁ h₂ a, h = h₁ ++ .alloc a :: h₂ → a ≠ 0 → a ∉ outstanding h₁ := by
  constructor
  · rintro hno h₁ h₂ a rfl hzero hmem
    obtain ⟨-, h₃, h₄, rfl, hfree⟩ := mem_outstanding.mp hmem
    exact hfree (hno h₃ h₄ h₂ a rfl hzero)
  · rintro hno h₁ h₂ h₃ a rfl hzero
    by_contra hfree
    exact hno _ h₃ a rfl hzero (mem_outstanding.mpr ⟨hzero, h₁, h₂, rfl, hfree⟩)

/-- A run allocates no frame twice exactly when every `pmm_alloc_page` of it is called while no
frame is outstanding. -/
theorem noDoubleAllocation_iff_allocatesEmptyHanded {response : Option MemmapResponse}
    {s₀ s s' : State} {h : List Event} (hinit : pmmInit response s₀ = .ok (true, s))
    (hrun : Run step s h s') : NoDoubleAllocation h ↔ AllocatesEmptyHanded h := by
  obtain ⟨entries, -, hfresh⟩ := pmmInit_true hinit
  have hs := hfresh.initialized
  rw [noDoubleAllocation_iff]
  constructor
  · rintro hno h₁ h₂ a rfl
    obtain ⟨s₁, c, s₂, hrun₁, hstep, -⟩ := hrun.event
    apply Finset.eq_empty_of_forall_notMem
    intro b hb
    obtain ⟨p, rfl, hp⟩ := outstanding_first hs hrun₁ b hb
    rcases (step_cases (run_frame hs hrun₁).2 hstep).of_alloc with ⟨q, rfl, hq, -⟩ | ⟨-, hnone, -⟩
    · rw [← hp.unique hq] at hno
      exact hno h₁ h₂ _ rfl (frameAddress_ne_zero hp.1.1) hb
    · exact hnone p hp.1
  · rintro hempty h₁ h₂ a rfl _
    rw [hempty h₁ h₂ a rfl]
    exact Finset.notMem_empty a

theorem noDoubleAllocation_alternating : ∃ s s',
    pmmInit (some ⟨some (framesFromOne 2)⟩) bss = .ok (true, s) ∧
    Run step s [.alloc 0x1000, .free 0x1000 true, .alloc 0x2000] s' ∧
    (NoDoubleAllocation [.alloc 0x1000, .free 0x1000 true, .alloc 0x2000] ↔
      AllocatesEmptyHanded [.alloc 0x1000, .free 0x1000 true, .alloc 0x2000]) := by
  obtain ⟨s, s₂, hinit, run₂, hs₂, h₂⟩ := exists_alloc_free
  have hrun : Run step s [.alloc 0x1000, .free 0x1000 true, .alloc 0x2000] _ :=
    run₂.snoc (step_alloc hs₂ h₂)
  exact ⟨s, _, hinit, hrun, noDoubleAllocation_iff_allocatesEmptyHanded hinit hrun⟩

/-- Two calls in a row return the same frame, although another one is free. -/
theorem double_allocation : ∃ s s',
    pmmInit (some ⟨some (framesFromOne 2)⟩) bss = .ok (true, s) ∧
    Run step s [.alloc 0x1000, .alloc 0x1000] s' ∧
    ¬ NoDoubleAllocation [.alloc 0x1000, .alloc 0x1000] := by
  obtain ⟨s, hinit, hs⟩ := exists_fresh (framesFromOne 2) (by decide)
  have hfirst := first_framesFromOne (by decide) (by decide) hs
  have run₁ := Run.single (step_alloc hs.initialized hfirst)
  refine ⟨s, _, hinit, run₁.snoc (step_alloc (p := 1) (run_frame hs.initialized run₁).2 hfirst), ?_⟩
  intro hno
  have hfree := hno [] [] [] 0x1000 rfl (by decide)
  simp at hfree

/-! ## Exhaustion and reuse -/

/-- The usable frames as a finite set. -/
def usableFrames (s : State) : Finset Nat :=
  (Finset.range pmmMaxPages.toNat).filter fun p => p ≠ 0 ∧ test s.usableBitmap p = true

theorem mem_usableFrames {s : State} {p : Nat} : p ∈ usableFrames s ↔ Usable s p := by
  rw [usableFrames, Finset.mem_filter, Finset.mem_range, pmmMaxPages_toNat]
  exact ⟨fun h => h.2, fun h => ⟨h.lt, h⟩⟩

theorem usableFrames_eq_empty {s : State} (h : ∀ p, ¬ Usable s p) : usableFrames s = ∅ :=
  Finset.eq_empty_of_forall_notMem fun p hp => h p (mem_usableFrames.mp hp)

/-- The next `pmm_alloc_page` returns zero. -/
def AllocFails (s : State) : Prop := ∃ s', pmmAllocPage s = .ok (0, s')

/-- Callers own every usable frame. -/
def AllOutstanding (h : List Event) (s : State) : Prop :=
  ∀ p, Usable s p → frameAddress p ∈ outstanding h

/-- As many calls as there are usable frames return distinct frames, and one more call returns
none. -/
def HandsOutAll (s : State) : Prop :=
  ∃ as : List UInt64, as.length = (usableFrames s).card ∧ as.Nodup ∧ 0 ∉ as ∧
    ∃ s', Run step s ((as ++ [0]).map .alloc) s'

theorem allocFails_iff {s : State} (hs : s.initialized = true) :
    AllocFails s ↔ ∀ p, ¬ Marked s p := by
  rcases pmmAllocPage_spec hs with ⟨p, hp, hres⟩ | ⟨hnone, hres⟩
  · constructor
    · rintro ⟨s', hs'⟩
      rw [hres, Except.ok.injEq, Prod.mk.injEq] at hs'
      exact absurd hs'.1 (frameAddress_ne_zero hp.1.1)
    · intro hnone
      exact absurd hp.1 (hnone p)
  · exact ⟨fun _ => hnone, fun _ => ⟨s, hres⟩⟩

theorem free_final {s s' s'' : State} {h h' : List Event} (hs : s.initialized = true)
    (hrun : Run step s h s') {a : UInt64} (ha : Event.free a true ∈ h)
    (hrun' : Run step s' h' s'') : Event.alloc a ∉ h' := by
  intro halloc
  obtain ⟨h₁, h₂, rfl⟩ := List.append_of_mem ha
  obtain ⟨s₁, c₁, s₂, hrun₁, hstep₁, -⟩ := hrun.event
  obtain ⟨p, rfl, hp, -⟩ := (step_cases (run_frame hs hrun₁).2 hstep₁).of_free
  obtain ⟨h₃, h₄, rfl⟩ := List.append_of_mem halloc
  obtain ⟨s₃, c₃, s₄, hrun₃, hstep₃, -⟩ := hrun'.event
  have hrun₀ := hrun.append hrun₃
  rcases (step_cases (run_frame hs hrun₀).2 hstep₃).of_alloc with ⟨q, hq, hfirst, -⟩ | ⟨hzero, -⟩
  · obtain rfl := frameAddress_injective hp.lt hfirst.1.lt hq
    exact run_freed hs hrun₀ hp.lt (List.mem_append_left _ ha) hfirst.1
  · exact frameAddress_ne_zero hp.1 hzero

theorem handsOutAll_iff {entries : List MemmapEntry} {s : State} (hs : Fresh entries s) :
    HandsOutAll s ↔ ∀ p, ¬ Usable s p := by
  constructor
  · rintro ⟨as, -, -, -, s', hrun⟩ p hp
    rw [List.map_append] at hrun
    obtain ⟨s₁, c, s₂, hrun₁, hstep, -⟩ := Run.event hrun
    have hmark : Marked s₁ p :=
      run_still_marked hs.initialized hrun₁ ((hs.marked p).mpr hp) (by simp)
    rcases (step_cases (run_frame hs.initialized hrun₁).2 hstep).of_alloc with
      ⟨q, hq, hfirst, -⟩ | ⟨-, hnone, -⟩
    · exact frameAddress_ne_zero hfirst.1.1 hq.symm
    · exact hnone p hmark
  · intro hnone
    refine ⟨[], by rw [usableFrames_eq_empty hnone]; rfl, List.nodup_nil, List.not_mem_nil, s, ?_⟩
    exact Run.single (step_exhausted hs.initialized fun p hp => hnone p hp.1)

/-- Only the first marked frame is ever outstanding, so a second usable frame is not. -/
theorem not_allOutstanding_iff {s : State} {h : List Event}
    (hfirst : ∀ a ∈ outstanding h, ∃ p, a = frameAddress p ∧ First s p) {u : Nat}
    (hu : Usable s u) :
    ¬ AllOutstanding h s ↔
      outstanding h = ∅ ∨ ∃ p q, p ≠ q ∧ Usable s p ∧ Usable s q := by
  constructor
  · intro hnot
    by_contra hno
    push Not at hno
    obtain ⟨⟨a, ha⟩, hsame⟩ := hno
    -- the only usable frame is the outstanding one
    obtain ⟨p, rfl, hp⟩ := hfirst a ha
    apply hnot
    intro q hq
    by_cases hpq : p = q
    · rwa [← hpq]
    · exact absurd hq (hsame p q hpq hp.1.1)
  · rintro (hempty | ⟨p, q, hpq, hp, hq⟩) hall
    · exact absurd (hall u hu) (by rw [hempty]; exact Finset.notMem_empty _)
    · obtain ⟨p', hp', hfp⟩ := hfirst _ (hall p hp)
      obtain ⟨q', hq', hfq⟩ := hfirst _ (hall q hq)
      apply hpq
      rw [frameAddress_injective hp.lt hfp.1.lt hp', frameAddress_injective hq.lt hfq.1.lt hq']
      exact hfp.unique hfq

/-- When `pmm_alloc_page` fails exactly because every usable frame is outstanding: where there is no
usable frame at all, or some usable frame was never freed and nothing is outstanding or a second
usable frame exists. The frames of a map can all be handed out in a row only if it has none, and a
freed frame is never obtained again. -/
theorem allocFails_iff_allOutstanding {response : Option MemmapResponse} {s₀ s s' : State}
    {h : List Event} (hinit : pmmInit response s₀ = .ok (true, s)) (hrun : Run step s h s') :
    ((AllocFails s' ↔ AllOutstanding h s') ↔
      (∀ p, ¬ Usable s' p) ∨ (∃ p, Marked s' p) ∧
        (outstanding h = ∅ ∨ ∃ p q, p ≠ q ∧ Usable s' p ∧ Usable s' q)) ∧
    (HandsOutAll s ↔ ∀ p, ¬ Usable s p) ∧
    (∀ a, Event.free a true ∈ h → ∀ h' s'', Run step s' h' s'' → Event.alloc a ∉ h') := by
  obtain ⟨entries, -, hfresh⟩ := pmmInit_true hinit
  have hs := hfresh.initialized
  have hfirst := outstanding_first hs hrun
  refine ⟨?_, handsOutAll_iff hfresh, fun a ha h' s'' hrun' => free_final hs hrun ha hrun'⟩
  rw [allocFails_iff (run_frame hs hrun).2]
  by_cases husable : ∀ p, ¬ Usable s' p
  · apply iff_of_true
    · exact iff_of_true (fun p hp => husable p hp.1) fun p hp => absurd hp (husable p)
    · exact Or.inl husable
  rw [or_iff_right husable]
  push Not at husable
  obtain ⟨u, hu⟩ := husable
  by_cases hmarked : ∃ p, Marked s' p
  · rw [and_iff_right hmarked, ← not_allOutstanding_iff hfirst hu]
    obtain ⟨m, hm⟩ := hmarked
    exact iff_false_left fun hnone => hnone m hm
  · have hnone : ∀ p, ¬ Marked s' p := fun p hp => hmarked ⟨p, hp⟩
    apply iff_of_false
    · intro hiff
      obtain ⟨p, -, hp⟩ := hfirst _ (hiff.mp hnone u hu)
      exact hnone p hp.1
    · exact fun h => hmarked h.1

/-- One usable frame, owned: the next call still does not fail. -/
theorem allocFails_one_outstanding : ∃ s s',
    pmmInit (some ⟨some (framesFromOne 1)⟩) bss = .ok (true, s) ∧ Run step s [.alloc 0x1000] s' ∧
    AllOutstanding [.alloc 0x1000] s' ∧ ¬ AllocFails s' := by
  obtain ⟨s, hinit, hs⟩ := exists_fresh (framesFromOne 1) (by decide)
  have hfirst := first_framesFromOne (by decide) (by decide) hs
  have hrun := Run.single (step_alloc hs.initialized hfirst)
  refine ⟨s, _, hinit, hrun, fun p hp => ?_, fun hfails => ?_⟩
  · have hone := (usable_framesFromOne (by decide) hs p).mp hp
    obtain rfl : p = 1 := by omega
    decide
  · exact (allocFails_iff (run_frame hs.initialized hrun).2).mp hfails 1 hfirst.1

theorem allocFails_after_free : ∃ s s',
    pmmInit (some ⟨some (framesFromOne 2)⟩) bss = .ok (true, s) ∧
    Run step s [.alloc 0x1000, .free 0x1000 true] s' ∧
    ((AllocFails s' ↔ AllOutstanding [.alloc 0x1000, .free 0x1000 true] s') ↔
      (∀ p, ¬ Usable s' p) ∨ (∃ p, Marked s' p) ∧
        (outstanding [.alloc 0x1000, .free 0x1000 true] = ∅ ∨
          ∃ p q, p ≠ q ∧ Usable s' p ∧ Usable s' q)) ∧
    (HandsOutAll s ↔ ∀ p, ¬ Usable s p) ∧
    ∀ h' s'', Run step s' h' s'' → Event.alloc 0x1000 ∉ h' := by
  obtain ⟨s, s', hinit, hrun, -⟩ := exists_alloc_free
  obtain ⟨hfails, hall, hfinal⟩ := allocFails_iff_allOutstanding hinit hrun
  exact ⟨s, s', hinit, hrun, hfails, hall, hfinal 0x1000 (by simp)⟩

/-! ## The counter -/

/-- The usable frames nobody owns. -/
def freeFrames (h : List Event) (s : State) : Finset Nat :=
  (usableFrames s).filter fun p => frameAddress p ∉ outstanding h

/-- `pmm_free_pages` counts the free frames. -/
def CountsFree (h : List Event) (s : State) : Prop :=
  (pmmFreePages s).toNat = (freeFrames h s).card

theorem Fresh.usable_iff {entries : List MemmapEntry} {s : State} (hs : Fresh entries s) (p : Nat) :
    Usable s p ↔ p ≠ 0 ∧ p < 2 ^ 24 ∧ ∃ entry ∈ entries, Inside entry p := by
  rw [Usable, hs.usable]

theorem run_of_not_usable {s s' : State} {h : List Event} (hs : s.initialized = true)
    (hnone : ∀ p, ¬ Usable s p) (hrun : Run step s h s') : s' = s := by
  refine hrun.invariant (I := fun _ s' => s' = s) rfl ?_
  rintro h₁ s₁ c o s₂ - rfl hstep
  cases step_cases hs hstep with
  | alloc p hp => exact absurd hp.1.1 (hnone p)
  | free p bitmap hp hbitmap => exact absurd hp.1 (hnone p)
  | exhausted => rfl
  | reject => rfl

/-- The counter counts the free frames in every reachable state exactly for the maps without a whole
usable frame other than frame zero. -/
theorem countsFree_iff {entries : List MemmapEntry} {s₀ s : State}
    (hinit : pmmInit (some ⟨some entries⟩) s₀ = .ok (true, s)) :
    (∀ h s', Run step s h s' → CountsFree h s') ↔
      ∀ p, p ≠ 0 → p < 2 ^ 24 → ∀ entry ∈ entries, ¬ Inside entry p := by
  have hfresh := (pmmInit_fresh hinit).2
  have hcond : (∀ p, p ≠ 0 → p < 2 ^ 24 → ∀ entry ∈ entries, ¬ Inside entry p) ↔
      ∀ p, ¬ Usable s p := by
    apply forall_congr'
    intro p
    rw [hfresh.usable_iff]
    simp only [not_and, not_exists]
  have hzero : (pmmFreePages s).toNat = 0 := by
    rw [pmmFreePages, hfresh.initialized, hfresh.availablePages]
    rfl
  rw [hcond]
  constructor
  · intro hall p hp
    have hcount := hall [] s .nil
    rw [CountsFree, hzero] at hcount
    have hmem : p ∈ freeFrames [] s :=
      Finset.mem_filter.mpr ⟨mem_usableFrames.mpr hp, Finset.notMem_empty _⟩
    rw [Finset.card_eq_zero.mp hcount.symm] at hmem
    exact Finset.notMem_empty p hmem
  · intro hnone h s' hrun
    obtain rfl := run_of_not_usable hfresh.initialized hnone hrun
    rw [CountsFree, hzero, freeFrames, usableFrames_eq_empty hnone]
    rfl

/-- One usable frame: the counter starts at zero, and allocating wraps it. -/
theorem countsFree_wraps : ∃ s s',
    pmmInit (some ⟨some (framesFromOne 1)⟩) bss = .ok (true, s) ∧ ¬ CountsFree [] s ∧
    Run step s [.alloc 0x1000] s' ∧ ¬ CountsFree [.alloc 0x1000] s' ∧
    pmmFreePages s' = 0xFFFFFFFFFFFFFFFF := by
  obtain ⟨s, hinit, hs⟩ := exists_fresh (framesFromOne 1) (by decide)
  have hfirst := first_framesFromOne (by decide) (by decide) hs
  have hwrap : pmmFreePages { s with availablePages := s.availablePages - 1 } =
      0xFFFFFFFFFFFFFFFF := by
    rw [pmmFreePages, hs.initialized, hs.availablePages]
    rfl
  refine ⟨s, _, hinit, fun hcount => ?_, Run.single (step_alloc hs.initialized hfirst),
    fun hcount => ?_, hwrap⟩
  · have hmem : 1 ∈ freeFrames [] s :=
      Finset.mem_filter.mpr ⟨mem_usableFrames.mpr hfirst.1.1, Finset.notMem_empty _⟩
    rw [CountsFree, pmmFreePages, hs.initialized, hs.availablePages] at hcount
    rw [Finset.card_eq_zero.mp hcount.symm] at hmem
    exact Finset.notMem_empty 1 hmem
  · rw [CountsFree, hwrap] at hcount
    have hle : (freeFrames [.alloc 0x1000] { s with availablePages := s.availablePages - 1 }).card ≤
        pmmMaxPages.toNat := by
      refine le_trans (Finset.card_filter_le _ _) (le_trans (Finset.card_filter_le _ _) ?_)
      rw [Finset.card_range]
    rw [← hcount] at hle
    exact absurd hle (by decide)

/-- Three entries without a whole usable frame other than frame zero. -/
def withoutFrames : List MemmapEntry :=
  [⟨0, 0x1000, limineMemmapUsable⟩, ⟨0x5000, 0x4000, 1⟩, ⟨0x9800, 0x1000, limineMemmapUsable⟩]

theorem not_inside_withoutFrames (p : Nat) (hp : p ≠ 0) :
    ∀ entry ∈ withoutFrames, ¬ Inside entry p := by
  simp only [withoutFrames, List.forall_mem_cons, List.not_mem_nil, false_imp_iff,
    implies_true, and_true]
  refine ⟨?_, ?_, ?_⟩
  · rintro ⟨-, -, hlast⟩
    change 4096 * (p + 1) ≤ 0 + 4096 at hlast
    omega
  · rintro ⟨htype, -⟩
    exact absurd htype (by decide)
  · rintro ⟨-, hfirst, hlast⟩
    change 0x9800 ≤ 4096 * p at hfirst
    change 4096 * (p + 1) ≤ 0x9800 + 0x1000 at hlast
    omega

/-- Frame zero, reserved frames and two halves of usable ones are not counted, and the counter stays
zero. On the map of the frame `1` it does not count. -/
theorem countsFree_withoutFrames :
    (∃ s, pmmInit (some ⟨some withoutFrames⟩) bss = .ok (true, s) ∧
      ∀ h s', Run step s h s' → CountsFree h s') ∧
    ∃ s, pmmInit (some ⟨some (framesFromOne 1)⟩) bss = .ok (true, s) ∧
      ¬ ∀ h s', Run step s h s' → CountsFree h s' := by
  obtain ⟨s, hinit, -⟩ := exists_fresh withoutFrames (by decide)
  obtain ⟨s₁, hinit₁, -⟩ := exists_fresh (framesFromOne 1) (by decide)
  refine ⟨⟨s, hinit, (countsFree_iff hinit).mpr fun p hp _ => not_inside_withoutFrames p hp⟩,
    s₁, hinit₁, fun hall => ?_⟩
  refine (countsFree_iff hinit₁).mp hall 1 (by decide) (by decide) _ (List.mem_singleton.mpr rfl) ?_
  exact ⟨rfl, by decide, by decide⟩

end EyaX.Pmm
