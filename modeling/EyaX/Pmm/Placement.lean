import EyaX.Pmm.Ownership

/-!
# Where allocated frames lie

The usable bitmap is exact after `pmm_init` and no call writes it, so whatever addresses callers
free, an allocated frame lies whole inside one usable entry of the map, below 64 GiB and off frame
zero.
-/

namespace EyaX.Pmm

open ByteSet (test)
open Fallible (Run)

/-- The page at `a` is one the firmware gave away: aligned, not frame zero, below 64 GiB and inside
a single usable entry, in exact arithmetic. -/
structure Granted (entries : List MemmapEntry) (a : UInt64) : Prop where
  aligned : a.toNat % 4096 = 0
  low : 4096 ≤ a.toNat
  high : a.toNat + 4096 ≤ 64 * 1024 * 1024 * 1024
  inside : ∃ entry ∈ entries, entry.type = limineMemmapUsable ∧
    entry.base.toNat ≤ a.toNat ∧ a.toNat + 4096 ≤ entry.base.toNat + entry.length.toNat

theorem Fresh.granted {entries : List MemmapEntry} {s : State} (hs : Fresh entries s) {p : Nat}
    (hp : Usable s p) : Granted entries (frameAddress p) := by
  obtain ⟨hzero, hlt, entry, hentry, htype, hlow, hhigh⟩ := (hs.usable_iff p).mp hp
  have haddr := frameAddress_toNat hlt
  refine ⟨?_, ?_, ?_, entry, hentry, htype, ?_, ?_⟩
  all_goals
    rw [haddr]
    omega

theorem alloc_usable {s s' : State} {h : List Event} (hs : s.initialized = true)
    (hrun : Run step s h s') {a : UInt64} (ha : Event.alloc a ∈ h) (hzero : a ≠ 0) :
    ∃ p, a = frameAddress p ∧ Usable s p := by
  obtain ⟨h₁, h₂, rfl⟩ := List.append_of_mem ha
  obtain ⟨s₁, c, s₂, hrun₁, hstep, -⟩ := hrun.event
  rcases (step_cases (run_frame hs hrun₁).2 hstep).of_alloc with ⟨p, hp, hfirst, -⟩ | ⟨hnull, -⟩
  · exact ⟨p, hp, (run_usable hs hrun₁ p).mp hfirst.1.1⟩
  · exact absurd hnull hzero

/-- For every map of at most `PMM_MAX_PAGES` entries `pmm_init` succeeds, and every address that a
later `pmm_alloc_page` returns is a page the firmware gave away. -/
theorem alloc_granted (entries : List MemmapEntry) (hlen : entries.length ≤ pmmMaxPages.toNat)
    (s₀ : State) :
    ∃ s, pmmInit (some ⟨some entries⟩) s₀ = .ok (true, s) ∧
      ∀ h s', Run step s h s' → ∀ a, Event.alloc a ∈ h → a ≠ 0 → Granted entries a := by
  obtain ⟨s, hinit⟩ := pmmInit_total hlen s₀
  have hfresh := (pmmInit_fresh hinit).2
  refine ⟨s, hinit, fun h s' hrun a ha hzero => ?_⟩
  obtain ⟨p, rfl, hp⟩ := alloc_usable hfresh.initialized hrun ha hzero
  exact hfresh.granted hp

theorem alloc_granted_two_frames :
    ∃ s, pmmInit (some ⟨some (framesFromOne 2)⟩) bss = .ok (true, s) ∧
      ∀ h s', Run step s h s' → ∀ a, Event.alloc a ∈ h → a ≠ 0 → Granted (framesFromOne 2) a :=
  alloc_granted (framesFromOne 2) (by decide) bss

end EyaX.Pmm
