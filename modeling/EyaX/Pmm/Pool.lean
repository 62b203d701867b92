import EyaX.Lib.Transducer
import EyaX.Pmm.Ownership
import Mathlib.Data.Finset.Max
import Mathlib.Data.Finset.Range

/-!
# The page allocator as a pool

What a caller sees of the allocator is a set of frames and a counter: `pmm_alloc_page` names the
least frame of the set and leaves the set as it is, `pmm_free_page` takes a frame of the set out of
it, and both move the counter. No call ever puts a frame into the set, so the addresses that are
handed out in a run never decrease.
-/

namespace EyaX.Pmm

open ByteSet (test)
open Fallible (Run)

/-! ## The pool -/

/-- The frames that both calls accept, and the counter. -/
structure Pool where
  frames : Finset Nat
  bounds : ∀ p ∈ frames, 0 < p ∧ p < 2 ^ 24
  available : UInt64

/-- The least frame is named, and stays. -/
def Pool.alloc (t : Pool) : Event × Pool :=
  if h : t.frames.Nonempty then
    (.alloc (frameAddress (t.frames.min' h)), { t with available := t.available - 1 })
  else (.alloc 0, t)

/-- A frame that is freed leaves. -/
def Pool.free (a : UInt64) (t : Pool) : Event × Pool :=
  if ∃ p ∈ t.frames, frameAddress p = a then
    (.free a true,
      { frames := t.frames.filter fun p => frameAddress p ≠ a
        bounds := fun p hp => t.bounds p (Finset.mem_of_mem_filter p hp)
        available := t.available + 1 })
  else (.free a false, t)

def Pool.answer (t : Pool) : Call → Event × Pool
  | .allocPage => t.alloc
  | .freePage a => t.free a

/-- Calls go in, what they return comes out. -/
def pool : Transducer Pool Call Event where
  next t c := (t.answer c).2
  out t c := [(t.answer c).1]

/-! ## The allocator serves the pool -/

/-- The allocator has the pool's frames and its counter. -/
structure Represents (s : State) (t : Pool) : Prop where
  initialized : s.initialized = true
  frames : ∀ p, p ∈ t.frames ↔ Marked s p
  available : s.availablePages = t.available

variable {s : State} {t : Pool}

theorem Represents.alloc (h : Represents s t) {p : Nat} (hp : First s p) :
    t.alloc = (.alloc (frameAddress p), { t with available := t.available - 1 }) := by
  have hmem : p ∈ t.frames := (h.frames p).mpr hp.1
  have hmin : t.frames.min' ⟨p, hmem⟩ = p := by
    refine Nat.le_antisymm (Finset.min'_le _ _ hmem) ?_
    exact Finset.le_min' _ _ _ fun q hq => hp.2 q ((h.frames q).mp hq)
  rw [Pool.alloc, dif_pos ⟨p, hmem⟩, hmin]

theorem Represents.exhausted (h : Represents s t) (hnone : ∀ p, ¬ Marked s p) :
    t.alloc = (.alloc 0, t) :=
  dif_neg fun ⟨p, hp⟩ => hnone p ((h.frames p).mp hp)

theorem Represents.reject (h : Represents s t) {a : UInt64}
    (ha : ∀ p, Marked s p → a ≠ frameAddress p) : t.free a = (.free a false, t) :=
  if_neg fun ⟨p, hp, he⟩ => ha p ((h.frames p).mp hp) he.symm

theorem Represents.free (h : Represents s t) {p : Nat} (hp : Marked s p) {bitmap : Bitmap}
    (hbitmap : ∀ j, test bitmap j = (!decide (j = p) && test s.bitmap j)) :
    ∃ t', t.free (frameAddress p) = (.free (frameAddress p) true, t') ∧
      Represents { s with bitmap := bitmap, availablePages := s.availablePages + 1 } t' := by
  refine ⟨_, if_pos ⟨p, (h.frames p).mpr hp, rfl⟩, h.initialized, fun q => ?_,
    congrArg (· + 1) h.available⟩
  rw [Finset.mem_filter, h.frames]
  constructor
  · rintro ⟨hq, hne⟩
    have hqp : q ≠ p := fun he => hne (by rw [he])
    refine ⟨hq.1, ?_⟩
    show test bitmap q = true
    rw [hbitmap, hq.2, decide_eq_false hqp]
    rfl
  · rintro ⟨husable, hbit⟩
    change test bitmap q = true at hbit
    rw [hbitmap, Bool.and_eq_true, Bool.not_eq_true', decide_eq_false_iff_not] at hbit
    refine ⟨⟨husable, hbit.2⟩, fun he => hbit.1 ?_⟩
    exact frameAddress_injective (Usable.lt husable) hp.lt he

theorem pool_step {t' : Pool} {c : Call} {o : Event} (h : t.answer c = (o, t')) :
    pool.out t c = [o] ∧ pool.next t c = t' :=
  ⟨congrArg (fun x : Event × Pool => [x.1]) h, congrArg Prod.snd h⟩

theorem serves_pool : pool.Serves step Represents := by
  intro s t c h
  cases c with
  | allocPage =>
    rcases pmmAllocPage_spec h.initialized with ⟨p, hp, hres⟩ | ⟨hnone, hres⟩
    · obtain ⟨hout, hnext⟩ := pool_step (c := .allocPage) (h.alloc hp)
      refine ⟨_, { s with availablePages := s.availablePages - 1 }, by rw [step, hres]; rfl, hout, ?_⟩
      rw [hnext]
      exact ⟨h.initialized, h.frames, congrArg (· - 1) h.available⟩
    · obtain ⟨hout, hnext⟩ := pool_step (c := .allocPage) (h.exhausted hnone)
      exact ⟨_, s, by rw [step, hres]; rfl, hout, by rw [hnext]; exact h⟩
  | freePage a =>
    rcases pmmFreePage_spec h.initialized a with ⟨p, bitmap, rfl, hp, hbitmap, hres⟩ | ⟨ha, hres⟩
    · obtain ⟨t', hpool, hlast⟩ := h.free hp hbitmap
      obtain ⟨hout, hnext⟩ := pool_step (c := .freePage _) hpool
      exact ⟨_, _, by rw [step, hres]; rfl, hout, by rw [hnext]; exact hlast⟩
    · obtain ⟨hout, hnext⟩ := pool_step (c := .freePage a) (h.reject ha)
      exact ⟨_, s, by rw [step, hres]; rfl, hout, by rw [hnext]; exact h⟩

/-! ## The addresses ascend -/

/-- The address that was handed out. -/
def granted : Event → Option UInt64
  | .alloc a => if a = 0 then none else some a
  | .free _ _ => none

theorem frameAddress_le {p q : Nat} (hq : q < 2 ^ 24) (h : p ≤ q) :
    frameAddress p ≤ frameAddress q := by
  rw [UInt64.le_iff_toNat_le, frameAddress_toNat hq, frameAddress_toNat (Nat.lt_of_le_of_lt h hq)]
  omega

theorem Pool.answer_spec (t : Pool) (c : Call) : (t.answer c).2.frames ⊆ t.frames ∧
    ∀ a, granted (t.answer c).1 = some a →
      ∃ p ∈ t.frames, a = frameAddress p ∧ ∀ q ∈ t.frames, p ≤ q := by
  cases c with
  | allocPage =>
    show t.alloc.2.frames ⊆ t.frames ∧ ∀ a, granted t.alloc.1 = some a → _
    unfold Pool.alloc
    by_cases hne : t.frames.Nonempty
    · rw [dif_pos hne]
      refine ⟨Finset.Subset.refl _, fun a ha => ⟨_, Finset.min'_mem _ hne, ?_, fun q hq => Finset.min'_le _ _ hq⟩⟩
      rw [granted] at ha
      split_ifs at ha
      exact (Option.some.inj ha).symm
    · rw [dif_neg hne]
      exact ⟨Finset.Subset.refl _, fun a ha => nomatch ha⟩
  | freePage a =>
    show (t.free a).2.frames ⊆ t.frames ∧ ∀ b, granted (t.free a).1 = some b → _
    unfold Pool.free
    split_ifs
    · exact ⟨Finset.filter_subset _ _, fun b hb => nomatch hb⟩
    · exact ⟨Finset.Subset.refl _, fun b hb => nomatch hb⟩

/-- From here on only addresses of the pool's frames are handed out, and they ascend. -/
theorem pool_ascends (calls : List Call) : ∀ t : Pool,
    (∀ a ∈ (pool.output t calls).filterMap granted, ∃ p ∈ t.frames, a = frameAddress p) ∧
      ((pool.output t calls).filterMap granted).Pairwise (· ≤ ·) := by
  induction calls with
  | nil => exact fun t => ⟨fun a ha => absurd ha List.not_mem_nil, .nil⟩
  | cons c calls ih =>
    intro t
    obtain ⟨hsub, hleast⟩ := t.answer_spec c
    obtain ⟨hmem, hrest⟩ := ih (t.answer c).2
    have hlater : ∀ a ∈ (pool.output (t.answer c).2 calls).filterMap granted,
        ∃ p ∈ t.frames, a = frameAddress p := by
      intro a ha
      obtain ⟨p, hp, he⟩ := hmem a ha
      exact ⟨p, hsub hp, he⟩
    show (∀ a ∈ ((t.answer c).1 :: pool.output (t.answer c).2 calls).filterMap granted, _) ∧
      (((t.answer c).1 :: pool.output (t.answer c).2 calls).filterMap granted).Pairwise _
    cases hgrant : granted (t.answer c).1 with
    | none =>
      rw [List.filterMap_cons_none hgrant]
      exact ⟨hlater, hrest⟩
    | some a =>
      obtain ⟨p, hp, rfl, hle⟩ := hleast a hgrant
      rw [List.filterMap_cons_some hgrant, List.forall_mem_cons, List.pairwise_cons]
      refine ⟨⟨⟨p, hp, rfl⟩, hlater⟩, fun b hb => ?_, hrest⟩
      obtain ⟨q, hq, rfl⟩ := hlater b hb
      exact frameAddress_le (t.bounds q hq).2 (hle q hq)

/-! ## Runs after `pmm_init` -/

open Classical in
/-- The usable frames that the map describes, with the counter at zero. -/
noncomputable def mapped (entries : List MemmapEntry) : Pool where
  frames := (Finset.range (2 ^ 24)).filter fun p => 0 < p ∧ ∃ entry ∈ entries, Inside entry p
  bounds _ hp :=
    have hmem := Finset.mem_filter.mp hp
    ⟨hmem.2.1, Finset.mem_range.mp hmem.1⟩
  available := 0

theorem mem_mapped {entries : List MemmapEntry} {p : Nat} :
    p ∈ (mapped entries).frames ↔ p ≠ 0 ∧ p < 2 ^ 24 ∧ ∃ entry ∈ entries, Inside entry p := by
  classical
  unfold mapped
  rw [Finset.mem_filter, Finset.mem_range, Nat.pos_iff_ne_zero]
  exact and_left_comm

theorem Fresh.represents {entries : List MemmapEntry} {s : State} (h : Fresh entries s) :
    Represents s (mapped entries) where
  initialized := h.initialized
  available := h.availablePages
  frames p := by rw [mem_mapped, h.marked, h.usable_iff]

theorem run_spares_freed {s s' : State} {h₁ h₂ : List Event} {a : UInt64}
    (hs : s.initialized = true) (hrun : Run step s (h₁ ++ .free a true :: h₂) s') :
    Event.alloc a ∉ h₂ := by
  obtain ⟨s₁, c, s₂, hrun₁, hstep, hrun₂⟩ := hrun.event
  exact free_final hs (hrun₁.snoc hstep) (by simp) hrun₂

/-- After `pmm_init` the runs of the allocator are the runs of the pool of the map's usable frames:
every sequence of calls has one, with the pool's answers, and there is no other. So the addresses
that are handed out in a run never decrease, and none is handed out after it was freed. -/
theorem runs_are_pool_runs {response : Option MemmapResponse} {s₀ s : State}
    (hinit : pmmInit response s₀ = .ok (true, s)) :
    ∃ entries, response = some ⟨some entries⟩ ∧
      (∀ calls, ∃ s', Run step s (pool.output (mapped entries) calls) s' ∧
        Represents s' (pool.after (mapped entries) calls)) ∧
      ∀ h s', Run step s h s' →
        (∃ calls, h = pool.output (mapped entries) calls ∧
          Represents s' (pool.after (mapped entries) calls)) ∧
        (h.filterMap granted).Pairwise (· ≤ ·) ∧
        ∀ h₁ h₂ a, h = h₁ ++ .free a true :: h₂ → Event.alloc a ∉ h₂ := by
  obtain ⟨entries, rfl, hfresh⟩ := pmmInit_true hinit
  refine ⟨entries, rfl, fun calls => serves_pool.run calls hfresh.represents, fun h s' hrun => ?_⟩
  obtain ⟨calls, hcalls, hlast⟩ := serves_pool.of_run hrun hfresh.represents
  refine ⟨⟨calls, hcalls, hlast⟩, ?_, ?_⟩
  · rw [hcalls]
    exact (pool_ascends calls _).2
  · rintro h₁ h₂ a rfl
    exact run_spares_freed hfresh.initialized hrun

theorem runs_are_pool_runs_two : ∃ s s',
    pmmInit (some ⟨some (framesFromOne 2)⟩) bss = .ok (true, s) ∧
    Run step s [.alloc 0x1000, .free 0x1000 true] s' ∧
    ∀ h s'', Run step s ([.alloc 0x1000, .free 0x1000 true] ++ h) s'' → Event.alloc 0x1000 ∉ h := by
  obtain ⟨s, s', hinit, hfreed, -⟩ := exists_alloc_free
  obtain ⟨entries, -, -, hruns⟩ := runs_are_pool_runs hinit
  refine ⟨s, s', hinit, hfreed, fun h s'' hrun => ?_⟩
  exact (hruns _ _ hrun).2.2 [.alloc 0x1000] h 0x1000 rfl

end EyaX.Pmm
