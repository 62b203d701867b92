import EyaX.Pmm.Init
import EyaX.Lib.Run
import Mathlib.Data.Finset.Basic

/-!
# The calls of the page allocator and their histories

One spec lemma for each call: `pmm_alloc_page` returns the address of the first marked frame and
changes only the counter (setting a set bit changes nothing), `pmm_free_page` unmarks a marked frame
and rejects every other address. `Step` says once what a call can do; runs after `pmm_init` and who
owns a frame are defined over it.
-/

namespace EyaX.Pmm

open ByteSet (test)
open Fallible (Run)

/-- A frame callers may own: its usable bit is set and it is not frame zero. -/
def Usable (s : State) (p : Nat) : Prop := p ≠ 0 ∧ test s.usableBitmap p = true

/-- A usable frame whose bit in `pmm_bitmap` is set: the frames that both calls accept. -/
def Marked (s : State) (p : Nat) : Prop := Usable s p ∧ test s.bitmap p = true

/-- The first marked frame. -/
def First (s : State) (p : Nat) : Prop := Marked s p ∧ ∀ q, Marked s q → p ≤ q

/-- The address of a frame. -/
def frameAddress (p : Nat) : UInt64 := UInt64.ofNat p * pmmPageSize

theorem Usable.lt {s : State} {p : Nat} (h : Usable s p) : p < 2 ^ 24 := lt_of_test h.2

theorem Marked.lt {s : State} {p : Nat} (h : Marked s p) : p < 2 ^ 24 := h.1.lt

theorem First.unique {s : State} {p q : Nat} (hp : First s p) (hq : First s q) : p = q :=
  le_antisymm (hp.2 q hq.1) (hq.2 p hp.1)

theorem Marked.exists_first {s : State} {p : Nat} (h : Marked s p) : ∃ q, First s q := by
  classical
  exact ⟨Nat.find ⟨p, h⟩, Nat.find_spec ⟨p, h⟩, fun q hq => Nat.find_min' ⟨p, h⟩ hq⟩

theorem frameAddress_toNat {p : Nat} (h : p < 2 ^ 24) : (frameAddress p).toNat = 4096 * p := by
  rw [frameAddress, UInt64.toNat_mul, pmmPageSize_toNat, UInt64.toNat_ofNat']
  omega

theorem frameAddress_ne_zero {s : State} {p : Nat} (h : Usable s p) : frameAddress p ≠ 0 := by
  intro he
  have hto := frameAddress_toNat h.lt
  rw [he] at hto
  have hp := h.1
  change 0 = 4096 * p at hto
  omega

theorem frameAddress_injective {p q : Nat} (hp : p < 2 ^ 24) (hq : q < 2 ^ 24)
    (h : frameAddress p = frameAddress q) : p = q := by
  have hto := congrArg UInt64.toNat h
  rw [frameAddress_toNat hp, frameAddress_toNat hq] at hto
  omega

/-! ## `pmm_alloc_page` -/

theorem allocLoop_cons (s : State) {i : Nat} (hi : i < 2 ^ 24) (hzero : i ≠ 0) (rest : List Nat) :
    (Marked s i ∧ allocLoop s (i :: rest) =
        .ok (frameAddress i, { s with availablePages := s.availablePages - 1 })) ∨
      (¬ Marked s i ∧ allocLoop s (i :: rest) = allocLoop s rest) := by
  rw [allocLoop, bitmapGet_eq _ hi, bitmapGet_eq _ hi]
  cases husable : test s.usableBitmap i with
  | false =>
    right
    exact ⟨fun h => by simp [h.1.2] at husable, by simp⟩
  | true =>
    cases hmark : test s.bitmap i with
    | false =>
      right
      exact ⟨fun h => by simp [h.2] at hmark, by simp⟩
    | true =>
      left
      refine ⟨⟨⟨hzero, husable⟩, hmark⟩, ?_⟩
      simp [bitmapSet_of_test hmark, frameAddress]

theorem allocLoop_range (s : State) (n : Nat) :
    ∀ k, k ≠ 0 → k + n ≤ 2 ^ 24 →
      (∃ p, k ≤ p ∧ p < k + n ∧ Marked s p ∧ (∀ q, k ≤ q → Marked s q → p ≤ q) ∧
        allocLoop s (List.range' k n) =
          .ok (frameAddress p, { s with availablePages := s.availablePages - 1 })) ∨
      ((∀ q, k ≤ q → q < k + n → ¬ Marked s q) ∧ allocLoop s (List.range' k n) = .ok (0, s)) := by
  induction n with
  | zero =>
    intro k _ _
    right
    exact ⟨fun q hk hlt => by omega, rfl⟩
  | succ n ih =>
    intro k hk hbound
    rw [List.range'_succ]
    rcases allocLoop_cons s (show k < 2 ^ 24 by omega) hk (List.range' (k + 1) n) with
      ⟨hmark, hloop⟩ | ⟨hmark, hloop⟩
    · left
      exact ⟨k, le_refl k, by omega, hmark, fun q hq _ => hq, hloop⟩
    · rw [hloop]
      have hne : ∀ q, k ≤ q → Marked s q → k + 1 ≤ q := by
        intro q hq hmq
        rcases Nat.eq_or_lt_of_le hq with rfl | hlt
        · exact absurd hmq hmark
        · exact hlt
      rcases ih (k + 1) (by omega) (by omega) with ⟨p, hkp, hpn, hmp, hmin, hres⟩ | ⟨hnone, hres⟩
      · left
        exact ⟨p, by omega, by omega, hmp, fun q hq hmq => hmin q (hne q hq hmq) hmq, hres⟩
      · right
        exact ⟨fun q hq hlt hmq => hnone q (hne q hq hmq) (by omega) hmq, hres⟩

/-- `pmm_alloc_page` returns the first marked frame, or zero when no frame is marked. The bitmaps
are as before either way. -/
theorem pmmAllocPage_spec {s : State} (hs : s.initialized = true) :
    (∃ p, First s p ∧ pmmAllocPage s =
        .ok (frameAddress p, { s with availablePages := s.availablePages - 1 })) ∨
      ((∀ p, ¬ Marked s p) ∧ pmmAllocPage s = .ok (0, s)) := by
  have hpos : ∀ q, Marked s q → 1 ≤ q := fun q hq => Nat.one_le_iff_ne_zero.mpr hq.1.1
  have hall : pmmAllocPage s = allocLoop s (List.range' 1 (2 ^ 24 - 1)) := by
    rw [pmmAllocPage, hs, pmmMaxPages_toNat]
    rfl
  rw [hall]
  rcases allocLoop_range s (2 ^ 24 - 1) 1 (by omega) (by omega) with
    ⟨p, _, _, hmp, hmin, hres⟩ | ⟨hnone, hres⟩
  · left
    exact ⟨p, ⟨hmp, fun q hq => hmin q (hpos q hq) hq⟩, hres⟩
  · right
    refine ⟨fun p hp => hnone p (hpos p hp) ?_ hp, hres⟩
    have := hp.lt
    omega

/-! ## `pmm_free_page` -/

theorem eq_frameAddress_iff {a : UInt64} {p : Nat} (hp : p < 2 ^ 24) :
    a = frameAddress p ↔ a % pmmPageSize = 0 ∧ (a / pmmPageSize).toNat = p := by
  rw [← UInt64.toNat_inj, ← UInt64.toNat_inj, frameAddress_toNat hp, UInt64.toNat_mod,
    UInt64.toNat_div, pmmPageSize_toNat]
  show a.toNat = 4096 * p ↔ a.toNat % 4096 = 0 ∧ a.toNat / 4096 = p
  omega

/-- `pmm_free_page` unmarks a marked frame and rejects every other address. -/
theorem pmmFreePage_spec {s : State} (hs : s.initialized = true) (a : UInt64) :
    (∃ p bitmap, a = frameAddress p ∧ Marked s p ∧
        (∀ j, test bitmap j = (!decide (j = p) && test s.bitmap j)) ∧
        pmmFreePage a s = .ok (true,
          { s with bitmap := bitmap, availablePages := s.availablePages + 1 })) ∨
      ((∀ p, Marked s p → a ≠ frameAddress p) ∧ pmmFreePage a s = .ok (false, s)) := by
  by_cases hzero : a = 0
  · right
    exact ⟨fun p hp he => frameAddress_ne_zero hp.1 (he.symm.trans hzero),
      by simp [pmmFreePage, hzero]⟩
  by_cases halign : a % pmmPageSize = 0
  swap
  · right
    exact ⟨fun p hp he => halign ((eq_frameAddress_iff hp.lt).mp he).1,
      by simp [pmmFreePage, hs, hzero, halign]⟩
  have hpage : ∀ p, Marked s p → a = frameAddress p → (a / pmmPageSize).toNat = p :=
    fun p hp he => ((eq_frameAddress_iff hp.lt).mp he).2
  by_cases hbound : a / pmmPageSize ≥ pmmMaxPages
  · right
    refine ⟨fun p hp he => ?_, by simp [pmmFreePage, hs, hzero, halign, hbound]⟩
    have hlt := hp.lt
    rw [ge_iff_le, UInt64.le_iff_toNat_le, pmmMaxPages_toNat, hpage p hp he] at hbound
    omega
  have hlt : (a / pmmPageSize).toNat < 2 ^ 24 := by
    rw [ge_iff_le, UInt64.le_iff_toNat_le, pmmMaxPages_toNat] at hbound
    omega
  have hself : a = frameAddress (a / pmmPageSize).toNat := (eq_frameAddress_iff hlt).mpr ⟨halign, rfl⟩
  have hne : (a / pmmPageSize).toNat ≠ 0 := by
    intro h0
    refine hzero (hself.trans ?_)
    rw [h0]
    rfl
  obtain ⟨bitmap, hclear, htest⟩ := bitmapClear_spec s.bitmap hlt
  -- the last two tests of the source, on the frame's own bits
  cases husable : test s.usableBitmap (a / pmmPageSize).toNat with
  | false =>
    right
    refine ⟨fun p hp he => ?_, by
      simp [-UInt64.toNat_div, pmmFreePage, hs, hzero, halign, hbound, bitmapGet_eq _ hlt, husable]⟩
    rw [hpage p hp he, hp.1.2] at husable
    cases husable
  | true =>
    cases hmark : test s.bitmap (a / pmmPageSize).toNat with
    | false =>
      right
      refine ⟨fun p hp he => ?_, by
        simp [-UInt64.toNat_div, pmmFreePage, hs, hzero, halign, hbound, bitmapGet_eq _ hlt, husable, hmark]⟩
      rw [hpage p hp he, hp.2] at hmark
      cases hmark
    | true =>
      left
      refine ⟨_, bitmap, hself, ⟨⟨hne, husable⟩, hmark⟩, htest, ?_⟩
      simp [-UInt64.toNat_div, pmmFreePage, hs, hzero, halign, hbound, bitmapGet_eq _ hlt, husable, hmark, hclear]

/-! ## Calls and events -/

inductive Call
  | allocPage
  | freePage (address : UInt64)
  deriving DecidableEq, Repr

/-- A call with what it returned. -/
inductive Event
  | alloc (address : UInt64)
  | free (address : UInt64) (ok : Bool)
  deriving DecidableEq, Repr

def step (s : State) : Call → Exec (Event × State)
  | .allocPage => do
    let (address, s) ← pmmAllocPage s
    return (.alloc address, s)
  | .freePage address => do
    let (ok, s) ← pmmFreePage address s
    return (.free address ok, s)

/-- What a call can do once `pmm_init` has run. -/
inductive Step (s : State) : Event → State → Prop
  | alloc (p : Nat) (hp : First s p) :
      Step s (.alloc (frameAddress p)) { s with availablePages := s.availablePages - 1 }
  | exhausted (hnone : ∀ p, ¬ Marked s p) : Step s (.alloc 0) s
  | free (p : Nat) (bitmap : Bitmap) (hp : Marked s p)
      (hbitmap : ∀ j, test bitmap j = (!decide (j = p) && test s.bitmap j)) :
      Step s (.free (frameAddress p) true)
        { s with bitmap := bitmap, availablePages := s.availablePages + 1 }
  | reject (a : UInt64) (ha : ∀ p, Marked s p → a ≠ frameAddress p) : Step s (.free a false) s

theorem step_spec {s : State} (hs : s.initialized = true) (c : Call) :
    ∃ o s', step s c = .ok (o, s') ∧ Step s o s' := by
  cases c with
  | allocPage =>
    rcases pmmAllocPage_spec hs with ⟨p, hp, hres⟩ | ⟨hnone, hres⟩
    · exact ⟨_, _, by rw [step, hres]; rfl, .alloc p hp⟩
    · exact ⟨_, _, by rw [step, hres]; rfl, .exhausted hnone⟩
  | freePage a =>
    rcases pmmFreePage_spec hs a with ⟨p, bitmap, rfl, hp, hbitmap, hres⟩ | ⟨ha, hres⟩
    · exact ⟨_, _, by rw [step, hres]; rfl, .free p bitmap hp hbitmap⟩
    · exact ⟨_, _, by rw [step, hres]; rfl, .reject a ha⟩

theorem step_cases {s s' : State} {c : Call} {o : Event} (hs : s.initialized = true)
    (h : step s c = .ok (o, s')) : Step s o s' := by
  obtain ⟨o', s'', h', hstep⟩ := step_spec hs c
  rw [h] at h'
  cases h'
  exact hstep

/-! ## Steps by what they returned -/

theorem Step.of_alloc {s s' : State} {a : UInt64} (h : Step s (.alloc a) s') :
    (∃ p, a = frameAddress p ∧ First s p ∧ s' = { s with availablePages := s.availablePages - 1 }) ∨
      (a = 0 ∧ (∀ p, ¬ Marked s p) ∧ s' = s) := by
  generalize ho : Event.alloc a = o at h
  cases h with
  | alloc p hp => exact Or.inl ⟨p, Event.alloc.inj ho, hp, rfl⟩
  | exhausted hnone => exact Or.inr ⟨Event.alloc.inj ho, hnone, rfl⟩
  | free => simp at ho
  | reject => simp at ho

theorem Step.of_free {s s' : State} {a : UInt64} (h : Step s (.free a true) s') :
    ∃ p, a = frameAddress p ∧ Marked s p ∧ ¬ Marked s' p := by
  generalize ho : Event.free a true = o at h
  cases h with
  | free p bitmap hp hbitmap =>
    rw [Event.free.injEq] at ho
    refine ⟨p, ho.1, hp, fun hp' => ?_⟩
    have ht := hp'.2
    rw [hbitmap] at ht
    simp at ht
  | alloc => simp at ho
  | exhausted => simp at ho
  | reject => simp at ho

theorem Step.of_reject {s s' : State} {a : UInt64} (h : Step s (.free a false) s') :
    (∀ p, Marked s p → a ≠ frameAddress p) ∧ s' = s := by
  generalize ho : Event.free a false = o at h
  cases h with
  | reject b hb =>
    rw [Event.free.injEq] at ho
    rw [ho.1]
    exact ⟨hb, rfl⟩
  | alloc => simp at ho
  | exhausted => simp at ho
  | free => simp at ho

/-! ## Frames over a step -/

theorem Step.frame {s s' : State} {o : Event} (h : Step s o s') :
    s'.usableBitmap = s.usableBitmap ∧ s'.initialized = s.initialized := by
  cases h <;> exact ⟨rfl, rfl⟩

theorem Step.marked {s s' : State} {o : Event} (h : Step s o s') {p : Nat} (hp : Marked s' p) :
    Marked s p := by
  cases h with
  | alloc => exact hp
  | exhausted => exact hp
  | reject => exact hp
  | free q bitmap hq hbitmap =>
    have ht := hp.2
    rw [hbitmap, Bool.and_eq_true] at ht
    exact ⟨hp.1, ht.2⟩

theorem Step.still_marked {s s' : State} {o : Event} (h : Step s o s') {p : Nat} (hp : Marked s p)
    (hne : o ≠ .free (frameAddress p) true) : Marked s' p := by
  cases h with
  | alloc => exact hp
  | exhausted => exact hp
  | reject => exact hp
  | free q bitmap hq hbitmap =>
    have hpq : p ≠ q := fun he => hne (by rw [he])
    refine ⟨hp.1, ?_⟩
    change test bitmap p = true
    rw [hbitmap, hp.2]
    simp [hpq]

/-! ## Runs -/

theorem run_frame {s s' : State} {h : List Event} (hs : s.initialized = true)
    (hrun : Run step s h s') :
    s'.usableBitmap = s.usableBitmap ∧ s'.initialized = true := by
  refine hrun.invariant (I := fun _ s' => s'.usableBitmap = s.usableBitmap ∧ s'.initialized = true)
    ⟨rfl, hs⟩ ?_
  rintro h₁ s₁ c o s₂ - ⟨husable, hinit⟩ hstep
  have hframe := (step_cases hinit hstep).frame
  exact ⟨hframe.1.trans husable, hframe.2.trans hinit⟩

theorem run_usable {s s' : State} {h : List Event} (hs : s.initialized = true)
    (hrun : Run step s h s') (p : Nat) : Usable s' p ↔ Usable s p := by
  rw [Usable, Usable, (run_frame hs hrun).1]

theorem run_marked {s s' : State} {h : List Event} (hs : s.initialized = true)
    (hrun : Run step s h s') {p : Nat} (hp : Marked s' p) : Marked s p := by
  revert hp
  refine hrun.invariant (I := fun _ s' => Marked s' p → Marked s p) id ?_
  rintro h₁ s₁ c o s₂ hrun₁ ih hstep hp
  exact ih ((step_cases (run_frame hs hrun₁).2 hstep).marked hp)

theorem run_still_marked {s s' : State} {h : List Event} (hs : s.initialized = true)
    (hrun : Run step s h s') {p : Nat} (hp : Marked s p)
    (hfree : Event.free (frameAddress p) true ∉ h) : Marked s' p := by
  revert hfree
  refine hrun.invariant
    (I := fun h s' => Event.free (frameAddress p) true ∉ h → Marked s' p) (fun _ => hp) ?_
  intro h₁ s₁ c o s₂ hrun₁ ih hstep hfree
  simp only [List.mem_append, List.mem_singleton, not_or] at hfree
  exact (step_cases (run_frame hs hrun₁).2 hstep).still_marked (ih hfree.1) (Ne.symm hfree.2)

theorem run_freed {s s' : State} {h : List Event} (hs : s.initialized = true)
    (hrun : Run step s h s') {p : Nat} (hp : p < 2 ^ 24)
    (hfree : Event.free (frameAddress p) true ∈ h) : ¬ Marked s' p := by
  intro hmark
  obtain ⟨h₁, h₂, rfl⟩ := List.append_of_mem hfree
  obtain ⟨s₁, c, s₂, hrun₁, hstep, hrun₂⟩ := hrun.event
  have hS := step_cases (run_frame hs hrun₁).2 hstep
  obtain ⟨q, hq, hqmark, hqfree⟩ := hS.of_free
  obtain rfl := frameAddress_injective hp hqmark.lt hq
  exact hqfree (run_marked (hS.frame.2.trans (run_frame hs hrun₁).2) hrun₂ hmark)

theorem run_total {s s' : State} {h : List Event} (hs : s.initialized = true)
    (hrun : Run step s h s') (c : Call) : ∃ o s'', step s' c = .ok (o, s'') := by
  obtain ⟨o, s'', hstep, -⟩ := step_spec (run_frame hs hrun).2 c
  exact ⟨o, s'', hstep⟩

/-! ## Who owns a frame -/

/-- Ownership after one more event. -/
def own (owned : Finset UInt64) : Event → Finset UInt64
  | .alloc a => if a = 0 then owned else insert a owned
  | .free a true => owned.erase a
  | .free _ false => owned

/-- The addresses `pmm_alloc_page` has returned that were not freed since. -/
def outstanding (h : List Event) : Finset UInt64 := h.foldl own ∅

@[simp] theorem outstanding_nil : outstanding [] = ∅ := rfl

@[simp] theorem outstanding_snoc (h : List Event) (o : Event) :
    outstanding (h ++ [o]) = own (outstanding h) o := by
  simp [outstanding]

theorem mem_own {a : UInt64} {owned : Finset UInt64} {o : Event} :
    a ∈ own owned o ↔ (a ≠ 0 ∧ o = .alloc a) ∨ (o ≠ .free a true ∧ a ∈ owned) := by
  cases o with
  | alloc b =>
    have hfree : Event.alloc b ≠ .free a true := Event.noConfusion
    rw [own, Event.alloc.injEq]
    by_cases hb : b = 0
    · have hne : ¬ (a ≠ 0 ∧ b = a) := fun h => h.1 (h.2.symm.trans hb)
      rw [if_pos hb, or_iff_right hne, and_iff_right hfree]
    · have hne : b = a ↔ a ≠ 0 ∧ b = a := (and_iff_right_of_imp fun he => he ▸ hb).symm
      rw [if_neg hb, Finset.mem_insert, and_iff_right hfree, ← hne, eq_comm]
  | free b ok =>
    have halloc : ¬ (a ≠ 0 ∧ Event.free b ok = .alloc a) := fun h => Event.noConfusion h.2
    rw [or_iff_right halloc]
    cases ok with
    | false => exact (and_iff_right (by simp)).symm
    | true => rw [own, Finset.mem_erase, ne_comm, ne_eq, ne_eq, Event.free.injEq, and_iff_left rfl]

/-- Some call returned the address, and no call after that freed it. -/
def Held (a : UInt64) (h : List Event) : Prop :=
  ∃ h₁ h₂, h = h₁ ++ .alloc a :: h₂ ∧ Event.free a true ∉ h₂

theorem not_held_nil (a : UInt64) : ¬ Held a [] := by
  rintro ⟨h₁, h₂, he, -⟩
  simp at he

theorem held_snoc {a : UInt64} {h : List Event} {o : Event} :
    Held a (h ++ [o]) ↔ o = .alloc a ∨ (o ≠ .free a true ∧ Held a h) := by
  constructor
  · rintro ⟨h₁, h₂, he, hfree⟩
    rcases List.eq_nil_or_concat h₂ with rfl | ⟨h₃, o', rfl⟩
    · left
      obtain ⟨-, hlast⟩ := List.append_inj' he rfl
      simpa using hlast
    · right
      rw [List.concat_eq_append, ← List.cons_append, ← List.append_assoc] at he
      obtain ⟨rfl, hlast⟩ := List.append_inj' he rfl
      obtain rfl : o = o' := by simpa using hlast
      simp only [List.concat_eq_append, List.mem_append, List.mem_singleton, not_or] at hfree
      exact ⟨Ne.symm hfree.2, h₁, h₃, rfl, hfree.1⟩
  · rintro (rfl | ⟨ho, h₁, h₂, rfl, hfree⟩)
    · exact ⟨h, [], rfl, List.not_mem_nil⟩
    · refine ⟨h₁, h₂ ++ [o], by simp, ?_⟩
      simp only [List.mem_append, List.mem_singleton, not_or]
      exact ⟨hfree, Ne.symm ho⟩

/-- An address is outstanding when some call returned it and no call after that freed it. -/
theorem mem_outstanding {a : UInt64} {h : List Event} :
    a ∈ outstanding h ↔
      a ≠ 0 ∧ ∃ h₁ h₂, h = h₁ ++ .alloc a :: h₂ ∧ Event.free a true ∉ h₂ := by
  show a ∈ outstanding h ↔ a ≠ 0 ∧ Held a h
  induction h using List.reverseRecOn with
  | nil => simp [not_held_nil]
  | append_singleton h o ih =>
    rw [outstanding_snoc, mem_own, ih, held_snoc]
    tauto

end EyaX.Pmm
