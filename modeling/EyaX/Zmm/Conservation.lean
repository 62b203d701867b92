import EyaX.Zmm.Safety

/-!
# When the records partition the heap

Taking a record whole and freeing leave the intervals alone, and a split into a vacant record only
cuts one. A split into a record that holds something is the one way to lose bytes: no later call
brings them back, and a live allocation may be among them. So the heap is conserved along a run
exactly when every split of the run meets a vacant successor.
-/

namespace EyaX.Zmm

open Fallible (Run Along)
open Cells (Partitions)

variable {heap : Heap} {blocks blocks' : Blocks}

/-! ## Conservation is a partition -/

/-- The offsets of the heap. -/
def offsets : Set Int := Set.Ico 0 heapSize

theorem malloc_ne_zero (hw : WellFormed blocks) {size : Int} (hpos : 1 ≤ size) {i : Fin 1024}
    (hi : FirstFit blocks size i) :
    ∃ p blocks', malloc heap size blocks = .ok (p, blocks') ∧ p ≠ 0 := by
  obtain ⟨p, blocks', hmalloc, hstep⟩ := malloc_spec heap hw hpos
  refine ⟨p, blocks', hmalloc, ?_⟩
  have hpointer : ∀ j : Fin 1024, Fits size blocks[j] →
      heap.pointer blocks[j].start ≠ 0 := by
    intro j hj
    have hle : size ≤ blocks[j].size := hj.2
    have hindex := hw.index_le j (by omega)
    have hend := hw.end_le j (by omega)
    rw [heapSize] at hend
    exact pointer_ne_zero (by omega) (by omega)
  cases hstep with
  | full _ hnone => exact absurd hi.fits (hnone i)
  | take _ j hj _ => exact hpointer j hj.fits
  | split _ j hj _ _ => exact hpointer j hj.fits

theorem Safe.recorded {h : List Event} (hs : Safe heap h blocks)
    (hpart : Partitions (cells blocks) offsets) : ∀ a ∈ live h, Recorded heap blocks a := by
  intro a ha
  rcases hs.kept a ha with hrec | hlost
  · exact hrec
  · -- the first byte of the allocation is in some record
    have hplaced := hs.placed a ha
    have hpos := hplaced.pos
    have hfirst : heap.offset a.1 ∈ offsets :=
      ⟨hplaced.nonneg, by have := hplaced.end_le; omega⟩
    obtain ⟨k, hk⟩ := (hpart.2 _).mpr hfirst
    exact absurd hk (Set.disjoint_left.mp (hlost k) ⟨le_refl _, by omega⟩)

theorem conserved_iff_partitions {h : List Event} (hs : Safe heap h blocks) :
    Conserved heap h blocks ↔ Partitions (cells blocks) offsets := by
  constructor
  · intro hc
    refine ⟨hs.table.apart, fun o => ?_⟩
    constructor
    · rintro ⟨k, hk⟩
      obtain ⟨hpos, hlo, hhi⟩ := mem_cells.mp hk
      obtain ⟨hstart, hend⟩ := hc.inside k hpos
      exact ⟨by omega, by omega⟩
    · rintro ⟨hlo, hhi⟩
      obtain ⟨k, hk, -⟩ := hc.partition o hlo hhi
      exact ⟨k, mem_cells.mpr hk⟩
  · intro hpart
    have hrec := hs.recorded hpart
    refine ⟨fun i hpos => ?_, fun o hlo hhi => ?_, fun a ha => ?_, fun a ha => ?_⟩
    · exact ⟨by have := hs.table.index_le i hpos; omega, hs.table.end_le i hpos⟩
    · obtain ⟨k, hk, huniq⟩ := hpart.existsUnique (x := o) ⟨hlo, hhi⟩
      exact ⟨k, mem_cells.mp hk, fun l hl => huniq l (mem_cells.mpr hl)⟩
    · obtain ⟨i, hi⟩ := hrec a ha
      have hpos := (hs.placed a ha).pos
      refine ⟨i, hi, fun j hj => Cells.eq_of_mem hs.table.apart (x := heap.offset a.1) ?_ ?_⟩
      · rw [cells, hj]
        exact ⟨le_refl _, show heap.offset a.1 < heap.offset a.1 + a.2 by omega⟩
      · rw [cells, hi]
        exact ⟨le_refl _, show heap.offset a.1 < heap.offset a.1 + a.2 by omega⟩
    · obtain ⟨i, hi⟩ := hrec a ha
      have hfits : Fits a.2 (free heap a.1 blocks)[i] := by
        rw [free_getElem, if_pos (by rw [hi]), hi]
        exact ⟨rfl, le_refl _⟩
      obtain ⟨k, hk⟩ := exists_firstFit hfits
      exact malloc_ne_zero (hs.table.step (.free a.1)) (hs.placed a ha).pos hk

/-! ## One step -/

theorem FirstFit.unique {size : Int} {i j : Fin 1024} (hi : FirstFit blocks size i)
    (hj : FirstFit blocks size j) : i = j := by
  rcases Nat.lt_trichotomy i.val j.val with hlt | heq | hlt
  · exact absurd hi.fits (hj.first i hlt)
  · exact Fin.ext heq
  · exact absurd hj.fits (hi.first j hlt)

/-- Of a table that partitions the heap, `malloc` leaves one exactly when it does not split into a
record that holds something. -/
theorem malloc_partitions_iff (hw : WellFormed blocks)
    (hpart : Partitions (cells blocks) offsets) {size : Int} {p : UInt64}
    (hstep : Step heap blocks (.malloc size p) blocks') :
    Partitions (cells blocks') offsets ↔ SplitsIntoVacant blocks size := by
  cases hstep with
  | full hpos hnone => exact iff_of_true hpart fun i hi => absurd hi.fits (hnone i)
  | take hpos i hi hsize =>
    rw [cells_take]
    apply iff_of_true hpart
    intro j hj hlt
    rw [hj.unique hi] at hlt
    omega
  | split hpos i hi hsize hnext =>
    obtain ⟨hunion, hdisj⟩ := split_parts blocks[i].start size blocks[i].size (by omega) (by omega)
    rw [cells_splitAt, hpart.split_iff (next_ne i hnext) hunion hdisj]
    have hnonneg := hw.size_nonneg ⟨i.val + 1, hnext⟩
    simp only [Fin.getElem_fin] at hnonneg
    constructor
    · intro hempty j hj _ hj'
      obtain rfl := hj.unique hi
      by_contra hne
      have hmem : blocks[j.val + 1].start ∈ cells blocks ⟨j.val + 1, hnext⟩ :=
        ⟨le_refl _, by simp only [Fin.getElem_fin]; omega⟩
      rw [hempty] at hmem
      exact hmem
    · intro hvacant
      have hsize := hvacant i hi hsize hnext
      rw [cells]
      simp only [Fin.getElem_fin, hsize, Int.add_zero, Set.Ico_self]

theorem partitions_booted : Partitions (cells booted) offsets := by
  refine ⟨wellFormed_booted.apart, fun o => ?_⟩
  constructor
  · rintro ⟨k, hk⟩
    obtain ⟨hpos, hlo, hhi⟩ := mem_cells.mp hk
    have hindex := wellFormed_booted.index_le k hpos
    have hend := wellFormed_booted.end_le k hpos
    exact ⟨by omega, by omega⟩
  · intro ho
    refine ⟨0, ?_⟩
    rw [cells, booted_zero]
    exact ho

/-! ## Runs -/

def Event.call : Event → Call
  | .malloc size _ => .malloc size
  | .free p => .free p

theorem step_call {c : Call} {o : Event} (h : step heap blocks c = .ok (o, blocks')) :
    o.call = c := by
  cases c with
  | malloc size =>
    rw [step, Exec.bind_eq_ok] at h
    obtain ⟨r, -, h⟩ := h
    cases h
    rfl
  | free p =>
    cases h
    rfl

/-- Every split of the run meets a vacant record. -/
def SplitsVacantly (heap : Heap) (h : List Event) : Prop :=
  ∀ h₁ blocks size p h₂, h = h₁ ++ .malloc size p :: h₂ → Run (step heap) booted h₁ blocks →
    SplitsIntoVacant blocks size

theorem SplitsVacantly.of_prefix {h h' : List Event} (hpre : h <+: h')
    (hv : SplitsVacantly heap h') : SplitsVacantly heap h := by
  rintro h₁ blocks size p h₂ rfl hrun
  obtain ⟨h₃, rfl⟩ := hpre
  exact hv h₁ blocks size p (h₂ ++ h₃) (by simp) hrun

theorem run_partitions {h : List Event} (hrun : Run (step heap) booted h blocks)
    (hpos : Positive h) (hv : SplitsVacantly heap h) : Partitions (cells blocks) offsets := by
  revert hpos hv
  refine hrun.invariant (I := fun h blocks => Positive h → SplitsVacantly heap h →
    Partitions (cells blocks) offsets) (fun _ _ => partitions_booted) ?_
  intro h₁ blocks₁ c o blocks₂ hrun₁ ih hstep hpos hv
  have hs := run_safe hrun₁ hpos.init
  have hpart := ih hpos.init (hv.of_prefix (List.prefix_append h₁ [o]))
  have hS := step_cases hs.table hstep (by rintro size p rfl; exact hpos size p (by simp))
  cases o with
  | malloc size p =>
    exact (malloc_partitions_iff hs.table hpart hS).mpr (hv h₁ blocks₁ size p [] rfl hrun₁)
  | free p =>
    cases hS
    rw [cells_free]
    exact hpart

/-- Along a run with positive sizes the heap is conserved exactly when every split of the run goes
into a vacant record. -/
theorem conserved_iff (heap : Heap) {h : List Event} {blocks : Blocks}
    (hrun : Run (step heap) booted h blocks) (hpos : Positive h) :
    Along (step heap) booted h (Conserved heap) ↔ SplitsVacantly heap h := by
  have hsizes : ∀ h₁, h₁ <+: h → Positive h₁ := fun h₁ hpre size p hmem =>
    hpos size p (hpre.subset hmem)
  constructor
  · rintro hall h₁ blocks₁ size p h₂ rfl hrun₁
    obtain ⟨s₁, c, s₂, hrun₁', hstep, -⟩ := hrun.event
    obtain rfl := hrun₁'.unique Event.call (fun _ _ _ _ => step_call) hrun₁
    have hpre : h₁ ++ [.malloc size p] <+: h₁ ++ .malloc size p :: h₂ := ⟨h₂, by simp⟩
    have hs := run_safe hrun₁ (hsizes h₁ (List.prefix_append _ _))
    have hs' := run_safe (hrun₁.snoc hstep) (hsizes _ hpre)
    have hS := step_cases hs.table hstep (by
      rintro size' p' he
      exact hpos size' p' (by rw [← he]; simp))
    have hpart := (conserved_iff_partitions hs).mp
      (hall h₁ s₁ (List.prefix_append _ _) hrun₁)
    have hpart' := (conserved_iff_partitions hs').mp (hall _ s₂ hpre (hrun₁.snoc hstep))
    exact (malloc_partitions_iff hs.table hpart hS).mp hpart'
  · intro hv h₁ blocks₁ hpre hrun₁
    rw [conserved_iff_partitions (run_safe hrun₁ (hsizes h₁ hpre))]
    exact run_partitions hrun₁ (hsizes h₁ hpre) (hv.of_prefix hpre)

theorem conserved_iff_one : ∃ blocks,
    Run (step lowHeap) booted [.malloc 10 (lowHeap.pointer 0)] blocks ∧
    (Along (step lowHeap) booted [.malloc 10 (lowHeap.pointer 0)] (Conserved lowHeap) ↔
      SplitsVacantly lowHeap [.malloc 10 (lowHeap.pointer 0)]) := by
  have hrun := Run.single (step_booted lowHeap 10 (by decide) (by decide))
  refine ⟨_, hrun, conserved_iff lowHeap hrun ?_⟩
  intro size p hmem
  obtain ⟨rfl, -⟩ : size = 10 ∧ p = lowHeap.pointer 0 := by simpa using hmem
  decide

theorem two_allocations : ∃ blocks,
    Run (step lowHeap) booted [.malloc 10 0x100000, .malloc 20 0x10000A] blocks ∧
    blocks.get 0 = ⟨0, 10, true⟩ ∧ blocks.get 1 = ⟨10, 20, true⟩ ∧
    Partitions (cells blocks) offsets := by
  have hS₁ := step_cases wellFormed_booted
    (step_booted lowHeap 10 (by decide) (by decide)) (by simp)
  have hw₁ := wellFormed_booted.step hS₁
  have hpart₁ := (malloc_partitions_iff wellFormed_booted partitions_booted hS₁).mpr
    fun i hi _ _ => by
      obtain rfl := hi.unique (firstFit_booted 10 (by decide))
      exact congrArg Block.size (booted_getElem 1)
  have run₁ := Run.single (step_booted lowHeap 10 (by decide) (by decide))
  have h₀ : (splitAt booted 0 (by decide) 10)[(0 : Fin 1024)] = ⟨0, 10, true⟩ := by
    rw [splitAt_left, booted_zero]
  have h₁ : (splitAt booted 0 (by decide) 10)[(1 : Fin 1024)] = ⟨10, 1014, false⟩ := by
    rw [splitAt_right rfl, booted_zero]
    rfl
  have h₂ : (splitAt booted 0 (by decide) 10)[(2 : Fin 1024)] = ⟨0, 0, false⟩ := by
    rw [splitAt_of_ne (by decide) (by decide), booted_getElem]
    rfl
  generalize splitAt booted 0 (by decide) 10 = blocks₁ at *
  have hfits : Fits 20 blocks₁[(1 : Fin 1024)] := by
    rw [h₁]
    exact ⟨rfl, by decide⟩
  have hfirst : FirstFit blocks₁ 20 1 := firstFit_one (congrArg Block.used h₀) hfits
  have hstep := hw₁.step_split lowHeap 20 (by decide) hfirst (by rw [h₁]; decide)
  have hS := step_cases hw₁ hstep (by simp)
  have hpart := (malloc_partitions_iff hw₁ hpart₁ hS).mpr fun i hi _ _ => by
    obtain rfl := hi.unique hfirst
    exact congrArg Block.size h₂
  have hpointer : lowHeap.pointer blocks₁[(1 : Fin 1024)].start = 0x10000A := by
    rw [h₁]
    rfl
  rw [hpointer] at hstep
  refine ⟨_, run₁.snoc hstep, ?_, ?_, hpart⟩
  · exact (splitAt_of_ne (by decide) (by decide)).trans h₀
  · exact splitAt_left.trans (by rw [h₁])

/-- Ask for 10 and 20 bytes, free the first and ask for 5: the rest of the free record is written
over the record of the 20 bytes, and nothing covers them any more. -/
theorem conserved_fails : ∃ blocks,
    Run (step lowHeap) booted [.malloc 10 0x100000, .malloc 20 0x10000A, .free 0x100000,
      .malloc 5 0x100000] blocks ∧
    live [.malloc 10 0x100000, .malloc 20 0x10000A, .free 0x100000, .malloc 5 0x100000] =
      [(0x10000A, 20), (0x100000, 5)] ∧
    ¬ Conserved lowHeap [.malloc 10 0x100000, .malloc 20 0x10000A, .free 0x100000,
      .malloc 5 0x100000] blocks := by
  have hpositive : Positive [.malloc 10 0x100000, .malloc 20 0x10000A, .free 0x100000,
      .malloc 5 0x100000] := by
    intro size p hmem
    simp only [List.mem_cons, Event.malloc.injEq, reduceCtorEq, List.not_mem_nil, or_false,
      false_or] at hmem
    omega
  obtain ⟨blocks, hrun, h₀, h₁, hpart⟩ := two_allocations
  change blocks[(0 : Fin 1024)] = _ at h₀
  change blocks[(1 : Fin 1024)] = _ at h₁
  have hw := (run_safe hrun fun size p hmem => hpositive size p (by
    simp only [List.mem_cons, List.not_mem_nil, or_false] at hmem ⊢
    tauto)).table
  have hwfree := hw.step (Step.free 0x100000 : Step lowHeap blocks _ _)
  have hoffset : lowHeap.offset 0x100000 = 0 := by decide
  have h₀' : (free lowHeap 0x100000 blocks)[(0 : Fin 1024)] = ⟨0, 10, false⟩ := by
    rw [free_getElem, h₀, hoffset]
    rfl
  have h₁' : (free lowHeap 0x100000 blocks)[(1 : Fin 1024)] = ⟨10, 20, true⟩ := by
    rw [free_getElem, h₁, hoffset]
    rfl
  have hrun' := hrun.snoc (i := Call.free 0x100000) (o := .free 0x100000) (by rfl)
  rw [← cells_free lowHeap 0x100000] at hpart
  generalize free lowHeap 0x100000 blocks = blocks' at *
  have hfits : Fits 5 blocks'[(0 : Fin 1024)] := by
    rw [h₀']
    exact ⟨rfl, by decide⟩
  have hfirst : FirstFit blocks' 5 0 := firstFit_zero hfits
  have hlt : 5 < blocks'[(0 : Fin 1024)].size := by rw [h₀']; decide
  have hstep := hwfree.step_split lowHeap 5 (by decide) hfirst hlt
  have hpointer : lowHeap.pointer blocks'[(0 : Fin 1024)].start = 0x100000 := by
    rw [h₀']
    rfl
  rw [hpointer] at hstep
  have hrun'' := hrun'.snoc hstep
  refine ⟨_, hrun'', by decide, fun hconserved => ?_⟩
  have hpart' := (conserved_iff_partitions (run_safe hrun'' hpositive)).mp hconserved
  have hS := step_cases hwfree hstep (by simp)
  have hvacant := (malloc_partitions_iff hwfree hpart hS).mp hpart' 0 hfirst hlt (by decide)
  have hsize : blocks'[(1 : Fin 1024)].size = 20 := by rw [h₁']
  exact absurd (hsize.symm.trans hvacant) (by decide)

end EyaX.Zmm
