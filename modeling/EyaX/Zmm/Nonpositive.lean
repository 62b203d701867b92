import EyaX.Zmm.Safety

/-!
# Requests for nothing

`malloc` does not look at the sign of the size. A request for zero bytes of a larger record leaves
the record with nothing and its successor with the same start, so the next request returns the same
pointer. No table is safe from that: record 0 always starts the heap, and as long as it holds
nothing record 1 starts there too, so once `heap` is freed two requests for zero bytes both return
`heap`.
-/

namespace EyaX.Zmm

open Fallible (Run)

variable {heap : Heap} {blocks blocks' : Blocks}

/-! ## What a harmless request leaves -/

/-- The record lies in the heap. -/
structure Inside (b : Block) : Prop where
  size_nonneg : 0 ≤ b.size
  start_nonneg : 0 ≤ b.start
  end_le : b.start + b.size ≤ heapSize

/-- The sizes asked for are values of `int`. -/
def IntSizes (h : List Event) : Prop :=
  ∀ size p, Event.malloc size p ∈ h → -2 ^ 31 ≤ size ∧ size < 2 ^ 31

/-- No two live allocations start at one address. -/
def StartsDiffer (h : List Event) : Prop := (live h).Pairwise fun a b => a.1 ≠ b.1

/-- The request ends with no overflow and no write behind the table, every record lies in the heap
after it, and however the run goes on live allocations do not share their start. -/
def Harmless (heap : Heap) (h : List Event) (blocks : Blocks) (size : Int) : Prop :=
  ∃ p blocks', malloc heap size blocks = .ok (p, blocks') ∧ (∀ b ∈ blocks', Inside b) ∧
    ∀ h' blocks'', Run (step heap) blocks' h' blocks'' → IntSizes h' →
      StartsDiffer (h ++ .malloc size p :: h')

/-! ## The first two records -/

/-- What requests of any size keep: record 0 starts the heap, and if it holds nothing record 1
starts where it ends. -/
structure Chained (blocks : Blocks) : Prop where
  first : (blocks.get 0).start = 0
  second : (blocks.get 0).size ≤ 0 → (blocks.get 1).start = (blocks.get 0).size

theorem chained_booted : Chained booted := by
  have hzero : booted.get 0 = ⟨0, heapSize, false⟩ := booted_zero
  constructor
  · rw [hzero]
  · rw [hzero]
    intro hle
    exact absurd hle (by decide)

theorem Chained.congr (hc : Chained blocks)
    (h : ∀ j, (blocks'.get j).start = (blocks.get j).start ∧
      (blocks'.get j).size = (blocks.get j).size) : Chained blocks' := by
  constructor
  · rw [(h 0).1]
    exact hc.first
  · rw [(h 0).2, (h 1).1]
    exact hc.second

theorem Chained.take (hc : Chained blocks) (i : Fin 1024) : Chained (Zmm.take blocks i) := by
  apply hc.congr
  intro j
  rw [get_eq, get_eq]
  by_cases hj : j = i
  · subst hj
    rw [take_self]
    exact ⟨rfl, rfl⟩
  · rw [take_of_ne hj]
    exact ⟨rfl, rfl⟩

theorem Chained.free (hc : Chained blocks) (p : UInt64) : Chained (Zmm.free heap p blocks) := by
  apply hc.congr
  intro j
  rw [get_eq, get_eq, free_getElem]
  split
  · exact ⟨rfl, rfl⟩
  · exact ⟨rfl, rfl⟩

theorem Chained.split (hc : Chained blocks) (i : Fin 1024) (hnext : i.val + 1 < 1024) (size : Int) :
    Chained (splitAt blocks i hnext size) := by
  have hfirst := hc.first
  by_cases hi : i = 0
  · -- record 1 is the rest of record 0
    subst hi
    constructor
    · rw [get_eq, splitAt_left]
      exact hfirst
    · intro _
      rw [get_eq, get_eq, splitAt_left, splitAt_right rfl]
      show (blocks.get 0).start + size = size
      omega
  · have hzero : (splitAt blocks i hnext size).get 0 = blocks.get 0 :=
      splitAt_of_ne (Ne.symm hi) (Nat.succ_ne_zero i.val).symm
    have hone : ((splitAt blocks i hnext size).get 1).start = (blocks.get 1).start := by
      rw [get_eq, get_eq]
      rcases splitAt_cases hnext size 1 with ⟨rfl, h⟩ | ⟨hlast, -⟩ | ⟨-, -, h⟩
      · rw [h]
      · have hval : i.val = 0 := (Nat.succ.inj hlast).symm
        exact absurd (Fin.ext hval) hi
      · rw [h]
    constructor
    · rw [hzero]
      exact hfirst
    · rw [hzero, hone]
      exact hc.second

theorem Chained.step {c : Call} {o : Event} (hc : Chained blocks)
    (hstep : step heap blocks c = .ok (o, blocks')) : Chained blocks' := by
  cases c with
  | malloc size =>
    rw [Zmm.step, Exec.bind_eq_ok] at hstep
    obtain ⟨⟨p, blocks₁⟩, hmalloc, hstep⟩ := hstep
    cases hstep
    cases malloc_served hmalloc with
    | full hnone => exact hc
    | take i hi hsize => exact hc.take i
    | split i hi hsize hnext => exact hc.split i hnext size
  | free p =>
    cases hstep
    exact hc.free p

theorem run_chained {h : List Event} (hrun : Run (step heap) booted h blocks) : Chained blocks :=
  hrun.invariant (I := fun _ blocks => Chained blocks) chained_booted
    fun _ _ _ _ _ _ hc hstep => hc.step hstep

/-! ## Two requests for zero bytes -/

/-- A request for zero bytes takes an empty record whole and splits any other. -/
theorem malloc_zero (heap : Heap) {i : Fin 1024} (hi : FirstFit blocks 0 i)
    (hin : Inside (blocks.get i)) (hnext : i.val + 1 < 1024) :
    malloc heap 0 blocks = .ok (heap.pointer (blocks.get i).start,
      if (blocks.get i).size = 0 then take blocks i else splitAt blocks i hnext 0) := by
  have hsize := hin.size_nonneg
  have hstart := hin.start_nonneg
  have hend := hin.end_le
  rw [heapSize] at hend
  rw [get_eq] at *
  by_cases hempty : blocks[i].size = 0
  · rw [if_pos hempty]
    exact malloc_take hi hempty
  · rw [if_neg hempty]
    exact malloc_split hi (by omega) hnext (by omega) (by omega)

theorem malloc_zero_first (heap : Heap) (hin : ∀ i, Inside (blocks.get i)) (hc : Chained blocks)
    (hfree : (blocks.get 0).used = false)
    (hfree' : (blocks.get 0).size = 0 → (blocks.get 1).used = false) :
    ∃ blocks', malloc heap 0 blocks = .ok (heap.pointer 0, blocks') ∧
      (blocks'.get 0).used = true ∧ (blocks'.get 1).used = false ∧
      (blocks'.get 1).start = 0 ∧ Inside (blocks'.get 1) := by
  have hfirst : FirstFit blocks 0 0 := firstFit_zero ⟨hfree, (hin 0).size_nonneg⟩
  have hmalloc := malloc_zero heap hfirst (hin 0) (by decide)
  rw [hc.first] at hmalloc
  refine ⟨_, hmalloc, ?_⟩
  by_cases hempty : (blocks.get 0).size = 0
  · have hstart := hc.second (le_of_eq hempty)
    rw [hempty] at hstart
    rw [if_pos hempty, get_eq, get_eq, take_self, take_of_ne (by decide)]
    exact ⟨rfl, hfree' hempty, hstart, hin 1⟩
  · have hend := (hin 0).end_le
    have hzero := hc.first
    rw [hc.first] at hend
    rw [get_eq] at hzero
    rw [if_neg hempty, get_eq, get_eq, splitAt_left, splitAt_right rfl, hzero, Int.zero_add,
      Int.sub_zero]
    exact ⟨rfl, rfl, rfl, (hin 0).size_nonneg, le_refl _, hend⟩

theorem Inside.free (hin : ∀ i, Inside (blocks.get i)) (p : UInt64) (i : Fin 1024) :
    Inside ((Zmm.free heap p blocks).get i) := by
  rw [get_eq, free_getElem]
  split
  · exact ⟨(hin i).size_nonneg, (hin i).start_nonneg, (hin i).end_le⟩
  · exact hin i

theorem get_free {i : Fin 1024} {p : UInt64} (h : (blocks.get i).start = heap.offset p) :
    (free heap p blocks).get i = { blocks.get i with used := false } := by
  rw [get_eq, free_getElem]
  exact if_pos h

/-- From any table that lies in the heap, two live allocations can come to start it. -/
theorem run_twice (heap : Heap) (hc : Chained blocks) (hin : ∀ i, Inside (blocks.get i)) :
    ∃ blocks', Run (step heap) blocks
      [.free (heap.pointer 0), .malloc 0 (heap.pointer 0), .malloc 0 (heap.pointer 0)] blocks' := by
  have hoffset : heap.offset (heap.pointer 0) = 0 := offset_pointer (le_refl _) (by decide)
  have hfreed : ∀ i, (blocks.get i).start = 0 →
      ((free heap (heap.pointer 0) blocks).get i).used = false := by
    intro i hstart
    rw [get_free (hstart.trans hoffset.symm)]
  have hfree' : ((free heap (heap.pointer 0) blocks).get 0).size = 0 →
      ((free heap (heap.pointer 0) blocks).get 1).used = false := by
    intro hempty
    rw [get_free (hc.first.trans hoffset.symm)] at hempty
    have hstart := hc.second (le_of_eq hempty)
    exact hfreed 1 (hstart.trans hempty)
  obtain ⟨blocks₁, hmalloc₁, hused, hunused, hstart, hin₁⟩ :=
    malloc_zero_first heap (Inside.free hin _) (hc.free _) (hfreed 0 hc.first) hfree'
  have hsecond : FirstFit blocks₁ 0 1 := firstFit_one hused ⟨hunused, hin₁.size_nonneg⟩
  have hmalloc₂ := malloc_zero heap hsecond hin₁ (by decide)
  rw [hstart] at hmalloc₂
  have hrun : Run (step heap) blocks [.free (heap.pointer 0)] (free heap (heap.pointer 0) blocks) :=
    Run.single (i := Call.free (heap.pointer 0)) rfl
  have hrun₁ := hrun.snoc (i := Call.malloc 0) (by rw [step, hmalloc₁]; rfl)
  have hrun₂ := hrun₁.snoc (i := Call.malloc 0) (by rw [step, hmalloc₂]; rfl)
  exact ⟨_, hrun₂⟩

/-! ## No request is harmless -/

theorem live_append (h h' : List Event) : live (h ++ h') = h'.foldl track (live h) := by
  rw [live, List.foldl_append]
  rfl

theorem not_startsDiffer_twice (heap : Heap) (h : List Event) (o : Event) :
    ¬ StartsDiffer (h ++ o ::
      [.free (heap.pointer 0), .malloc 0 (heap.pointer 0), .malloc 0 (heap.pointer 0)]) := by
  have hne : heap.pointer 0 ≠ 0 := pointer_ne_zero (le_refl _) (by decide)
  intro hdiffer
  rw [StartsDiffer, live_append, List.foldl_cons] at hdiffer
  simp only [List.foldl_cons, List.foldl_nil, track, if_neg hne, List.append_assoc,
    List.pairwise_append] at hdiffer
  obtain ⟨-, ⟨-, -, hdiffer⟩, -⟩ := hdiffer
  exact hdiffer _ (List.mem_singleton_self _) _ (List.mem_singleton_self _) rfl

/-- From no table that a run reaches, and for no size, is a request harmless. -/
theorem not_harmless (heap : Heap) {h : List Event} {blocks : Blocks}
    (hrun : Run (step heap) booted h blocks) (size : Int) : ¬ Harmless heap h blocks size := by
  intro ⟨p, blocks', hmalloc, hinside, hdiffer⟩
  have hstep : step heap blocks (.malloc size) = .ok (.malloc size p, blocks') := by
    rw [step, hmalloc]
    rfl
  have hc := (run_chained hrun).step hstep
  obtain ⟨blocks'', hrun'⟩ := run_twice heap hc fun i => hinside _ (Vector.getElem_mem i.isLt)
  apply not_startsDiffer_twice heap h (.malloc size p)
  apply hdiffer _ _ hrun'
  intro size' p' hmem
  obtain ⟨rfl, -⟩ : size' = 0 ∧ p' = heap.pointer 0 := by simpa using hmem
  decide

theorem not_harmless_booted : ¬ Harmless lowHeap [] booted (-1) :=
  not_harmless lowHeap .nil (-1)

/-- Ask for nothing after boot, then for ten bytes: both allocations start the heap. -/
theorem harmless_fails :
    (∃ blocks, Run (step lowHeap) booted [.malloc 0 0x100000, .malloc 10 0x100000] blocks) ∧
      live [.malloc 0 0x100000, .malloc 10 0x100000] = [(0x100000, 0), (0x100000, 10)] ∧
      ¬ Harmless lowHeap [] booted 0 := by
  have hpointer : lowHeap.pointer 0 = 0x100000 := rfl
  have hfirst := firstFit_booted 0 (by decide)
  have hmalloc : malloc lowHeap 0 booted = _ :=
    malloc_split hfirst (by rw [booted_zero]; decide) (by decide) (by rw [booted_zero]; decide)
      (by rw [booted_zero]; decide)
  rw [booted_zero, hpointer] at hmalloc
  have hzero : (splitAt booted 0 (by decide) 0)[(0 : Fin 1024)] = ⟨0, 0, true⟩ := by
    rw [splitAt_left, booted_zero]
  have hone : (splitAt booted 0 (by decide) 0)[(1 : Fin 1024)] = ⟨0, 1024, false⟩ := by
    rw [splitAt_right rfl, booted_zero]
    rfl
  generalize splitAt booted 0 (by decide) 0 = blocks₁ at *
  have hfits : Fits 10 blocks₁[(1 : Fin 1024)] := by
    rw [hone]
    exact ⟨rfl, by decide⟩
  have hsecond : FirstFit blocks₁ 10 1 := firstFit_one (congrArg Block.used hzero) hfits
  have hmalloc' : malloc lowHeap 10 blocks₁ = _ :=
    malloc_split hsecond (by rw [hone]; decide) (by decide) (by rw [hone]; decide)
      (by rw [hone]; decide)
  rw [hone, hpointer] at hmalloc'
  have hstep : step lowHeap booted (.malloc 0) = .ok (.malloc 0 0x100000, blocks₁) := by
    rw [step, hmalloc]
    rfl
  have hstep' : step lowHeap blocks₁ (.malloc 10) =
      .ok (.malloc 10 0x100000, splitAt blocks₁ 1 (by decide) 10) := by
    rw [step, hmalloc']
    rfl
  refine ⟨⟨_, (Run.single hstep).snoc hstep'⟩, by decide, ?_⟩
  rintro ⟨p, blocks', hmalloc₀, -, hdiffer⟩
  rw [hmalloc] at hmalloc₀
  cases hmalloc₀
  have hshared := hdiffer _ _ (Run.single hstep') (by
    intro size p hmem
    obtain ⟨rfl, -⟩ : size = 10 ∧ p = 0x100000 := by simpa using hmem
    decide)
  exact absurd hshared (by unfold StartsDiffer; decide)

end EyaX.Zmm
