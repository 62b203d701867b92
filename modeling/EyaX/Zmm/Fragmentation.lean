import EyaX.Zmm.Safety

/-!
# What the heap never takes back

`free` does not join records: every record of a later table lies inside a record of an earlier one.
So a request larger than all records is refused from then on, whatever is freed. What was freed is
found again, though: a request of the same size gets the same pointer and leaves the same table.
-/

namespace EyaX.Zmm

open Fallible (Run)

variable {heap : Heap} {blocks blocks' : Blocks}

/-! ## Records only shrink -/

/-- Every record of the second table lies inside a record of the first. -/
def Finer (blocks blocks' : Blocks) : Prop := ∀ j, ∃ i, cells blocks' j ⊆ cells blocks i

theorem Finer.of_eq (h : cells blocks' = cells blocks) : Finer blocks blocks' :=
  fun j => ⟨j, by rw [h]⟩

theorem Finer.trans {blocks'' : Blocks} (h : Finer blocks blocks') (h' : Finer blocks' blocks'') :
    Finer blocks blocks'' := by
  intro k
  obtain ⟨j, hj⟩ := h' k
  obtain ⟨i, hi⟩ := h j
  exact ⟨i, hj.trans hi⟩

theorem Finer.step {o : Event} (h : Step heap blocks o blocks') : Finer blocks blocks' := by
  cases h with
  | full hpos hnone => exact .of_eq rfl
  | take hpos i hi hsize => exact .of_eq cells_take
  | @split size hpos i hi hsize hnext =>
    obtain ⟨hunion, -⟩ := split_parts blocks[i].start size blocks[i].size (by omega) (by omega)
    have hleft := Set.subset_union_left.trans (le_of_eq hunion)
    have hright := Set.subset_union_right.trans (le_of_eq hunion)
    intro j
    rw [cells_splitAt]
    obtain ⟨k, -, -, hsub⟩ :=
      Cells.split_subset (f := cells blocks) (next_ne i hnext) hleft hright j
    exact ⟨k, hsub⟩
  | free p => exact .of_eq (cells_free heap p)

theorem size_le_of_subset (hw : WellFormed blocks) {i j : Fin 1024}
    (h : cells blocks' j ⊆ cells blocks i) : (blocks'.get j).size ≤ (blocks.get i).size := by
  rw [get_eq, get_eq]
  have hnonneg := hw.size_nonneg i
  by_cases hpos : 0 < blocks'[j].size
  · obtain ⟨hlo, hhi⟩ := (Set.Ico_subset_Ico_iff (by omega)).mp h
    omega
  · omega

/-- What holds of a table that positive requests reach from another. -/
structure Reaches (blocks blocks' : Blocks) : Prop where
  table : WellFormed blocks'
  finer : Finer blocks blocks'

theorem run_reaches (hw : WellFormed blocks) {h : List Event}
    (hrun : Run (step heap) blocks h blocks') (hpos : Positive h) : Reaches blocks blocks' := by
  revert hpos
  refine hrun.invariant (I := fun h b => Positive h → Reaches blocks b) (fun _ => ⟨hw, .of_eq rfl⟩) ?_
  intro h₁ b c o b' _ ih hstep hpos
  obtain ⟨htable, hfiner⟩ := ih hpos.init
  have hcase : Step heap b o b' := step_cases htable hstep fun size p ho => by
    subst ho
    exact hpos size p (by simp)
  exact ⟨htable.step hcase, hfiner.trans (.step hcase)⟩

theorem Positive.append {h h' : List Event} (hpos : Positive (h ++ h')) : Positive h ∧ Positive h' :=
  ⟨fun size p hmem => hpos size p (List.mem_append_left _ hmem),
    fun size p hmem => hpos size p (List.mem_append_right _ hmem)⟩

theorem malloc_refused (hw : WellFormed blocks) (h : Finer blocks blocks') {size : Int}
    (hsize : ∀ i, (blocks.get i).size < size) :
    malloc heap size blocks' = .ok (0, blocks') := by
  apply malloc_of_none
  intro j hfits
  obtain ⟨i, hsub⟩ := h j
  have hle := size_le_of_subset hw hsub
  have hlt := hsize i
  have hfit : size ≤ (blocks'.get j).size := hfits.2
  omega

/-- From any state that positive requests reach, every record of a later state lies inside a record
of this one, and a request that is larger than all its records, free or not, is refused for ever,
whatever is freed in between. -/
theorem refused_forever (heap : Heap) {h h' : List Event} {blocks blocks' : Blocks}
    (hrun : Run (step heap) booted h blocks) (hrun' : Run (step heap) blocks h' blocks')
    (hpos : Positive (h ++ h')) :
    (∀ j, ∃ i, cells blocks' j ⊆ cells blocks i) ∧
      ∀ size, (∀ i, (blocks.get i).size < size) → malloc heap size blocks' = .ok (0, blocks') := by
  obtain ⟨hbefore, hafter⟩ := hpos.append
  have hw := (run_safe hrun hbefore).table
  have hreaches := run_reaches hw hrun' hafter
  exact ⟨hreaches.finer, fun size hsize => malloc_refused hw hreaches.finer hsize⟩

theorem refused_forever_ten : ∃ blocks blocks',
    Run (step lowHeap) booted [.malloc 10 (lowHeap.pointer 0)] blocks ∧
      Run (step lowHeap) blocks [.free (lowHeap.pointer 0)] blocks' ∧
      ∀ j, ∃ i, cells blocks' j ⊆ cells blocks i := by
  have hrun := Run.single (step_booted lowHeap 10 (by decide) (by decide))
  have hfree : Run (step lowHeap) (splitAt booted 0 (by decide) 10) [.free (lowHeap.pointer 0)]
      (free lowHeap (lowHeap.pointer 0) (splitAt booted 0 (by decide) 10)) :=
    Run.single (i := .free (lowHeap.pointer 0)) rfl
  refine ⟨_, _, hrun, hfree, (refused_forever lowHeap hrun hfree ?_).1⟩
  intro size p hmem
  obtain ⟨rfl, -⟩ : size = 10 ∧ p = lowHeap.pointer 0 := by simpa using hmem
  decide

/-! ## The whole heap -/

theorem WellFormed.size_lt {i : Fin 1024} (hw : WellFormed blocks) (hpos : 0 < (blocks.get i).size)
    (hlt : (blocks.get i).size < heapSize) (j : Fin 1024) : (blocks.get j).size < heapSize := by
  rw [get_eq] at hpos hlt ⊢
  by_contra hge
  have hheap : heapSize = 1024 := rfl
  have hindex := hw.index_le j (by omega)
  have hend := hw.end_le j (by omega)
  have hindex' := hw.index_le i hpos
  have hend' := hw.end_le i hpos
  have hne : i ≠ j := by
    rintro rfl
    exact hge hlt
  have hi : blocks[i].start ∈ cells blocks i := mem_cells.mpr ⟨hpos, by omega, by omega⟩
  have hj : blocks[i].start ∈ cells blocks j := mem_cells.mpr ⟨by omega, by omega, by omega⟩
  exact Set.disjoint_left.mp (hw.apart hne) hi hj

theorem Step.allocated {size : Int} {p : UInt64} (h : Step heap blocks (.malloc size p) blocks')
    (hp : p ≠ 0) : 1 ≤ size ∧ ∃ i : Fin 1024, FirstFit blocks size i ∧
      p = heap.pointer (blocks.get i).start ∧
      blocks'.get i = ⟨(blocks.get i).start, size, true⟩ ∧
      ∀ j, j < i → blocks'.get j = blocks.get j := by
  cases h with
  | full hpos hnone => exact absurd rfl hp
  | take hpos i hi hsize =>
    refine ⟨hpos, i, hi, rfl, by rw [get_eq, take_self, hsize]; rfl,
      fun j hj => take_of_ne (Fin.ne_of_lt hj)⟩
  | split hpos i hi hsize hnext =>
    refine ⟨hpos, i, hi, rfl, splitAt_left, fun j hj => splitAt_of_ne (Fin.ne_of_lt hj) ?_⟩
    have hlt : j.val < i.val := hj
    omega

/-- After one allocation smaller than the heap, a request for all of the heap is refused for ever,
also when everything is freed. -/
theorem whole_heap_refused (heap : Heap) {h h' : List Event} {size : Int} {p : UInt64}
    {blocks : Blocks} (hrun : Run (step heap) booted (h ++ .malloc size p :: h') blocks)
    (hpos : Positive (h ++ .malloc size p :: h')) (hp : p ≠ 0) (hsize : size < heapSize) :
    malloc heap heapSize blocks = .ok (0, blocks) := by
  obtain ⟨blocks₁, c, blocks₂, hbefore, hstep, hafter⟩ := hrun.event
  obtain ⟨hposBefore, hposAfter⟩ := hpos.append
  have hw := (run_safe hbefore hposBefore).table
  have hcase : Step heap blocks₁ (.malloc size p) blocks₂ :=
    step_cases hw hstep fun size' p' ho => hposAfter size' p' (by rw [ho]; exact List.mem_cons_self)
  obtain ⟨hone, i, -, -, hrecord, -⟩ := hcase.allocated hp
  have hw₂ := hw.step hcase
  have hrest := run_reaches hw₂ hafter fun size' p' hmem => hposAfter size' p' (List.mem_cons_of_mem _ hmem)
  refine malloc_refused hw₂ hrest.finer (hw₂.size_lt (i := i) ?_ ?_)
  · rw [hrecord]
    exact hone
  · rw [hrecord]
    exact hsize

theorem whole_heap_refused_ten : ∃ blocks,
    Run (step lowHeap) booted [.malloc 10 (lowHeap.pointer 0), .free (lowHeap.pointer 0)] blocks ∧
      malloc lowHeap heapSize blocks = .ok (0, blocks) := by
  have hrun := Run.single (step_booted lowHeap 10 (by decide) (by decide))
  have hfreed : Run (step lowHeap) booted
      ([.malloc 10 (lowHeap.pointer 0)] ++ [.free (lowHeap.pointer 0)])
      (free lowHeap (lowHeap.pointer 0) (splitAt booted 0 (by decide) 10)) :=
    hrun.snoc (i := .free (lowHeap.pointer 0)) rfl
  have hp : lowHeap.pointer 0 ≠ 0 := pointer_ne_zero (by decide) (by decide)
  refine ⟨_, hfreed, whole_heap_refused lowHeap (h := []) hfreed ?_ hp (by decide)⟩
  intro size p hmem
  obtain ⟨rfl, -⟩ : size = 10 ∧ p = lowHeap.pointer 0 := by simpa using hmem
  decide

/-! ## A freed record is found again -/

/-- Only records that own something are used. -/
def UsedOwns (blocks : Blocks) : Prop :=
  ∀ i, (blocks.get i).used = true → 0 < (blocks.get i).size

theorem usedOwns_booted : UsedOwns booted := by
  intro i hused
  rw [get_eq, booted_getElem] at hused
  split_ifs at hused

theorem UsedOwns.step {o : Event} (h : UsedOwns blocks) (hstep : Step heap blocks o blocks') :
    UsedOwns blocks' := by
  intro j hused
  rw [get_eq] at hused ⊢
  cases hstep with
  | full hpos hnone => exact h j hused
  | take hpos i hi hsize =>
    by_cases hj : j = i
    · subst hj
      rw [take_self]
      show 0 < blocks[j].size
      omega
    · rw [take_of_ne hj] at hused ⊢
      exact h j hused
  | @split size hpos i hi hsize hnext =>
    rcases splitAt_cases hnext size j with ⟨-, hrecord⟩ | ⟨-, hrecord⟩ | ⟨-, -, hrecord⟩
    · rw [hrecord]
      exact hpos
    · rw [hrecord] at hused
      cases hused
    · rw [hrecord] at hused ⊢
      exact h j hused
  | free p =>
    rw [free_getElem] at hused ⊢
    by_cases hstart : blocks[j].start = heap.offset p
    · rw [if_pos hstart] at hused
      cases hused
    · rw [if_neg hstart] at hused ⊢
      exact h j hused

theorem run_usedOwns {h : List Event} (hrun : Run (step heap) booted h blocks) (hpos : Positive h) :
    UsedOwns blocks := by
  revert hpos
  refine hrun.invariant (I := fun h b => Positive h → UsedOwns b) (fun _ => usedOwns_booted) ?_
  intro h₁ b c o b' hrun₁ ih hstep hpos
  have hw := (run_safe hrun₁ hpos.init).table
  refine (ih hpos.init).step (step_cases hw hstep fun size p ho => ?_)
  subst ho
  exact hpos size p (by simp)

theorem free_record (heap : Heap) (hw : WellFormed blocks) (hused : UsedOwns blocks)
    {i : Fin 1024} {size : Int} (hpos : 1 ≤ size) {start : Int} (hi : blocks.get i = ⟨start, size, true⟩) (j : Fin 1024) :
    (free heap (heap.pointer start) blocks).get j =
      if j = i then ⟨start, size, false⟩ else blocks.get j := by
  rw [get_eq] at hi
  have howns : 0 < blocks[i].size := by
    rw [hi]
    exact hpos
  have hheap : heapSize = 1024 := rfl
  have hindex := hw.index_le i howns
  have hend := hw.end_le i howns
  have hstart : blocks[i].start = start := by rw [hi]
  have hoffset : heap.offset (heap.pointer start) = start := offset_pointer (by omega) (by omega)
  rw [get_eq, get_eq, free_getElem, hoffset]
  by_cases hj : j = i
  · subst hj
    rw [if_pos hstart, if_pos rfl, hi]
  · rw [if_neg hj]
    by_cases hsame : blocks[j].start = start
    · -- a record that starts there too owns nothing, so it is not in use
      have hnone : ¬ 0 < blocks[j].size := fun howns' => by
        have hmem : start ∈ cells blocks j := mem_cells.mpr ⟨howns', by omega, by omega⟩
        have hmem' : start ∈ cells blocks i := mem_cells.mpr ⟨howns, by omega, by omega⟩
        exact Set.disjoint_left.mp (hw.apart hj) hmem hmem'
      have hfree : blocks[j].used = false := by
        rw [← Bool.not_eq_true]
        exact fun h => hnone (hused j h)
      rw [if_pos hsame, ← hfree]
    · rw [if_neg hsame]

/-- In every state that positive requests reach: what was just allocated and freed is what the next
request of its size gets, and the table is then the one after the first request. -/
theorem malloc_free_malloc (heap : Heap) {h : List Event} {blocks blocks' : Blocks}
    (hrun : Run (step heap) booted h blocks) (hpos : Positive h) {size : Int} (hsize : 1 ≤ size)
    {p : UInt64} (hmalloc : malloc heap size blocks = .ok (p, blocks')) (hp : p ≠ 0) :
    malloc heap size (free heap p blocks') = .ok (p, blocks') := by
  have hw := (run_safe hrun hpos).table
  obtain ⟨p₁, blocks₁, hmalloc₁, hstep⟩ := malloc_spec heap hw hsize
  rw [hmalloc] at hmalloc₁
  cases hmalloc₁
  obtain ⟨-, i, hi, hpointer, hrecord, hbefore⟩ := hstep.allocated hp
  have hfreed := free_record heap (hw.step hstep) ((run_usedOwns hrun hpos).step hstep) hsize hrecord
  rw [← hpointer] at hfreed
  have hself : (free heap p blocks')[i] = ⟨blocks[i].start, size, false⟩ :=
    (hfreed i).trans (if_pos rfl)
  have hfirst : FirstFit (free heap p blocks') size i := by
    refine ⟨?_, fun j hj hfits => ?_⟩
    · rw [hself]
      exact ⟨rfl, le_refl size⟩
    · have hother : (free heap p blocks')[j] = blocks[j] :=
        ((hfreed j).trans (if_neg (Fin.ne_of_lt hj))).trans (hbefore j hj)
      rw [hother] at hfits
      exact hi.first j hj hfits
  have htable : take (free heap p blocks') i = blocks' := by
    refine Vector.ext fun n hn => ?_
    obtain ⟨j, rfl⟩ : ∃ j : Fin 1024, n = j.val := ⟨⟨n, hn⟩, rfl⟩
    show (take (free heap p blocks') i)[j] = blocks'[j]
    by_cases hj : j = i
    · subst hj
      rw [take_self, hself]
      exact hrecord.symm
    · rw [take_of_ne hj]
      exact (hfreed j).trans (if_neg hj)
  rw [malloc_take hfirst (by rw [hself]), htable, hself]
  exact congrArg (fun p => Except.ok (p, blocks')) hpointer.symm

theorem malloc_free_malloc_ten : ∃ blocks,
    malloc lowHeap 10 booted = .ok (lowHeap.pointer 0, blocks) ∧
      malloc lowHeap 10 (free lowHeap (lowHeap.pointer 0) blocks) = .ok (lowHeap.pointer 0, blocks) := by
  obtain ⟨p, blocks, hmalloc, -⟩ :=
    malloc_spec lowHeap wellFormed_booted (show (1 : Int) ≤ 10 by decide)
  have hstep := step_booted lowHeap 10 (by decide) (by decide)
  rw [step, hmalloc] at hstep
  cases hstep
  have hp : lowHeap.pointer 0 ≠ 0 := pointer_ne_zero (by decide) (by decide)
  have hnone : Positive [] := fun size p hmem => absurd hmem List.not_mem_nil
  exact ⟨_, hmalloc, malloc_free_malloc lowHeap .nil hnone (by decide) hmalloc hp⟩

end EyaX.Zmm
