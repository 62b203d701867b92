import EyaX.Zmm.Calls
import Mathlib.Order.Interval.Set.LinearOrder

/-!
# Live allocations never overlap

A split drops whatever interval the next record held, a live allocation's included. Such an
allocation is lost, not corrupted: no record covers its bytes any more, and since records only ever
shrink or vanish, none ever will. So each live allocation is the interval of a used record or apart
from every record, and a new allocation, cut from a free record, is apart from both kinds.
-/

namespace EyaX.Zmm

open Fallible (Run)

variable {heap : Heap} {blocks blocks' : Blocks}

/-! ## The table -/

theorem split_parts (start size whole : Int) (hpos : 0 ≤ size) (hle : size ≤ whole) :
    Set.Ico start (start + size) ∪ Set.Ico (start + size) (start + whole) =
        Set.Ico start (start + whole) ∧
      Disjoint (Set.Ico start (start + size)) (Set.Ico (start + size) (start + whole)) := by
  refine ⟨Set.Ico_union_Ico_eq_Ico (by omega) (by omega), Set.disjoint_left.mpr ?_⟩
  rintro x ⟨-, hlt⟩ ⟨hle', -⟩
  omega

theorem next_ne (i : Fin 1024) (hi : i.val + 1 < 1024) : i ≠ ⟨i.val + 1, hi⟩ := fun he => by
  have := congrArg Fin.val he
  simp at this

theorem WellFormed.step {o : Event} (hw : WellFormed blocks) (hstep : Step heap blocks o blocks') :
    WellFormed blocks' := by
  cases hstep with
  | full hpos hnone => exact hw
  | free p =>
    apply WellFormed.of_bounded
    · intro j
      rw [free_getElem]
      split
      · exact (hw.bounded j).used false
      · exact hw.bounded j
    · rw [cells_free]
      exact hw.apart
  | take hpos i hi hsize =>
    apply WellFormed.of_bounded
    · intro j
      by_cases hj : j = i
      · subst hj
        rw [take_self]
        exact (hw.bounded j).used true
      · rw [take_of_ne hj]
        exact hw.bounded j
    · rw [cells_take]
      exact hw.apart
  | @split size hpos i hi hsize hnext =>
    have hindex := hw.index_le i (by omega)
    have hend := hw.end_le i (by omega)
    obtain ⟨hunion, hdisj⟩ := split_parts blocks[i].start size blocks[i].size (by omega) (by omega)
    apply WellFormed.of_bounded
    · intro j
      rcases splitAt_cases hnext size j with ⟨hj, h⟩ | ⟨hj, h⟩ | ⟨-, -, h⟩
      · -- the front
        rw [h, hj]
        refine ⟨?_, fun _ => hindex, fun _ => ?_⟩
        · show 0 ≤ size
          omega
        · show blocks[i].start + size ≤ heapSize
          omega
      · -- the rest
        rw [h]
        refine ⟨?_, fun _ => ?_, fun _ => ?_⟩
        · show 0 ≤ blocks[i].size - size
          omega
        · show (j.val : Int) ≤ blocks[i].start + size
          omega
        · show blocks[i].start + size + (blocks[i].size - size) ≤ heapSize
          omega
      · rw [h]
        exact hw.bounded j
    · rw [cells_splitAt]
      apply Cells.pairwise_split hw.apart (next_ne i hnext)
      · exact Set.subset_union_left.trans (le_of_eq hunion)
      · exact Set.subset_union_right.trans (le_of_eq hunion)
      · exact hdisj

theorem wellFormed_booted : WellFormed booted := by
  have hempty : ∀ i : Fin 1024, i.val ≠ 0 → booted[i] = ⟨0, 0, false⟩ := fun i hi => by
    rw [booted_getElem, if_neg hi]
  have hfirst : ∀ i : Fin 1024, i.val = 0 → booted[i] = ⟨0, heapSize, false⟩ := fun i hi => by
    rw [booted_getElem, if_pos hi]
  have hcell : ∀ i : Fin 1024, i.val ≠ 0 → cells booted i = ∅ := by
    intro i hi
    rw [cells, hempty i hi]
    exact Set.Ico_self 0
  apply WellFormed.of_bounded
  · intro i
    by_cases hi : i.val = 0
    · rw [hfirst i hi]
      exact ⟨by decide, fun _ => by rw [hi]; exact le_refl _, fun _ => le_refl _⟩
    · rw [hempty i hi]
      exact ⟨le_refl _, fun h => absurd h (lt_irrefl _), fun h => absurd h (lt_irrefl _)⟩
  · intro i j hij
    show Disjoint (cells booted i) (cells booted j)
    by_cases hi : i.val = 0
    · have hj : j.val ≠ 0 := fun hj => hij (Fin.ext (hi.trans hj.symm))
      rw [hcell j hj]
      exact Set.disjoint_empty _
    · rw [hcell i hi]
      exact Set.empty_disjoint _

/-! ## The live allocations -/

/-- The offsets of an allocation. -/
def region (heap : Heap) (a : UInt64 × Int) : Set Int :=
  Set.Ico (heap.offset a.1) (heap.offset a.1 + a.2)

/-- No record owns any of the allocation's bytes. -/
def Lost (heap : Heap) (blocks : Blocks) (a : UInt64 × Int) : Prop :=
  ∀ i, Disjoint (region heap a) (cells blocks i)

/-- The allocation lies inside the heap. -/
structure Placed (heap : Heap) (a : UInt64 × Int) : Prop where
  pos : 1 ≤ a.2
  nonneg : 0 ≤ heap.offset a.1
  end_le : heap.offset a.1 + a.2 ≤ heapSize
  pointer : a.1 = heap.pointer (heap.offset a.1)

/-- What holds after every run of positive requests. -/
structure Safe (heap : Heap) (h : List Event) (blocks : Blocks) : Prop where
  table : WellFormed blocks
  placed : ∀ a ∈ live h, Placed heap a
  kept : ∀ a ∈ live h, Recorded heap blocks a ∨ Lost heap blocks a
  apart : (live h).Pairwise fun a b => Disjoint (region heap a) (region heap b)

/-- Every live allocation is apart from the record that `malloc` acts on. -/
theorem Safe.apart_firstFit {h : List Event} (hs : Safe heap h blocks) {size : Int} {i : Fin 1024}
    (hi : FirstFit blocks size i) : ∀ a ∈ live h, Disjoint (region heap a) (cells blocks i) := by
  intro a ha
  rcases hs.kept a ha with ⟨k, hk⟩ | hlost
  · have hki : k ≠ i := hi.ne_of_used (by rw [hk])
    have hregion : region heap a = cells blocks k := by rw [cells, hk, region]
    rw [hregion]
    exact hs.table.apart hki
  · exact hlost i

theorem Safe.alloc {h : List Event} (hs : Safe heap h blocks) {size start : Int} (hpos : 1 ≤ size)
    {i : Fin 1024} (hi : FirstFit blocks size i) (hstart : (blocks.get i).start = start)
    (hw : WellFormed blocks') (hkept : ∀ a ∈ live h, Recorded heap blocks' a ∨ Lost heap blocks' a)
    (hnew : blocks'.get i = ⟨start, size, true⟩) :
    Safe heap (h ++ [.malloc size (heap.pointer start)]) blocks' := by
  change blocks[i].start = start at hstart
  have hle : size ≤ blocks[i].size := hi.fits.2
  have hindex := hs.table.index_le i (by omega)
  have hend := hs.table.end_le i (by omega)
  have hheap : heapSize = 1024 := rfl
  have hoffset : heap.offset (heap.pointer start) = start := offset_pointer (by omega) (by omega)
  have hlive : live (h ++ [.malloc size (heap.pointer start)]) =
      live h ++ [(heap.pointer start, size)] := by
    rw [live_snoc, track, if_neg (pointer_ne_zero (by omega) (by omega))]
  have hsub : region heap (heap.pointer start, size) ⊆ cells blocks i := by
    rw [region, cells, hoffset, hstart]
    exact Set.Ico_subset_Ico_right (by omega)
  refine ⟨hw, ?_, ?_, ?_⟩
  · rw [hlive]
    intro a ha
    rcases List.mem_append.mp ha with ha | ha
    · exact hs.placed a ha
    · obtain rfl := List.mem_singleton.mp ha
      refine ⟨hpos, ?_, ?_, ?_⟩
      · show 0 ≤ heap.offset (heap.pointer start)
        omega
      · show heap.offset (heap.pointer start) + size ≤ heapSize
        omega
      · show heap.pointer start = _
        rw [hoffset]
  · rw [hlive]
    intro a ha
    rcases List.mem_append.mp ha with ha | ha
    · exact hkept a ha
    · obtain rfl := List.mem_singleton.mp ha
      refine Or.inl ⟨i, ?_⟩
      rw [hoffset]
      exact hnew
  · rw [hlive, List.pairwise_append]
    refine ⟨hs.apart, List.pairwise_singleton _ _, fun a ha b hb => ?_⟩
    obtain rfl := List.mem_singleton.mp hb
    exact (hs.apart_firstFit hi a ha).mono_right hsub

theorem Safe.free {h : List Event} (hs : Safe heap h blocks) (p : UInt64) :
    Safe heap (h ++ [.free p]) (Zmm.free heap p blocks) := by
  have hmem : ∀ a, a ∈ live (h ++ [.free p]) → a ∈ live h ∧ a.1 ≠ p := fun a ha => by
    rw [live_snoc, track, List.mem_filter] at ha
    exact ⟨ha.1, by simpa using ha.2⟩
  refine ⟨hs.table.step (.free p), fun a ha => hs.placed a (hmem a ha).1, fun a ha => ?_, ?_⟩
  · obtain ⟨ha, hne⟩ := hmem a ha
    rcases hs.kept a ha with ⟨k, hk⟩ | hlost
    · refine Or.inl ⟨k, ?_⟩
      have hstart : ¬ blocks[k].start = heap.offset p := by
        rw [hk]
        exact fun he => hne (offset_injective he)
      rw [free_getElem, if_neg hstart, hk]
    · apply Or.inr
      rw [Lost, cells_free]
      exact hlost
  · rw [live_snoc, track]
    exact hs.apart.filter _

theorem Safe.step {h : List Event} {o : Event} (hs : Safe heap h blocks)
    (hstep : Step heap blocks o blocks') : Safe heap (h ++ [o]) blocks' := by
  have hw := hs.table.step hstep
  cases hstep with
  | full hpos hnone =>
    have hlive : ∀ size, live (h ++ [.malloc size 0]) = live h := fun size => by
      rw [live_snoc, track, if_pos rfl]
    refine ⟨hw, ?_, ?_, ?_⟩
    all_goals
      rw [hlive]
    · exact hs.placed
    · exact hs.kept
    · exact hs.apart
  | take hpos i hi hsize =>
    refine hs.alloc hpos hi rfl hw (fun a ha => ?_) (take_self.trans (by rw [hsize]))
    rcases hs.kept a ha with ⟨k, hk⟩ | hlost
    · refine Or.inl ⟨k, ?_⟩
      rw [take_of_ne (hi.ne_of_used (by rw [hk])), hk]
    · apply Or.inr
      rw [Lost, cells_take]
      exact hlost
  | @split size hpos i hi hsize hnext =>
    refine hs.alloc hpos hi rfl hw (fun a ha => ?_) splitAt_left
    obtain ⟨hunion, -⟩ := split_parts blocks[i].start size blocks[i].size (by omega) (by omega)
    have hleft := Set.subset_union_left.trans (le_of_eq hunion)
    have hright := Set.subset_union_right.trans (le_of_eq hunion)
    rw [Lost, cells_splitAt]
    rcases hs.kept a ha with ⟨k, hk⟩ | hlost
    · have hki : k ≠ i := hi.ne_of_used (by rw [hk])
      by_cases hk' : k.val = i.val + 1
      · -- the allocation's record is overwritten
        obtain rfl : k = ⟨i.val + 1, hnext⟩ := Fin.ext hk'
        refine Or.inr (Cells.disjoint_split (next_ne i hnext) hleft hright fun l hl => ?_)
        have hregion : region heap a = cells blocks ⟨i.val + 1, hnext⟩ := by
          rw [cells, hk, region]
        rw [hregion]
        exact hs.table.apart (Ne.symm hl)
      · exact Or.inl ⟨k, by rw [splitAt_of_ne hki hk', hk]⟩
    · exact Or.inr (Cells.disjoint_split (next_ne i hnext) hleft hright fun l _ => hlost l)
  | free p => exact hs.free p

theorem run_safe {h : List Event} (hrun : Run (step heap) booted h blocks) (hpos : Positive h) :
    Safe heap h blocks := by
  revert hpos
  refine hrun.invariant (I := fun h blocks => Positive h → Safe heap h blocks) (fun _ => ?_) ?_
  · exact ⟨wellFormed_booted, by simp, by simp, List.Pairwise.nil⟩
  · intro h₁ blocks₁ c o blocks₂ _ ih hstep hpos
    have hs := ih hpos.init
    refine hs.step (step_cases hs.table hstep ?_)
    rintro size p rfl
    exact hpos size p (by simp)

/-! ## Safety -/

/-- The bytes of an allocation. -/
def extent (a : UInt64 × Int) : Set Int := Set.Ico (a.1.toNat : Int) (a.1.toNat + a.2)

theorem Placed.toNat {a : UInt64 × Int} (ha : Placed heap a) :
    (a.1.toNat : Int) = heap.address.toNat + heap.offset a.1 := by
  have hnonneg := ha.nonneg
  have hpos := ha.pos
  have hend := ha.end_le
  rw [heapSize] at hend
  have hto := pointer_toNat heap hnonneg (by omega)
  rw [← ha.pointer] at hto
  omega

/-- In every run with positive sizes, frees of arbitrary pointers included, live allocations lie
inside the heap and do not overlap, and no `malloc` leaves the block table. -/
theorem live_safe (heap : Heap) {h : List Event} {blocks : Blocks}
    (hrun : Run (step heap) booted h blocks) (hpos : Positive h) :
    (∀ a ∈ live h, (heap.address.toNat : Int) ≤ a.1.toNat ∧
      a.1.toNat + a.2 ≤ heap.address.toNat + heapSize) ∧
    ((live h).Pairwise fun a b => Disjoint (extent a) (extent b)) ∧
    ∀ size, 1 ≤ size → ∃ p blocks', malloc heap size blocks = .ok (p, blocks') := by
  have hs := run_safe hrun hpos
  refine ⟨fun a ha => ?_, ?_, fun size hsize => ?_⟩
  · have hplaced := hs.placed a ha
    have hto := hplaced.toNat
    have hnonneg := hplaced.nonneg
    have hend := hplaced.end_le
    omega
  · refine hs.apart.imp_of_mem fun {a b} ha hb hdisj => Set.disjoint_left.mpr ?_
    rintro x ⟨hax, hxa⟩ ⟨hbx, hxb⟩
    have hto := (hs.placed a ha).toNat
    have hto' := (hs.placed b hb).toNat
    have hxa' : x - (heap.address.toNat : Int) ∈ region heap a := ⟨by omega, by omega⟩
    have hxb' : x - (heap.address.toNat : Int) ∈ region heap b := ⟨by omega, by omega⟩
    exact Set.disjoint_left.mp hdisj hxa' hxb'
  · obtain ⟨p, blocks', hmalloc, -⟩ := malloc_spec heap hs.table hsize
    exact ⟨p, blocks', hmalloc⟩

/-- A heap at 1 MiB. -/
def lowHeap : Heap := ⟨0x100000, by decide, by decide⟩

theorem booted_zero : booted[(0 : Fin 1024)] = ⟨0, heapSize, false⟩ := by
  rw [booted_getElem]
  rfl

theorem firstFit_booted (size : Int) (hsize : size ≤ heapSize) : FirstFit booted size 0 := by
  apply firstFit_zero
  rw [get_eq, booted_zero]
  exact ⟨rfl, hsize⟩

theorem step_booted (heap : Heap) (size : Int) (hpos : 1 ≤ size) (hlt : size < heapSize) :
    step heap booted (.malloc size) =
      .ok (.malloc size (heap.pointer 0), splitAt booted 0 (by decide) size) := by
  have hsize : size < booted[(0 : Fin 1024)].size := by rwa [booted_zero]
  have hstart : booted[(0 : Fin 1024)].start = 0 := by rw [booted_zero]
  rw [wellFormed_booted.step_split heap size hpos (firstFit_booted size hlt.le) hsize, hstart]

theorem live_safe_one : ∃ blocks,
    Run (step lowHeap) booted [.malloc 10 (lowHeap.pointer 0)] blocks ∧
    ∀ size, 1 ≤ size → ∃ p blocks', malloc lowHeap size blocks = .ok (p, blocks') := by
  have hrun := Run.single (step_booted lowHeap 10 (by decide) (by decide))
  refine ⟨_, hrun, (live_safe lowHeap hrun ?_).2.2⟩
  intro size p hmem
  obtain ⟨rfl, -⟩ : size = 10 ∧ p = lowHeap.pointer 0 := by simpa using hmem
  decide

end EyaX.Zmm
