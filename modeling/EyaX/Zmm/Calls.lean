import EyaX.Zmm.Basic
import EyaX.Lib.Cells
import EyaX.Lib.Run
import Mathlib.Data.Int.ConditionallyCompleteOrder
import Mathlib.Data.Nat.Find
import Mathlib.Order.ConditionallyCompleteLattice.Basic
import Mathlib.Order.Interval.Set.Basic

/-!
# The calls of the heap and their histories

`malloc` acts on the first record that fits: it takes the record whole or splits it into the record
and its successor. `Step` says once what a call can do, a record owns the offsets of its interval,
and an allocation is live from the `malloc` that returned it until its pointer is freed.
-/

namespace EyaX.Zmm

/-- The record can serve a request: free and large enough. -/
def Fits (size : Int) (b : Block) : Prop := b.used = false ∧ size ≤ b.size

/-- The record that `malloc` acts on. -/
structure FirstFit (blocks : Blocks) (size : Int) (i : Fin 1024) : Prop where
  fits : Fits size blocks[i]
  first : ∀ j, j < i → ¬ Fits size blocks[j]

theorem FirstFit.ne_of_used {blocks : Blocks} {size : Int} {i k : Fin 1024}
    (hi : FirstFit blocks size i) (hk : blocks[k].used = true) : k ≠ i := by
  rintro rfl
  rw [hi.fits.1] at hk
  cases hk

theorem exists_firstFit {blocks : Blocks} {size : Int} {i : Fin 1024} (h : Fits size blocks[i]) :
    ∃ k, FirstFit blocks size k := by
  classical
  have hex : ∃ n, ∃ hn : n < 1024, Fits size blocks[n] := ⟨i, i.isLt, h⟩
  obtain ⟨hlt, hfits⟩ := Nat.find_spec hex
  refine ⟨⟨Nat.find hex, hlt⟩, hfits, fun j hj hjfits => ?_⟩
  exact Nat.find_min hex hj ⟨j.isLt, hjfits⟩

theorem firstFit_zero {blocks : Blocks} {size : Int} (h : Fits size (blocks.get 0)) :
    FirstFit blocks size 0 :=
  ⟨h, fun j hj => absurd hj (Fin.not_lt_zero j)⟩

theorem firstFit_one {blocks : Blocks} {size : Int} (hused : (blocks.get 0).used = true)
    (h : Fits size (blocks.get 1)) : FirstFit blocks size 1 := by
  refine ⟨h, fun j hj hfits => ?_⟩
  obtain rfl : j = 0 := Fin.ext (Nat.lt_one_iff.mp hj)
  have hfree : (blocks.get 0).used = false := hfits.1
  rw [hused] at hfree
  cases hfree

/-- The table after taking record `i` whole. -/
def take (blocks : Blocks) (i : Fin 1024) : Blocks :=
  blocks.set i ⟨blocks[i].start, blocks[i].size, true⟩

/-- The table after splitting record `i`: the front is used, the rest is free and goes to record
`i + 1`. -/
def splitAt (blocks : Blocks) (i : Fin 1024) (hi : i.val + 1 < 1024) (size : Int) : Blocks :=
  (blocks.set i ⟨blocks[i].start, size, true⟩).set (i.val + 1)
    ⟨blocks[i].start + size, blocks[i].size - size, false⟩

/-- If `malloc` splits a record for this request, the next record is vacant. -/
def SplitsIntoVacant (blocks : Blocks) (size : Int) : Prop :=
  ∀ i, FirstFit blocks size i → size < blocks[i].size →
    ∀ hi : i.val + 1 < 1024, blocks[i.val + 1].size = 0

/-! ## `malloc` -/

section malloc

variable {heap : Heap} {size : Int} {blocks : Blocks}

theorem mallocLoop_skip {i : Nat} (hi : i < 1024) (hfits : ¬ Fits size blocks[i])
    (rest : List Nat) :
    mallocLoop heap size blocks (i :: rest) = mallocLoop heap size blocks rest := by
  rw [mallocLoop, readBlock_eq _ hi, Exec.ok_bind]
  by_cases hused : blocks[i].used = false
  · have hlt : ¬ size ≤ blocks[i].size := fun hle => hfits ⟨hused, hle⟩
    rw [if_pos hused, if_neg (by omega), if_neg (by omega)]
  · rw [if_neg hused]

theorem mallocLoop_append (l rest : List Nat)
    (hl : ∀ i ∈ l, ∃ hi : i < 1024, ¬ Fits size blocks[i]) :
    mallocLoop heap size blocks (l ++ rest) = mallocLoop heap size blocks rest := by
  induction l with
  | nil => rfl
  | cons i l ih =>
    obtain ⟨hi, hfits⟩ := hl i (by simp)
    rw [List.cons_append, mallocLoop_skip hi hfits]
    exact ih fun j hj => hl j (by simp [hj])

theorem malloc_of_none (hnone : ∀ i : Fin 1024, ¬ Fits size blocks[i]) :
    malloc heap size blocks = .ok (0, blocks) := by
  have hall : ∀ i ∈ List.range 1024, ∃ hi : i < 1024, ¬ Fits size blocks[i] :=
    fun i hi => ⟨List.mem_range.mp hi, hnone ⟨i, List.mem_range.mp hi⟩⟩
  rw [malloc, ← List.append_nil (List.range 1024), mallocLoop_append _ _ hall]
  rfl

theorem malloc_of_first (heap : Heap) {i : Fin 1024} (hi : FirstFit blocks size i) :
    ∃ rest, malloc heap size blocks = mallocLoop heap size blocks (i.val :: rest) := by
  have hrange : List.range 1024 = List.range i ++ i.val :: List.range' (i + 1) (1023 - i) := by
    have hlen : 1023 - i.val + 1 = 1024 - i.val := by omega
    rw [← List.range'_succ, hlen, List.range_eq_range', List.range_eq_range']
    have happend : List.range' 0 i.val ++ List.range' (0 + 1 * i.val) (1024 - i.val) =
        List.range' 0 (i.val + (1024 - i.val)) := List.range'_append
    rw [Nat.one_mul, Nat.zero_add, Nat.add_sub_cancel' (by omega)] at happend
    exact happend.symm
  refine ⟨List.range' (i + 1) (1023 - i), ?_⟩
  rw [malloc, hrange, mallocLoop_append]
  intro j hj
  have hlt : j < i.val := List.mem_range.mp hj
  exact ⟨by omega, hi.first ⟨j, by omega⟩ hlt⟩

theorem malloc_take {i : Fin 1024} (hi : FirstFit blocks size i) (hsize : blocks[i].size = size) :
    malloc heap size blocks = .ok (heap.pointer blocks[i].start, take blocks i) := by
  obtain ⟨rest, hrest⟩ := malloc_of_first heap hi
  rw [hrest, mallocLoop, readBlock_eq _ i.isLt, Exec.ok_bind]
  have hused := hi.fits.1
  simp only [Fin.getElem_fin] at hused hsize ⊢
  rw [if_pos hused, if_pos hsize, writeBlock_eq _ i.isLt]
  rfl

theorem malloc_split {i : Fin 1024} (hi : FirstFit blocks size i) (hsize : size < blocks[i].size)
    (hnext : i.val + 1 < 1024)
    (hremainder : -2 ^ 31 ≤ blocks[i].size - size ∧ blocks[i].size - size < 2 ^ 31)
    (hstart : -2 ^ 31 ≤ blocks[i].start + size ∧ blocks[i].start + size < 2 ^ 31) :
    malloc heap size blocks =
      .ok (heap.pointer blocks[i].start, splitAt blocks i hnext size) := by
  obtain ⟨rest, hrest⟩ := malloc_of_first heap hi
  rw [hrest, mallocLoop, readBlock_eq _ i.isLt, Exec.ok_bind]
  have hused := hi.fits.1
  simp only [Fin.getElem_fin] at hused hsize hremainder hstart ⊢
  rw [if_pos hused, if_neg (by omega), if_pos hsize, Exec.int_eq hremainder.1 hremainder.2,
    Exec.ok_bind, writeBlock_eq _ i.isLt, Exec.ok_bind, Exec.int_eq hstart.1 hstart.2,
    Exec.ok_bind, writeBlock_eq _ hnext]
  rfl

theorem malloc_split_of_ok {i : Fin 1024} (hi : FirstFit blocks size i)
    (hsize : size < blocks[i].size) {p : UInt64} {blocks' : Blocks}
    (h : malloc heap size blocks = .ok (p, blocks')) :
    ∃ hnext : i.val + 1 < 1024,
      p = heap.pointer blocks[i].start ∧ blocks' = splitAt blocks i hnext size := by
  obtain ⟨rest, hrest⟩ := malloc_of_first heap hi
  rw [hrest, mallocLoop, readBlock_eq _ i.isLt, Exec.ok_bind] at h
  have hused := hi.fits.1
  simp only [Fin.getElem_fin] at hused hsize h ⊢
  rw [if_pos hused, if_neg (by omega), if_pos hsize, Exec.bind_eq_ok] at h
  obtain ⟨remainder, hremainder, h⟩ := h
  obtain rfl := Exec.int_eq_ok hremainder
  rw [writeBlock_eq _ i.isLt, Exec.ok_bind, Exec.bind_eq_ok] at h
  obtain ⟨start, hstart, h⟩ := h
  obtain rfl := Exec.int_eq_ok hstart
  by_cases hnext : i.val + 1 < 1024
  · rw [writeBlock_eq _ hnext] at h
    cases h
    exact ⟨hnext, rfl, rfl⟩
  · rw [writeBlock, dif_neg hnext] at h
    cases h

/-- What a `malloc` that ends can have done, whatever it was asked for. -/
inductive Served (heap : Heap) (blocks : Blocks) (size : Int) : UInt64 → Blocks → Prop
  | full (hnone : ∀ i : Fin 1024, ¬ Fits size blocks[i]) : Served heap blocks size 0 blocks
  | take (i : Fin 1024) (hi : FirstFit blocks size i) (hsize : blocks[i].size = size) :
      Served heap blocks size (heap.pointer blocks[i].start) (take blocks i)
  | split (i : Fin 1024) (hi : FirstFit blocks size i) (hsize : size < blocks[i].size)
      (hnext : i.val + 1 < 1024) :
      Served heap blocks size (heap.pointer blocks[i].start) (splitAt blocks i hnext size)

/-- No record fits, or the first that does fits exactly or has room to spare. -/
theorem firstFit_cases (blocks : Blocks) (size : Int) :
    (∀ i : Fin 1024, ¬ Fits size blocks[i]) ∨
      ∃ i, FirstFit blocks size i ∧ (blocks[i].size = size ∨ size < blocks[i].size) := by
  by_cases hfits : ∃ i : Fin 1024, Fits size blocks[i]
  · obtain ⟨j, hj⟩ := hfits
    obtain ⟨i, hi⟩ := exists_firstFit hj
    have hle : size ≤ blocks[i].size := hi.fits.2
    exact .inr ⟨i, hi, hle.eq_or_lt.imp_left Eq.symm⟩
  · exact .inl fun i hi => hfits ⟨i, hi⟩

theorem malloc_served {p : UInt64} {blocks' : Blocks}
    (h : malloc heap size blocks = .ok (p, blocks')) : Served heap blocks size p blocks' := by
  rcases firstFit_cases blocks size with hnone | ⟨i, hi, heq | hlt⟩
  · rw [malloc_of_none hnone] at h
    cases h
    exact .full hnone
  · rw [malloc_take hi heq] at h
    cases h
    exact .take i hi heq
  · obtain ⟨hnext, rfl, rfl⟩ := malloc_split_of_ok hi hlt h
    exact .split i hi hlt hnext

end malloc

/-! ## What the records own -/

/-- The offsets that a record owns. -/
def cells (blocks : Blocks) (i : Fin 1024) : Set Int :=
  Set.Ico blocks[i].start (blocks[i].start + blocks[i].size)

section tables

variable {blocks : Blocks} {i j : Fin 1024}

theorem get_eq (blocks : Blocks) (i : Fin 1024) : blocks.get i = blocks[i] := rfl

theorem take_self : (take blocks i)[i] = ⟨blocks[i].start, blocks[i].size, true⟩ := by
  simp [take]

theorem take_of_ne (h : j ≠ i) : (take blocks i)[j] = blocks[j] := by
  have hne : i.val ≠ j.val := fun he => h (Fin.ext he.symm)
  simp [take, hne]

theorem splitAt_left {hi : i.val + 1 < 1024} {size : Int} :
    (splitAt blocks i hi size)[i] = ⟨blocks[i].start, size, true⟩ := by
  simp [splitAt]

theorem splitAt_right {hi : i.val + 1 < 1024} {size : Int} (hj : j.val = i.val + 1) :
    (splitAt blocks i hi size)[j] =
      ⟨blocks[i].start + size, blocks[i].size - size, false⟩ := by
  simp [splitAt, hj]

theorem splitAt_of_ne {hi : i.val + 1 < 1024} {size : Int} (hji : j ≠ i)
    (hj : j.val ≠ i.val + 1) : (splitAt blocks i hi size)[j] = blocks[j] := by
  have hne : i.val ≠ j.val := fun he => hji (Fin.ext he.symm)
  simp [splitAt, hne, Ne.symm hj]

/-- Where a split leaves its records. -/
theorem splitAt_cases (hi : i.val + 1 < 1024) (size : Int) (j : Fin 1024) :
    (j = i ∧ (splitAt blocks i hi size)[j] = ⟨blocks[i].start, size, true⟩) ∨
      (j.val = i.val + 1 ∧ (splitAt blocks i hi size)[j] =
        ⟨blocks[i].start + size, blocks[i].size - size, false⟩) ∨
      (j ≠ i ∧ j.val ≠ i.val + 1 ∧ (splitAt blocks i hi size)[j] = blocks[j]) := by
  by_cases hj : j.val = i.val + 1
  · exact Or.inr (Or.inl ⟨hj, splitAt_right hj⟩)
  by_cases hji : j = i
  · subst hji
    exact Or.inl ⟨rfl, splitAt_left⟩
  · exact Or.inr (Or.inr ⟨hji, hj, splitAt_of_ne hji hj⟩)

theorem free_getElem (heap : Heap) (p : UInt64) :
    (free heap p blocks)[j] =
      if blocks[j].start = heap.offset p then { blocks[j] with used := false } else blocks[j] := by
  simp [free]

theorem booted_getElem (i : Fin 1024) :
    booted[i] = if i.val = 0 then ⟨0, heapSize, false⟩ else ⟨0, 0, false⟩ := by
  by_cases hi : i.val = 0
  · simp [booted, heapInit, hi]
  · simp [booted, heapInit, hi, Ne.symm hi]

theorem mem_cells {o : Int} :
    o ∈ cells blocks i ↔
      0 < blocks[i].size ∧ blocks[i].start ≤ o ∧ o < blocks[i].start + blocks[i].size := by
  constructor
  · rintro ⟨hlo, hhi⟩
    exact ⟨by omega, hlo, hhi⟩
  · rintro ⟨-, hlo, hhi⟩
    exact ⟨hlo, hhi⟩

theorem cells_take : cells (take blocks i) = cells blocks := by
  funext j
  unfold cells
  by_cases h : j = i
  · subst h
    rw [take_self]
  · rw [take_of_ne h]

theorem cells_free (heap : Heap) (p : UInt64) : cells (free heap p blocks) = cells blocks := by
  funext j
  unfold cells
  rw [free_getElem]
  by_cases h : blocks[j].start = heap.offset p
  · rw [if_pos h]
  · rw [if_neg h]

/-- `malloc` splits the cell of the record and drops what its successor owned. -/
theorem cells_splitAt {hi : i.val + 1 < 1024} {size : Int} :
    cells (splitAt blocks i hi size) =
      Cells.split (cells blocks) i ⟨i.val + 1, hi⟩
        (Set.Ico blocks[i].start (blocks[i].start + size))
        (Set.Ico (blocks[i].start + size) (blocks[i].start + blocks[i].size)) := by
  have hne : i ≠ ⟨i.val + 1, hi⟩ := fun he => by
    have := congrArg Fin.val he
    simp at this
  funext j
  by_cases hj : j.val = i.val + 1
  · obtain rfl : j = ⟨i.val + 1, hi⟩ := Fin.ext hj
    rw [Cells.split_right, cells, splitAt_right rfl]
    congr 1
    show blocks[i].start + size + (blocks[i].size - size) = blocks[i].start + blocks[i].size
    omega
  by_cases hji : j = i
  · subst hji
    rw [Cells.split_left hne, cells, splitAt_left]
  · rw [Cells.split_of_ne hji (fun he => hj (congrArg Fin.val he)), cells, splitAt_of_ne hji hj,
      cells]

end tables

/-! ## Calls and events -/

inductive Call
  | malloc (size : Int)
  | free (p : UInt64)
  deriving DecidableEq, Repr

/-- A call with what it returned. -/
inductive Event
  | malloc (size : Int) (p : UInt64)
  | free (p : UInt64)
  deriving DecidableEq, Repr

def step (heap : Heap) (blocks : Blocks) : Call → Exec (Event × Blocks)
  | .malloc size => do
    let (p, blocks) ← malloc heap size blocks
    return (.malloc size p, blocks)
  | .free p => .ok (.free p, free heap p blocks)

/-- The sizes asked for are positive. -/
def Positive (h : List Event) : Prop := ∀ size p, Event.malloc size p ∈ h → 1 ≤ size

/-- The live allocations after one more event. -/
def track (live : List (UInt64 × Int)) : Event → List (UInt64 × Int)
  | .malloc size p => if p = 0 then live else live ++ [(p, size)]
  | .free p => live.filter fun a => a.1 ≠ p

/-- The pointers that `malloc` returned and nobody has passed to `free` since, with their sizes. -/
def live (h : List Event) : List (UInt64 × Int) := h.foldl track []

@[simp] theorem live_nil : live [] = [] := rfl

@[simp] theorem live_snoc (h : List Event) (o : Event) : live (h ++ [o]) = track (live h) o := by
  simp [live]

theorem Positive.init {h : List Event} {o : Event} (hpos : Positive (h ++ [o])) : Positive h :=
  fun size p hmem => hpos size p (List.mem_append_left _ hmem)

/-! ## Well-formed tables -/

/-- What positive requests keep: the intervals of the records are disjoint and inside the heap, and
record `i` starts at `i` or later. -/
structure WellFormed (blocks : Blocks) : Prop where
  size_nonneg : ∀ i : Fin 1024, 0 ≤ blocks[i].size
  index_le : ∀ i : Fin 1024, 0 < blocks[i].size → (i.val : Int) ≤ blocks[i].start
  end_le : ∀ i : Fin 1024, 0 < blocks[i].size → blocks[i].start + blocks[i].size ≤ heapSize
  apart : Pairwise (Function.onFun Disjoint (cells blocks))

/-- What a well-formed table says about one record. -/
structure Bounded (i : Fin 1024) (b : Block) : Prop where
  size_nonneg : 0 ≤ b.size
  index_le : 0 < b.size → (i.val : Int) ≤ b.start
  end_le : 0 < b.size → b.start + b.size ≤ heapSize

theorem Bounded.used {i : Fin 1024} {b : Block} (hb : Bounded i b) (used : Bool) :
    Bounded i { b with used := used } :=
  ⟨hb.size_nonneg, hb.index_le, hb.end_le⟩

theorem WellFormed.bounded {blocks : Blocks} (hw : WellFormed blocks) (i : Fin 1024) :
    Bounded i blocks[i] :=
  ⟨hw.size_nonneg i, hw.index_le i, hw.end_le i⟩

theorem WellFormed.of_bounded {blocks : Blocks} (hb : ∀ i : Fin 1024, Bounded i blocks[i])
    (hapart : Pairwise (Function.onFun Disjoint (cells blocks))) : WellFormed blocks :=
  ⟨fun i => (hb i).size_nonneg, fun i => (hb i).index_le, fun i => (hb i).end_le, hapart⟩

theorem WellFormed.next {blocks : Blocks} (hw : WellFormed blocks) {i : Fin 1024} {size : Int}
    (hpos : 1 ≤ size) (hsize : size < blocks[i].size) : i.val + 1 < 1024 := by
  have hindex := hw.index_le i (by omega)
  have hend := hw.end_le i (by omega)
  rw [heapSize] at hend
  omega

/-- What a call with a positive size can do. -/
inductive Step (heap : Heap) (blocks : Blocks) : Event → Blocks → Prop
  | full {size : Int} (hpos : 1 ≤ size) (hnone : ∀ i : Fin 1024, ¬ Fits size blocks[i]) :
      Step heap blocks (.malloc size 0) blocks
  | take {size : Int} (hpos : 1 ≤ size) (i : Fin 1024) (hi : FirstFit blocks size i)
      (hsize : blocks[i].size = size) :
      Step heap blocks (.malloc size (heap.pointer blocks[i].start)) (take blocks i)
  | split {size : Int} (hpos : 1 ≤ size) (i : Fin 1024) (hi : FirstFit blocks size i)
      (hsize : size < blocks[i].size) (hnext : i.val + 1 < 1024) :
      Step heap blocks (.malloc size (heap.pointer blocks[i].start)) (splitAt blocks i hnext size)
  | free (p : UInt64) : Step heap blocks (.free p) (free heap p blocks)

theorem WellFormed.malloc_split {blocks : Blocks} (heap : Heap) (hw : WellFormed blocks) {size : Int}
    (hpos : 1 ≤ size) {i : Fin 1024} (hi : FirstFit blocks size i) (hsize : size < blocks[i].size) :
    malloc heap size blocks =
      .ok (heap.pointer blocks[i].start, splitAt blocks i (hw.next hpos hsize) size) := by
  have hindex := hw.index_le i (by omega)
  have hend := hw.end_le i (by omega)
  rw [heapSize] at hend
  exact Zmm.malloc_split hi hsize (hw.next hpos hsize) (by omega) (by omega)

theorem malloc_spec {blocks : Blocks} (heap : Heap) (hw : WellFormed blocks) {size : Int}
    (hpos : 1 ≤ size) :
    ∃ p blocks', malloc heap size blocks = .ok (p, blocks') ∧
      Step heap blocks (.malloc size p) blocks' := by
  rcases firstFit_cases blocks size with hnone | ⟨i, hi, heq | hlt⟩
  · exact ⟨_, _, malloc_of_none hnone, .full hpos hnone⟩
  · exact ⟨_, _, malloc_take hi heq, .take hpos i hi heq⟩
  · exact ⟨_, _, hw.malloc_split heap hpos hi hlt, .split hpos i hi hlt (hw.next hpos hlt)⟩

theorem WellFormed.step_split {blocks : Blocks} (heap : Heap) (hw : WellFormed blocks) (size : Int)
    (hpos : 1 ≤ size) {i : Fin 1024} (hi : FirstFit blocks size i) (hsize : size < blocks[i].size) :
    step heap blocks (.malloc size) =
      .ok (.malloc size (heap.pointer blocks[i].start),
        splitAt blocks i (hw.next hpos hsize) size) := by
  rw [step, hw.malloc_split heap hpos hi hsize]
  rfl

theorem step_cases {heap : Heap} {blocks blocks' : Blocks} {c : Call} {o : Event}
    (hw : WellFormed blocks) (h : step heap blocks c = .ok (o, blocks'))
    (hpos : ∀ size p, o = .malloc size p → 1 ≤ size) : Step heap blocks o blocks' := by
  cases c with
  | malloc size =>
    rw [step, Exec.bind_eq_ok] at h
    obtain ⟨⟨p, blocks₁⟩, hmalloc, h⟩ := h
    cases h
    obtain ⟨p', blocks₂, hmalloc', hstep⟩ := malloc_spec heap hw (hpos size p rfl)
    rw [hmalloc] at hmalloc'
    cases hmalloc'
    exact hstep
  | free p =>
    rw [step] at h
    cases h
    exact .free p

/-! ## Allocations in the table -/

/-- The allocation is the interval of a used record. -/
def Recorded (heap : Heap) (blocks : Blocks) (a : UInt64 × Int) : Prop :=
  ∃ i : Fin 1024, blocks[i] = ⟨heap.offset a.1, a.2, true⟩

/-- No byte of the heap is lost: the records with a positive size partition it, each live allocation
is exactly one used record, and after freeing it a request of its size succeeds. -/
structure Conserved (heap : Heap) (h : List Event) (blocks : Blocks) : Prop where
  inside : ∀ i : Fin 1024, 0 < blocks[i].size →
    0 ≤ blocks[i].start ∧ blocks[i].start + blocks[i].size ≤ heapSize
  partition : ∀ o, 0 ≤ o → o < heapSize → ∃! i : Fin 1024,
    0 < blocks[i].size ∧ blocks[i].start ≤ o ∧ o < blocks[i].start + blocks[i].size
  recorded : ∀ a ∈ live h, ∃! i : Fin 1024, blocks[i] = ⟨heap.offset a.1, a.2, true⟩
  reusable : ∀ a ∈ live h, ∃ p blocks',
    malloc heap a.2 (free heap a.1 blocks) = .ok (p, blocks') ∧ p ≠ 0

end EyaX.Zmm
