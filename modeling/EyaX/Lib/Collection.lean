import EyaX.Lib.Fold
import Mathlib.Data.Set.Insert

/-!
# Collections that are sets

A collection answers whether an index is in it and takes in and gives up indices one at a time;
outside the indices it has room for, each of these may fail. What it knows lies in cells, and
several indices may share one. It is a set if an update decides about the index that it names,
leaves the answers about all others as they were, and writes no cell but that index's. Then a
sequence of updates leaves the set that the same insertions and removals make in order. Nothing here
depends on how the cells hold the indices.
-/

namespace Collection

inductive Update (ι : Type)
  | set (i : ι)
  | clear (i : ι)

variable {ε σ ι κ β : Type}

def Update.index : Update ι → ι
  | .set i => i
  | .clear i => i

/-- What an update makes of a set. -/
def Update.apply (S : Set ι) : Update ι → Set ι
  | .set i => insert i S
  | .clear i => S \ {i}

/-- The operations of a collection with states `σ`, indices `ι` and cells `κ`. -/
structure Ops (ε σ ι κ β : Type) where
  InRange : ι → Prop
  get : σ → ι → Except ε Bool
  set : σ → ι → Except ε σ
  clear : σ → ι → Except ε σ
  /-- The cell that an index lies in. -/
  cell : σ → ι → κ
  content : σ → κ → β

namespace Ops

variable (ops : Ops ε σ ι κ β)

def update (s : σ) : Update ι → Except ε σ
  | .set i => ops.set s i
  | .clear i => ops.clear s i

/-- The indices that the collection has. -/
def members (s : σ) : Set ι := {i | ops.InRange i ∧ ops.get s i = .ok true}

/-- Only the cell of `i` may differ, and every index lies where it lay. -/
structure OnlyCell (i : ι) (s s' : σ) : Prop where
  content : ∀ k, k ≠ ops.cell s i → ops.content s' k = ops.content s k
  cell : ops.cell s' = ops.cell s

/-- The collection is a set, one operation at a time. -/
structure IsSet : Prop where
  get : ∀ s i, ops.InRange i → ∃ b, ops.get s i = .ok b
  set : ∀ s i, ops.InRange i → ∃ s', ops.set s i = .ok s' ∧ ops.OnlyCell i s s' ∧
    ∀ j, ops.InRange j → (ops.get s' j = .ok true ↔ j = i ∨ ops.get s j = .ok true)
  clear : ∀ s i, ops.InRange i → ∃ s', ops.clear s i = .ok s' ∧ ops.OnlyCell i s s' ∧
    ∀ j, ops.InRange j → (ops.get s' j = .ok true ↔ j ≠ i ∧ ops.get s j = .ok true)

/-- Every sequence of updates leaves the set that they make in order. -/
def Follows : Prop :=
  ∀ (s : σ) (updates : List (Update ι)), (∀ u ∈ updates, ops.InRange u.index) →
    ∃ s', updates.foldlM ops.update s = .ok s' ∧
      ops.members s' = updates.foldl Update.apply (ops.members s)

variable {ops}

theorem IsSet.update (h : ops.IsSet) (s : σ) (u : Update ι) (hu : ops.InRange u.index) :
    ∃ s', ops.update s u = .ok s' ∧ ops.members s' = u.apply (ops.members s) := by
  cases u with
  | set i =>
    obtain ⟨s', hs', -, hget⟩ := h.set s i hu
    refine ⟨s', hs', Set.ext fun j => ?_⟩
    rw [Update.apply, Set.mem_insert_iff]
    constructor
    · rintro ⟨hj, hmem⟩
      exact ((hget j hj).mp hmem).imp_right fun hbefore => ⟨hj, hbefore⟩
    · rintro (rfl | ⟨hj, hmem⟩)
      · exact ⟨hu, (hget j hu).mpr (.inl rfl)⟩
      · exact ⟨hj, (hget j hj).mpr (.inr hmem)⟩
  | clear i =>
    obtain ⟨s', hs', -, hget⟩ := h.clear s i hu
    refine ⟨s', hs', Set.ext fun j => ?_⟩
    rw [Update.apply, Set.mem_sdiff, Set.mem_singleton_iff]
    constructor
    · rintro ⟨hj, hmem⟩
      obtain ⟨hne, hbefore⟩ := (hget j hj).mp hmem
      exact ⟨⟨hj, hbefore⟩, hne⟩
    · rintro ⟨⟨hj, hmem⟩, hne⟩
      exact ⟨hj, (hget j hj).mpr ⟨hne, hmem⟩⟩

theorem IsSet.follows (h : ops.IsSet) : ops.Follows := by
  intro s updates
  induction updates generalizing s with
  | nil => exact fun _ => ⟨s, rfl, rfl⟩
  | cons u updates ih =>
    intro hrange
    obtain ⟨hu, hupdates⟩ := List.forall_mem_cons.mp hrange
    obtain ⟨s₁, h₁, hmem₁⟩ := h.update s u hu
    obtain ⟨s', h', hmem⟩ := ih s₁ hupdates
    refine ⟨s', Fold.foldlM_cons_eq_ok.mpr ⟨s₁, h₁, h'⟩, ?_⟩
    rw [hmem, hmem₁]
    rfl

end Ops

end Collection
