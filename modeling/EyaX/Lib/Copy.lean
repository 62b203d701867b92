import Mathlib.Data.List.Basic
import Mathlib.Logic.Function.Basic

/-!
# Cells copied one after another

A move `(d, s)` writes the content of cell `s` into cell `d`. Where sources and destinations
overlap, a sequence of moves may read a cell that it has written before. It copies what was there at
the beginning as soon as no move reads or writes the destination of an earlier one. A fill writes
the same content everywhere and needs no such care. Nothing here depends on what the cells are.
-/

namespace Copy

variable {κ β : Type} [DecidableEq κ]

def move (m : κ → β) (p : κ × κ) : κ → β := Function.update m p.1 (m p.2)

def moves (l : List (κ × κ)) (m : κ → β) : κ → β := l.foldl move m

/-- No move reads or writes what an earlier move wrote. -/
def InOrder (l : List (κ × κ)) : Prop := l.Pairwise fun p q => p.1 ≠ q.2 ∧ p.1 ≠ q.1

theorem moves_cons (p : κ × κ) (l : List (κ × κ)) (m : κ → β) :
    moves (p :: l) m = moves l (move m p) := rfl

theorem move_of_ne {m : κ → β} {p : κ × κ} {a : κ} (h : p.1 ≠ a) : move m p a = m a :=
  Function.update_of_ne h.symm _ _

theorem moves_of_ne {l : List (κ × κ)} {a : κ} (h : ∀ p ∈ l, p.1 ≠ a) (m : κ → β) :
    moves l m a = m a := by
  induction l generalizing m with
  | nil => rfl
  | cons p l ih =>
    obtain ⟨hp, hl⟩ := List.forall_mem_cons.mp h
    rw [moves_cons, ih hl, move_of_ne hp]

/-- Moves in order give every destination what its source held before the first move. -/
theorem InOrder.moves_eq {l : List (κ × κ)} (h : InOrder l) (m : κ → β) :
    ∀ p ∈ l, moves l m p.1 = m p.2 := by
  induction l generalizing m with
  | nil => exact fun p hp => absurd hp List.not_mem_nil
  | cons q l ih =>
    obtain ⟨hq, hl⟩ := List.pairwise_cons.mp h
    intro p hp
    rw [moves_cons]
    rcases List.mem_cons.mp hp with rfl | hp
    · -- no later move writes this destination again
      rw [moves_of_ne fun r hr => (hq r hr).2.symm]
      exact Function.update_self _ _ _
    · -- the first move has left the source of `p` alone
      rw [ih hl _ p hp, move_of_ne (hq p hp).1]

/-- The same content for every cell of a list. -/
def fill (l : List κ) (b : β) (m : κ → β) : κ → β := l.foldl (fun m a => Function.update m a b) m

theorem fill_apply (l : List κ) (b : β) (m : κ → β) (a : κ) :
    fill l b m a = if a ∈ l then b else m a := by
  induction l generalizing m with
  | nil => rfl
  | cons c l ih =>
    show fill l b (Function.update m c b) a = _
    rw [ih]
    by_cases hl : a ∈ l
    · simp [hl]
    · by_cases hc : a = c
      · simp [hc]
      · simp [hl, hc]

end Copy
