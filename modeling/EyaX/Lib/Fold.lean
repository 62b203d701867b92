import Mathlib.Data.List.Basic

/-!
# Folds and the states they pass through

A loop without a result is a left fold of its turns. What no turn changes is not changed by the
loop, and `Each P` says that `P` holds of every element in the state its turn begins in. If each
turn writes one cell at most, the loop leaves in a cell what was written there last. A loop whose
turns can fail is a fold in `Except`: it ends if its turns do, and it adds to a set what its turns
add. Nothing here depends on what the states are.
-/

namespace Fold

variable {α σ γ : Type} {f : σ → α → σ}

theorem keep (proj : σ → γ) (hf : ∀ s a, proj (f s a) = proj s) (l : List α) :
    ∀ s, proj (l.foldl f s) = proj s := by
  induction l with
  | nil => exact fun s => rfl
  | cons a l ih => exact fun s => (ih (f s a)).trans (hf s a)

/-- `P` holds of each element of `l` and the state in which its turn begins. -/
def Each (f : σ → α → σ) (P : σ → α → Prop) (s : σ) (l : List α) : Prop :=
  ∀ done a rest, l = done ++ a :: rest → P (done.foldl f s) a

theorem each_nil {P : σ → α → Prop} {s : σ} : Each f P s [] :=
  fun done a rest h => by simp at h

theorem each_cons {P : σ → α → Prop} {s : σ} {a : α} {l : List α} :
    Each f P s (a :: l) ↔ P s a ∧ Each f P (f s a) l := by
  constructor
  · intro h
    refine ⟨h [] a l rfl, fun done b rest hl => ?_⟩
    exact h (a :: done) b rest (by rw [hl]; rfl)
  · rintro ⟨ha, hl⟩ done b rest heq
    cases done with
    | nil =>
      obtain ⟨rfl, -⟩ := List.cons.inj heq
      exact ha
    | cons first done =>
      obtain ⟨rfl, htail⟩ := List.cons.inj heq
      exact hl done b rest htail

theorem each_append {P : σ → α → Prop} {l l' : List α} :
    ∀ {s : σ}, Each f P s (l ++ l') ↔ Each f P s l ∧ Each f P (l.foldl f s) l' := by
  induction l with
  | nil => exact ⟨fun h => ⟨each_nil, h⟩, And.right⟩
  | cons a l ih =>
    intro s
    rw [List.cons_append, each_cons, each_cons, ih, and_assoc]
    rfl

/-! ## Writes -/

section writes

variable {κ β : Type} [DecidableEq κ]

/-- What the last write to a cell put there. -/
def lastWrite (a : κ) : List (κ × β) → Option β
  | [] => none
  | w :: writes => (lastWrite a writes).or (if w.1 = a then some w.2 else none)

/-- If a turn writes one cell at most, a loop leaves in each cell what was written there last. -/
theorem foldl_lastWrite {I : σ → Prop} {write : α → Option (κ × β)} {get : σ → κ → γ}
    {content : β → γ} (hI : ∀ s a, I s → I (f s a))
    (hf : ∀ s a k, I s →
      get (f s a) k = ((lastWrite k (write a).toList).map content).getD (get s k))
    (l : List α) (k : κ) :
    ∀ s, I s →
      get (l.foldl f s) k = ((lastWrite k (l.filterMap write)).map content).getD (get s k) := by
  induction l with
  | nil => exact fun s _ => rfl
  | cons a l ih =>
    intro s hs
    rw [List.foldl_cons, ih _ (hI s a hs), hf s a k hs]
    cases hwrite : write a with
    | none =>
      rw [List.filterMap_cons_none hwrite]
      rfl
    | some w =>
      rw [List.filterMap_cons_some hwrite, lastWrite]
      cases lastWrite k (l.filterMap write) with
      | none => by_cases hk : w.1 = k <;> simp [lastWrite, hk]
      | some b => rfl

end writes

/-! ## Turns that can fail -/

section fallible

variable {ε : Type} {body : σ → α → Except ε σ} {I : σ → Prop}

theorem foldlM_cons_eq_ok {a : α} {l : List α} {s s' : σ} :
    (a :: l).foldlM body s = .ok s' ↔ ∃ s₁, body s a = .ok s₁ ∧ l.foldlM body s₁ = .ok s' := by
  rw [List.foldlM_cons]
  cases body s a with
  | error e => simp [bind, Except.bind]
  | ok s₁ => simp [bind, Except.bind]

theorem foldlM_total {ok : α → Prop}
    (hbody : ∀ s a, I s → ok a → ∃ s', body s a = .ok s' ∧ I s') (l : List α) :
    ∀ s, I s → (∀ a ∈ l, ok a) → ∃ s', l.foldlM body s = .ok s' := by
  induction l with
  | nil => exact fun s _ _ => ⟨s, rfl⟩
  | cons a l ih =>
    intro s hs hl
    obtain ⟨s₁, h₁, hs₁⟩ := hbody s a hs (hl a List.mem_cons_self)
    obtain ⟨s', h'⟩ := ih s₁ hs₁ fun b hb => hl b (List.mem_cons_of_mem a hb)
    exact ⟨s', foldlM_cons_eq_ok.mpr ⟨s₁, h₁, h'⟩⟩

/-- Each turn adds some elements to the set `mem`, under a condition on its own element. -/
theorem foldlM_adds {P : α → Prop} {mem : σ → γ → Prop} {adds : α → γ → Prop}
    (hbody : ∀ s a s', I s → body s a = .ok s' →
      I s' ∧ P a ∧ ∀ x, mem s' x ↔ adds a x ∨ mem s x) (l : List α) :
    ∀ s s', I s → l.foldlM body s = .ok s' →
      I s' ∧ (∀ a ∈ l, P a) ∧ ∀ x, mem s' x ↔ (∃ a ∈ l, adds a x) ∨ mem s x := by
  induction l with
  | nil =>
    intro s s' hs h
    obtain rfl : s = s' := Except.ok.inj h
    exact ⟨hs, by simp, by simp⟩
  | cons a l ih =>
    intro s s' hs h
    obtain ⟨s₁, h₁, h⟩ := foldlM_cons_eq_ok.mp h
    obtain ⟨hs₁, ha, hmem₁⟩ := hbody s a s₁ hs h₁
    obtain ⟨hs', hl, hmem⟩ := ih s₁ s' hs₁ h
    refine ⟨hs', List.forall_mem_cons.mpr ⟨ha, hl⟩, fun x => ?_⟩
    rw [hmem, hmem₁, or_left_comm, ← or_assoc]
    simp only [List.mem_cons, exists_eq_or_imp]

end fallible

end Fold
