import Mathlib.Data.List.Induction

/-!
# Runs of a machine whose steps can get stuck

A machine is a function `step : σ → ι → Except ε (ω × σ)`: in a state, a call either ends in a new
state and leaves an event, or gets stuck with a reason. A run is the list of the events so far
together with the state reached, so a statement about histories (what an earlier call returned) and
a statement about states are proved by the same induction. Nothing here depends on what the machine
is.
-/

namespace Fallible

variable {σ ι ω ε : Type} (step : σ → ι → Except ε (ω × σ))

/-- The runs from `init`: each call that does not get stuck appends its event. -/
inductive Run (init : σ) : List ω → σ → Prop
  | nil : Run init [] init
  | snoc {h : List ω} {s s' : σ} {i : ι} {o : ω} :
      Run init h s → step s i = .ok (o, s') → Run init (h ++ [o]) s'

/-- `P` holds of every state a run goes through, its first and its last included. -/
def Along (init : σ) (h : List ω) (P : List ω → σ → Prop) : Prop :=
  ∀ h₁ s₁, h₁ <+: h → Run step init h₁ s₁ → P h₁ s₁

variable {step} {init : σ}

/-- What holds at first and is kept by every step holds after every run. -/
theorem Run.invariant {I : List ω → σ → Prop} (hinit : I [] init)
    (hstep : ∀ h s i o s', Run step init h s → I h s → step s i = .ok (o, s') → I (h ++ [o]) s')
    {h : List ω} {s : σ} (hrun : Run step init h s) : I h s := by
  induction hrun with
  | nil => exact hinit
  | snoc hrun hs ih => exact hstep _ _ _ _ _ hrun ih hs

theorem Run.append {h h' : List ω} {s s' : σ} (hrun : Run step init h s) (hrun' : Run step s h' s') :
    Run step init (h ++ h') s' := by
  induction hrun' with
  | nil => simpa using hrun
  | snoc _ hs ih =>
    rw [← List.append_assoc]
    exact ih.snoc hs

theorem Run.single {s s' : σ} {i : ι} {o : ω} (hs : step s i = .ok (o, s')) : Run step s [o] s' :=
  Run.nil.snoc hs

theorem Run.split {h' : List ω} :
    ∀ {h : List ω} {s : σ}, Run step init (h ++ h') s →
      ∃ s₁, Run step init h s₁ ∧ Run step s₁ h' s := by
  induction h' using List.reverseRecOn with
  | nil =>
    intro h s hrun
    exact ⟨s, by simpa using hrun, .nil⟩
  | append_singleton h' o ih =>
    intro h s hrun
    rw [← List.append_assoc] at hrun
    generalize hg : h ++ h' ++ [o] = g at hrun
    cases hrun with
    | nil => simp at hg
    | snoc hrun hs =>
      obtain ⟨rfl, hlast⟩ := List.append_inj' hg rfl
      obtain rfl : o = _ := by simpa using hlast
      obtain ⟨s₁, h₁, h₂⟩ := ih hrun
      exact ⟨s₁, h₁, h₂.snoc hs⟩

/-- Every event of a run was left by a step from a state the run went through. -/
theorem Run.event {h h' : List ω} {o : ω} {s : σ} (hrun : Run step init (h ++ o :: h') s) :
    ∃ s₁ i s₂, Run step init h s₁ ∧ step s₁ i = .ok (o, s₂) ∧ Run step s₂ h' s := by
  rw [List.append_cons] at hrun
  obtain ⟨s₂, hpre, hpost⟩ := hrun.split
  generalize hg : h ++ [o] = g at hpre
  cases hpre with
  | nil => simp at hg
  | snoc hpre hs =>
    obtain ⟨rfl, hlast⟩ := List.append_inj' hg rfl
    obtain rfl : o = _ := by simpa using hlast
    exact ⟨_, _, _, hpre, hs, hpost⟩

/-- When the event of a step names its call, a history has one final state. -/
theorem Run.unique (call : ω → ι) (hcall : ∀ s i o s', step s i = .ok (o, s') → call o = i)
    {h : List ω} {s s' : σ} (hrun : Run step init h s) (hrun' : Run step init h s') : s = s' := by
  induction hrun generalizing s' with
  | nil =>
    generalize hg : ([] : List ω) = g at hrun'
    cases hrun' with
    | nil => rfl
    | snoc => simp at hg
  | @snoc h s s₁ i o _ hs ih =>
    generalize hg : h ++ [o] = g at hrun'
    cases hrun' with
    | nil => simp at hg
    | snoc hrun' hs' =>
      obtain ⟨rfl, hlast⟩ := List.append_inj' hg rfl
      obtain rfl : o = _ := by simpa using hlast
      obtain rfl := ih hrun'
      have hi := (hcall _ _ _ _ hs).symm.trans (hcall _ _ _ _ hs')
      rw [← hi, hs] at hs'
      cases hs'
      rfl

end Fallible
