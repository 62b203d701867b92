import EyaX.Lib.Run
import Mathlib.Data.List.Basic

/-!
# Transducers

A transducer reads its input from left to right; every symbol changes its state and puts out a list
of symbols. Two transducers in a row are one, whose state is the pair of their states. A machine
refines a transducer when each of its steps does to a part of its state, its view, what the output
of the transducer's step says; a whole input then does what the whole output says. A machine whose
steps can get stuck serves a transducer when it never gets stuck and leaves the events that the
transducer puts out. Nothing here depends on what the states and the symbols are.
-/

/-- The state `σ`, the input symbols `ι` and the output symbols `ω`. -/
structure Transducer (σ ι ω : Type) where
  next : σ → ι → σ
  out : σ → ι → List ω

namespace Transducer

variable {σ τ θ ι ω ο : Type} (T : Transducer σ ι ω) (U : Transducer τ ω ο)

/-- The state after an input. -/
def after (s : σ) (l : List ι) : σ := l.foldl T.next s

/-- All that is put out on an input. -/
def output : σ → List ι → List ω
  | _, [] => []
  | s, i :: l => T.out s i ++ output (T.next s i) l

@[simp] theorem after_nil (s : σ) : T.after s [] = s := rfl

@[simp] theorem after_cons (s : σ) (i : ι) (l : List ι) :
    T.after s (i :: l) = T.after (T.next s i) l := rfl

@[simp] theorem output_nil (s : σ) : T.output s [] = [] := rfl

@[simp] theorem output_cons (s : σ) (i : ι) (l : List ι) :
    T.output s (i :: l) = T.out s i ++ T.output (T.next s i) l := rfl

theorem after_append (s : σ) (l l' : List ι) :
    T.after s (l ++ l') = T.after (T.after s l) l' := List.foldl_append

theorem output_append (l l' : List ι) :
    ∀ s, T.output s (l ++ l') = T.output s l ++ T.output (T.after s l) l' := by
  induction l with
  | nil => exact fun s => rfl
  | cons i l ih =>
    intro s
    simp [ih]

/-! ## Composition -/

/-- What `T` puts out is the input of `U`. -/
def comp : Transducer (σ × τ) ι ο where
  next s i := (T.next s.1 i, U.after s.2 (T.out s.1 i))
  out s i := U.output s.2 (T.out s.1 i)

theorem comp_after (l : List ι) :
    ∀ s t, (T.comp U).after (s, t) l = (T.after s l, U.after t (T.output s l)) := by
  induction l with
  | nil => exact fun s t => rfl
  | cons i l ih =>
    intro s t
    rw [output_cons, after_append]
    exact ih _ _

theorem comp_output (l : List ι) :
    ∀ s t, (T.comp U).output (s, t) l = U.output t (T.output s l) := by
  induction l with
  | nil => exact fun s t => rfl
  | cons i l ih =>
    intro s t
    rw [output_cons, output_cons, output_append]
    exact congrArg _ (ih _ _)

/-! ## Refinement -/

/-- Each step of the machine keeps the relation to the transducer and does to the view what the
transducer puts out. -/
structure Refines (step : τ → ι → τ) (view : τ → θ) (effect : θ → ω → θ) (R : τ → σ → Prop) :
    Prop where
  related : ∀ {t s} i, R t s → R (step t i) (T.next s i)
  view_eq : ∀ {t s} i, R t s → view (step t i) = (T.out s i).foldl effect (view t)

variable {T}

theorem Refines.run {step : τ → ι → τ} {view : τ → θ} {effect : θ → ω → θ} {R : τ → σ → Prop}
    (h : T.Refines step view effect R) (l : List ι) :
    ∀ {t s}, R t s → R (l.foldl step t) (T.after s l) ∧
      view (l.foldl step t) = (T.output s l).foldl effect (view t) := by
  induction l with
  | nil => exact fun hR => ⟨hR, rfl⟩
  | cons i l ih =>
    intro t s hR
    obtain ⟨hlast, hview⟩ := ih (h.related i hR)
    refine ⟨hlast, ?_⟩
    rw [output_cons, List.foldl_append, ← h.view_eq i hR]
    exact hview

/-! ## Serving -/

/-- In related states no call gets stuck, each leaves the one event that the transducer puts out,
and the states stay related. -/
def Serves {ε : Type} (T : Transducer σ ι ω) (step : τ → ι → Except ε (ω × τ)) (R : τ → σ → Prop) :
    Prop :=
  ∀ {t s} i, R t s → ∃ o t', step t i = .ok (o, t') ∧ T.out s i = [o] ∧ R t' (T.next s i)

section serves

variable {ε : Type} {step : τ → ι → Except ε (ω × τ)} {R : τ → σ → Prop} (h : T.Serves step R)

include h

/-- Every sequence of calls has a run, and its history is the transducer's output. -/
theorem Serves.run (l : List ι) :
    ∀ {t s}, R t s → ∃ t', Fallible.Run step t (T.output s l) t' ∧ R t' (T.after s l) := by
  induction l with
  | nil => exact fun hR => ⟨_, .nil, hR⟩
  | cons i l ih =>
    intro t s hR
    obtain ⟨o, t₁, hstep, hout, hR₁⟩ := h i hR
    obtain ⟨t', hrun, hlast⟩ := ih hR₁
    refine ⟨t', ?_, hlast⟩
    rw [output_cons, hout]
    exact (Fallible.Run.single hstep).append hrun

/-- Every run is one of a sequence of calls. -/
theorem Serves.of_run {t t' : τ} {s : σ} {history : List ω} (hrun : Fallible.Run step t history t')
    (hR : R t s) : ∃ l, history = T.output s l ∧ R t' (T.after s l) := by
  induction hrun with
  | nil => exact ⟨[], rfl, hR⟩
  | @snoc _ _ _ i _ _ hstep ih =>
    obtain ⟨l, hhistory, hlast⟩ := ih
    obtain ⟨o, t₂, hstep', hout, hR'⟩ := h i hlast
    rw [hstep] at hstep'
    cases hstep'
    refine ⟨l ++ [i], ?_, ?_⟩
    · rw [output_append, output_cons, output_nil, hout, hhistory]
      rfl
    · rw [after_append]
      exact hR'

end serves

end Transducer
