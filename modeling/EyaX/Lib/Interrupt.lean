import Mathlib.Data.List.Basic

/-!
# Code that interrupts may come between

Code over a state is a tree of atoms: an atom reads the state, changes it and goes on with code that
may depend on what it read. `Code.run` executes it undisturbed. `Steps` executes a part of it with
interrupts, each running its handler to the end between two atoms; a handler has state of its own
that the code does not see. Handlers that leave the shared state alone are invisible: the code ends
as if it had run undisturbed. Nothing here depends on what the states are.
-/

namespace Interrupt

/-- Code over `σ` with the result `α`. The rest of an atom sees the state before its change. -/
inductive Code (ε σ α : Type)
  | ret (a : α)
  | stop (e : ε)
  | atom (f : σ → σ) (k : σ → Code ε σ α)

namespace Code

variable {ε σ τ α β : Type}

def bind : Code ε σ α → (α → Code ε σ β) → Code ε σ β
  | ret a, g => g a
  | stop e, _ => stop e
  | atom f k, g => atom f fun s => (k s).bind g

instance : Monad (Code ε σ) where
  pure := ret
  bind := bind

theorem bind_ret (c : Code ε σ α) : c.bind ret = c := by
  induction c with
  | ret a => rfl
  | stop e => rfl
  | atom f k ih => exact congrArg (atom f) (funext ih)

theorem bind_bind {γ : Type} (c : Code ε σ α) (g : α → Code ε σ β) (h : β → Code ε σ γ) :
    (c.bind g).bind h = c.bind fun a => (g a).bind h := by
  induction c with
  | ret a => rfl
  | stop e => rfl
  | atom f k ih => exact congrArg (atom f) (funext ih)

instance : LawfulMonad (Code ε σ) := LawfulMonad.mk' (Code ε σ) bind_ret (fun _ _ => rfl) bind_bind

/-- Read the state. -/
def get : Code ε σ σ := atom id ret

/-- Change the state. -/
def modify (f : σ → σ) : Code ε σ Unit := atom f fun _ => ret ()

/-- A computation that touches no state. -/
def ofExcept : Except ε α → Code ε σ α
  | .ok a => ret a
  | .error e => stop e

/-- Undisturbed execution. -/
def run : Code ε σ α → σ → Except ε (α × σ)
  | ret a, s => .ok (a, s)
  | stop e, _ => .error e
  | atom f k, s => (k s).run (f s)

/-- The state in which undisturbed execution ends, with a result or without. -/
def last : Code ε σ α → σ → σ
  | ret _, s => s
  | stop _, s => s
  | atom f k, s => (k s).last (f s)

/-- Code over a part of the state. -/
def zoom (part : τ → σ) (set : σ → τ → τ) : Code ε σ α → Code ε τ α
  | ret a => ret a
  | stop e => stop e
  | atom f k => atom (fun t => set (f (part t)) t) fun t => (k (part t)).zoom part set

/-! ## Execution -/

@[simp] theorem run_pure (a : α) (s : σ) : (pure a : Code ε σ α).run s = .ok (a, s) := rfl

@[simp] theorem run_modify (f : σ → σ) (s : σ) :
    (modify f : Code ε σ Unit).run s = .ok ((), f s) := rfl

-- As terms: `simp` would leave the two sides of a `rfl` lemma to the kernel, which runs the code.
theorem pure_bind_eq (a : α) (g : α → Code ε σ β) : (pure a >>= g) = g a := (rfl)

@[simp] theorem ofExcept_ok (a : α) : (ofExcept (.ok a) : Code ε σ α) = pure a := (rfl)

theorem run_bind {c : Code ε σ α} {g : α → Code ε σ β} {s s' : σ} {a : α}
    (h : c.run s = .ok (a, s')) : (c >>= g).run s = (g a).run s' := by
  show (c.bind g).run s = (g a).run s'
  induction c generalizing s with
  | ret b =>
    cases h
    rfl
  | stop e => cases h
  | atom f k ih => exact ih s h

@[simp] theorem run_get_bind (g : σ → Code ε σ β) (s : σ) : (get >>= g).run s = (g s).run s := rfl

@[simp] theorem run_modify_bind (f : σ → σ) (g : Unit → Code ε σ β) (s : σ) :
    (modify f >>= g).run s = (g ()).run (f s) := rfl

theorem run_forM {body : β → Code ε σ Unit} {g : σ → β → σ}
    (hbody : ∀ b s, (body b).run s = .ok ((), g s b)) (l : List β) :
    ∀ s, (l.forM body).run s = .ok ((), l.foldl g s) := by
  induction l with
  | nil => exact fun s => rfl
  | cons b l ih =>
    intro s
    show (body b >>= fun _ => l.forM body).run s = .ok ((), l.foldl g (g s b))
    rw [run_bind (hbody b s)]
    exact ih (g s b)

theorem run_zoom {part : τ → σ} {set : σ → τ → τ} (hpart : ∀ s t, part (set s t) = s)
    (hset : ∀ s s' t, set s (set s' t) = set s t) (hself : ∀ t, set (part t) t = t)
    (c : Code ε σ α) : ∀ t a s, c.run (part t) = .ok (a, s) →
      (c.zoom part set).run t = .ok (a, set s t) := by
  induction c with
  | ret b =>
    intro t a s h
    cases h
    rw [hself]
    rfl
  | stop e =>
    intro t a s h
    cases h
  | atom f k ih =>
    intro t a s h
    have h' : (k (part t)).run (part (set (f (part t)) t)) = .ok (a, s) := by
      rw [hpart]
      exact h
    have hrest := ih (part t) (set (f (part t)) t) a s h'
    rw [hset] at hrest
    exact hrest

/-! ## Code that stops -/

/-- Undisturbed execution of `c` from `s` stops with `e` in the state `s'`. -/
def Stops (c : Code ε σ α) (e : ε) (s s' : σ) : Prop := c.run s = .error e ∧ c.last s = s'

theorem stops_stop (e : ε) (s : σ) : (stop e : Code ε σ α).Stops e s s := ⟨rfl, rfl⟩

theorem Stops.bind {c : Code ε σ α} {e : ε} {s s' : σ} (h : c.Stops e s s') (g : α → Code ε σ β) :
    (c >>= g).Stops e s s' := by
  show (c.bind g).Stops e s s'
  induction c generalizing s with
  | ret b => cases h.1
  | stop e' =>
    obtain ⟨hrun, hlast⟩ := h
    cases hrun
    exact ⟨rfl, hlast⟩
  | atom f k ih => exact ih s h

theorem Stops.after {c : Code ε σ α} {g : α → Code ε σ β} {e : ε} {s s₁ s' : σ} {a : α}
    (h : (g a).Stops e s₁ s') (hc : c.run s = .ok (a, s₁)) : (c >>= g).Stops e s s' := by
  show (c.bind g).Stops e s s'
  induction c generalizing s with
  | ret b =>
    cases hc
    exact h
  | stop e' => cases hc
  | atom f k ih => exact ih s hc

theorem Stops.zoom {part : τ → σ} {set : σ → τ → τ} (hpart : ∀ s t, part (set s t) = s)
    (hset : ∀ s s' t, set s (set s' t) = set s t) (hself : ∀ t, set (part t) t = t)
    {c : Code ε σ α} {e : ε} {s' : σ} :
    ∀ {t}, c.Stops e (part t) s' → (c.zoom part set).Stops e t (set s' t) := by
  induction c with
  | ret b => exact fun h => absurd h.1 (by simp [run])
  | stop e' =>
    rintro t ⟨hrun, rfl⟩
    cases hrun
    exact ⟨rfl, (hself t).symm⟩
  | atom f k ih =>
    intro t h
    have h' : (k (part t)).Stops e (part (set (f (part t)) t)) s' := by
      rw [hpart]
      exact h
    have hrest := ih (part t) h'
    rw [hset] at hrest
    exact hrest

end Code

/-! ## Interrupts -/

variable {ε σ τ ι α : Type}

/-- Execution of a part of some code, with the interrupts that came meanwhile. The handlers work on
the state `σ` of the code and on their own state `τ`. -/
inductive Steps (handler : ι → σ → τ → Except ε (σ × τ)) :
    List ι → Code ε σ α → σ → τ → Code ε σ α → σ → τ → Prop
  | refl {c : Code ε σ α} {s : σ} {t : τ} : Steps handler [] c s t c s t
  | atom {l : List ι} {f : σ → σ} {k : σ → Code ε σ α} {s s' : σ} {t t' : τ} {c' : Code ε σ α} :
      Steps handler l (k s) (f s) t c' s' t' → Steps handler l (.atom f k) s t c' s' t'
  | interrupt {i : ι} {l : List ι} {c c' : Code ε σ α} {s s₁ s' : σ} {t t₁ t' : τ} :
      handler i s t = .ok (s₁, t₁) → Steps handler l c s₁ t₁ c' s' t' →
      Steps handler (i :: l) c s t c' s' t'

variable {handler : ι → σ → τ → Except ε (σ × τ)}

theorem Steps.of_run {c : Code ε σ α} {a : α} :
    ∀ {s s' : σ} {t : τ}, c.run s = .ok (a, s') → Steps handler [] c s t (.ret a) s' t := by
  induction c with
  | ret b =>
    intro s s' t h
    cases h
    exact .refl
  | stop e =>
    intro s s' t h
    cases h
  | atom f k ih => exact fun h => .atom (ih _ h)

/-- What every handler keeps of its own state holds after any part of the code. -/
theorem Steps.invariant {J : τ → Prop}
    (hkeep : ∀ i s t s₁ t₁, J t → handler i s t = .ok (s₁, t₁) → J t₁)
    {l : List ι} {c c' : Code ε σ α} {s s' : σ} {t t' : τ}
    (h : Steps handler l c s t c' s' t') (hJ : J t) : J t' := by
  induction h with
  | refl => exact hJ
  | atom _ ih => exact ih hJ
  | interrupt hhandler _ ih => exact ih (hkeep _ _ _ _ _ hJ hhandler)

/-- Every interrupt whose handler ended has what the handlers demand. -/
theorem Steps.demanded {J : τ → Prop} {P : ι → Prop}
    (hkeep : ∀ i s t s₁ t₁, J t → handler i s t = .ok (s₁, t₁) → P i ∧ J t₁)
    {l : List ι} {c c' : Code ε σ α} {s s' : σ} {t t' : τ}
    (h : Steps handler l c s t c' s' t') (hJ : J t) : ∀ i ∈ l, P i := by
  induction h with
  | refl => exact fun i hi => absurd hi List.not_mem_nil
  | atom _ ih => exact ih hJ
  | interrupt hhandler _ ih =>
    obtain ⟨hi, hJ'⟩ := hkeep _ _ _ _ _ hJ hhandler
    exact List.forall_mem_cons.mpr ⟨hi, ih hJ'⟩

/-- While `Quiet t n` allows `n` more interrupts that leave the code's state alone, the code goes
where it goes undisturbed. -/
theorem Steps.run_eq {Quiet : τ → Nat → Prop}
    (hquiet : ∀ i s t n s₁ t₁, Quiet t (n + 1) → handler i s t = .ok (s₁, t₁) →
      s₁ = s ∧ Quiet t₁ n)
    {l : List ι} {c c' : Code ε σ α} {s s' : σ} {t t' : τ} {n : Nat}
    (h : Steps handler l c s t c' s' t') (hq : Quiet t (l.length + n)) :
    c.run s = c'.run s' ∧ Quiet t' n := by
  induction h with
  | refl => exact ⟨rfl, Nat.zero_add n ▸ hq⟩
  | atom _ ih => exact ih hq
  | @interrupt i l _ _ _ _ _ _ _ _ hhandler _ ih =>
    rw [List.length_cons, Nat.add_right_comm] at hq
    obtain ⟨rfl, hq'⟩ := hquiet _ _ _ _ _ _ hq hhandler
    exact ih hq'

/-- Code under interrupts that `Quiet` allows and that leave its state alone goes where it goes
undisturbed; `Quiet` is about the interrupts still to come. -/
theorem Steps.undisturbed {Quiet : List ι → τ → Prop}
    (hquiet : ∀ i l s t s₁ t₁, Quiet (i :: l) t → handler i s t = .ok (s₁, t₁) →
      s₁ = s ∧ Quiet l t₁)
    {l l' : List ι} {c c' : Code ε σ α} {s s' : σ} {t t' : τ}
    (h : Steps handler l c s t c' s' t') (hq : Quiet (l ++ l') t) :
    c.run s = c'.run s' ∧ Quiet l' t' := by
  induction h with
  | refl => exact ⟨rfl, hq⟩
  | atom _ ih => exact ih hq
  | interrupt hhandler _ ih =>
    obtain ⟨rfl, hq'⟩ := hquiet _ _ _ _ _ _ hq hhandler
    exact ih hq'

end Interrupt
