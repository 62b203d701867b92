import EyaX.Kernel.Gates
import EyaX.Shell.Cursor

/-!
# The shell under timer interrupts

The timer's handler prints only when it makes the tick count 1. Once it has run, and until the count
wraps, it leaves the screen alone, so the shell does under any timer interrupts what it does without
them; in particular the cursor stays in step with the line.
-/

namespace EyaX.Kernel

open Interrupt Console Shell

/-! ## Quiet ticks -/

/-- A timer interrupt while the shell runs. -/
def timerInterrupt (_ : Unit) (s : State) (k : System) : Exec (State × System) := do
  let (screen, k) ← timerHandler s.screen k
  pure (s.setScreen screen, k)

/-- The first tick is over, and `n` more do not wrap the count. -/
def Quiet (k : System) (n : Nat) : Prop := 1 ≤ k.timerTicks.toNat ∧ k.timerTicks.toNat + n < 2 ^ 64

theorem timerInterrupt_later {k : System} (h : k.timerTicks + 1 ≠ 1) (s : State) :
    timerInterrupt () s k = .ok (s, { k with timerTicks := k.timerTicks + 1 }) := by
  unfold timerInterrupt
  rw [timerHandler_eq, if_neg h]
  rfl

theorem timerInterrupt_quiet {s s₁ : State} {k k₁ : System} {n : Nat} (hquiet : Quiet k (n + 1))
    (h : timerInterrupt () s k = .ok (s₁, k₁)) : s₁ = s ∧ Quiet k₁ n := by
  obtain ⟨hpos, hlt⟩ := hquiet
  have hticks : (k.timerTicks + 1).toNat = k.timerTicks.toNat + 1 := toNat_succ (by omega)
  have hlater : k.timerTicks + 1 ≠ 1 := fun he => by
    have hone : (k.timerTicks + 1).toNat = 1 := congrArg UInt64.toNat he
    omega
  rw [timerInterrupt_later hlater] at h
  cases h
  refine ⟨rfl, ?_, ?_⟩
  · show 1 ≤ (k.timerTicks + 1).toNat
    omega
  · show (k.timerTicks + 1).toNat + n < 2 ^ 64
    omega

theorem steps_quiet {α : Type} {c c' : Code Stop State α} {s s' : State} {k k' : System}
    {ticks : List Unit} {n : Nat} (h : Steps timerInterrupt ticks c s k c' s' k')
    (hquiet : Quiet k (ticks.length + n)) : c.run s = c'.run s' ∧ Quiet k' n :=
  h.run_eq (fun _ _ _ _ _ _ => timerInterrupt_quiet) hquiet

/-! ## Sessions -/

/-- The shell after `eX_Shell_Init` and the characters `chars`, with `n` timer interrupts anywhere
between and within; `cells` are the cells into which the characters of the line were drawn. -/
inductive Session (s₀ : State) (k₀ : System) :
    List UInt8 → Nat → List (List (UInt64 × UInt64)) → State → System → Prop
  | init {ticks : List Unit} {s : State} {k : System} :
      Steps timerInterrupt ticks Shell.init s₀ k₀ (.ret ()) s k →
      Session s₀ k₀ [] ticks.length [] s k
  | char {chars : List UInt8} {n : Nat} {cells : List (List (UInt64 × UInt64))} {s s' : State}
      {k k' : System} {c : UInt8} {ticks : List Unit} :
      Session s₀ k₀ chars n cells s k →
      Steps timerInterrupt ticks (handleChar c.toNat) s k (.ret ()) s' k' →
      Session s₀ k₀ (chars ++ [c]) (n + ticks.length) (echoed c s s' cells) s' k'

variable {s₀ : State} {k₀ : System}

theorem steps_handleChar {s s' : State} {k k' : System} {c : UInt8} {ticks : List Unit} {n : Nat}
    (hlength : s.length.toNat ≤ 127) (hquiet : Quiet k (ticks.length + n))
    (h : Steps timerInterrupt ticks (handleChar c.toNat) s k (.ret ()) s' k') :
    s' = s.after c ∧ Quiet k' n := by
  obtain ⟨hrun, hrest⟩ := steps_quiet h hquiet
  rw [run_handleChar c hlength] at hrun
  exact ⟨(Prod.mk.inj (Except.ok.inj hrun)).2.symm, hrest⟩

theorem Session.inStep {chars : List UInt8} {n : Nat} {cells : List (List (UInt64 × UInt64))}
    {s : State} {k : System} (h : Session s₀ k₀ chars n cells s k)
    (hcursor : s₀.screen.cursorX = 0) :
    ∀ more, Quiet k₀ (n + more) → InStep s cells ∧ Quiet k more := by
  induction h with
  | init hsteps =>
    intro more hquiet
    obtain ⟨hrun, hrest⟩ := steps_quiet hsteps hquiet
    rw [run_init] at hrun
    obtain rfl := (Prod.mk.inj (Except.ok.inj hrun)).2
    exact ⟨inStep_afterInit hcursor, hrest⟩
  | @char chars n cells s s' k k' c ticks _ hsteps ih =>
    intro more hquiet
    rw [Nat.add_assoc] at hquiet
    obtain ⟨hstep, hk⟩ := ih _ hquiet
    obtain ⟨rfl, hrest⟩ := steps_handleChar hstep.length_le hk hsteps
    exact ⟨hstep.after c, hrest⟩

/-- After every character of every session the cursor is beside the line, whose characters stand
from column 6 on, the shell is ready for any character, and a backspace draws background over
exactly the cell of the last character of the line, or draws nothing when there is none. -/
theorem cursor_in_step {chars : List UInt8} {n : Nat} {cells : List (List (UInt64 × UInt64))}
    {s : State} {k : System} (hcursor : s₀.screen.cursorX = 0) (hfirst : 1 ≤ k₀.timerTicks.toNat)
    (hsession : Session s₀ k₀ chars n cells s k) (hticks : k₀.timerTicks.toNat + n < 2 ^ 64) :
    s.screen.cursorX = 6 + s.length ∧ cells = lineCells s.screen.cursorY s.length.toNat ∧
      (∀ c : UInt8, ∃ s', (handleChar c.toNat).run s = .ok ((), s')) ∧
      ∀ (ticks : List Unit) (s' : State) (k' : System),
        k₀.timerTicks.toNat + n + ticks.length < 2 ^ 64 →
        Steps timerInterrupt ticks (handleChar '\x08'.toNat) s k (.ret ()) s' k' →
        positions (plotted s s') = cells.headD [] ∧
          ∀ p ∈ plotted s s', p.color = s.screen.background := by
  obtain ⟨hstep, -⟩ := hsession.inStep hcursor 0 ⟨hfirst, hticks⟩
  refine ⟨hstep.cursor, hstep.cells, ?_, ?_⟩
  · exact fun c => ⟨_, run_handleChar c hstep.length_le⟩
  · intro ticks s' k' hmore hsteps
    obtain ⟨-, hquiet⟩ := hsession.inStep hcursor ticks.length ⟨hfirst, by omega⟩
    obtain ⟨rfl, -⟩ := steps_handleChar (c := '\x08'.toUInt8) (n := 0) hstep.length_le hquiet hsteps
    exact hstep.backspace.2

theorem cursor_in_step_one_key :
    ∃ (cells : List (List (UInt64 × UInt64))) (s : State) (k : System),
      Session Shell.boot.shell { atBoot with timerTicks := 1 } ['a'.toUInt8] 1 cells s k ∧
        s.screen.cursorX = 6 + s.length := by
  have hinit : Session Shell.boot.shell { atBoot with timerTicks := 1 } [] 0 [] _ _ :=
    .init (.of_run (run_init Shell.boot.shell))
  have hlength : Shell.boot.shell.afterInit.length.toNat ≤ 127 := by decide
  have hkey := hinit.char
    (.interrupt (timerInterrupt_later (by decide) _) (.of_run (run_handleChar 'a'.toUInt8 hlength)))
  exact ⟨_, _, _, hkey, (cursor_in_step rfl (by decide) hkey (by decide)).1⟩

end EyaX.Kernel
