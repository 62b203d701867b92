import EyaX.Kernel.Refinement
import EyaX.Lib.Run

/-!
# `eX_Sleep` between the ticks

`eX_Sleep` compares the tick count with its target and executes `hlt` until it is reached. A tick
between the comparison and the `hlt` does not wake it: it then waits for the next one. It never
returns early; if it makes a step between any two ticks, it returns at most one tick late, and if it
makes two, at its target.
-/

namespace EyaX.Kernel

open Shell
open Fallible (Run)

/-! ## The loop -/

def pitFrequency : UInt64 := 100

def sleepTarget (seconds : UInt64) (k : System) : UInt64 := k.timerTicks + seconds * pitFrequency

/-- Where the loop is: before its comparison, between the comparison and the `hlt`, in the `hlt`, or
behind the loop with the count that was read last. -/
inductive Phase
  | comparing
  | halting
  | waiting
  | returned (ticks : UInt64)
  deriving DecidableEq, Repr

structure Sleeper where
  phase : Phase
  machine : Machine
  system : System

/-- The processor's next step. In the `hlt` it does nothing. -/
def Sleeper.step (target : UInt64) (s : Sleeper) : Sleeper :=
  match s.phase with
  | .comparing =>
    if s.system.timerTicks < target then { s with phase := .halting }
    else { s with phase := .returned s.system.timerTicks }
  | .halting => { s with phase := .waiting }
  | .waiting => s
  | .returned _ => s

/-- An interrupt that was delivered ends the `hlt`. -/
def Phase.wake : Phase → Phase
  | .waiting => .comparing
  | phase => phase

inductive Moment
  | step
  | request (line : Line)
  deriving DecidableEq, Repr

def advance (handlers : Handlers) (target : UInt64) (s : Sleeper) : Moment → Exec (Moment × Sleeper)
  | .step => .ok (.step, s.step target)
  | .request line => do
    let (machine, system) ← request handlers line s.machine s.system
    let phase := if s.system.Unmasked line then s.phase.wake else s.phase
    return (.request line, ⟨phase, machine, system⟩)

/-! ## Ticks and the pace -/

def Moment.isTick : Moment → Bool
  | .step => false
  | .request line => line.isTimer

/-- The ticks after a moment. -/
def ticksAfter (moment : Moment) (ticks : Nat) : Nat := if moment.isTick then ticks + 1 else ticks

/-- The steps since the last tick, after a moment. -/
def stepsAfter (moment : Moment) (steps : Nat) : Nat :=
  if moment.isTick then 0 else if moment = .step then steps + 1 else steps

@[simp] theorem ticksAfter_step (ticks : Nat) : ticksAfter .step ticks = ticks := rfl

@[simp] theorem stepsAfter_step (steps : Nat) : stepsAfter .step steps = steps + 1 := rfl

/-- The ticks in a history. -/
def ticksIn (h : List Moment) : Nat := h.foldl (fun n moment => ticksAfter moment n) 0

/-- The steps since the last tick of a history, or since its beginning. -/
def stepsSince (h : List Moment) : Nat := h.foldl (fun n moment => stepsAfter moment n) 0

/-- Before every tick but the first there are `pace` steps since the tick before it. -/
def Paced (pace : Nat) (h : List Moment) : Prop :=
  ∀ before after moment, h = before ++ moment :: after → moment.isTick = true →
    ticksIn before = 0 ∨ pace ≤ stepsSince before

section pace

variable {pace : Nat} {h : List Moment} {moment : Moment}

@[simp] theorem ticksIn_snoc : ticksIn (h ++ [moment]) = ticksAfter moment (ticksIn h) :=
  List.foldl_append

@[simp] theorem stepsSince_snoc : stepsSince (h ++ [moment]) = stepsAfter moment (stepsSince h) :=
  List.foldl_append

theorem one_le_stepsSince : 1 ≤ stepsSince (h ++ [.step]) := by
  rw [stepsSince_snoc]
  exact Nat.succ_pos _

theorem paced_nil : Paced pace [] := by
  intro before after moment heq
  exact absurd heq (by simp)

theorem Paced.init (hpaced : Paced pace (h ++ [moment])) : Paced pace h := by
  rintro before after o rfl ho
  exact hpaced before (after ++ [moment]) o (by rw [List.append_assoc]; rfl) ho

theorem Paced.last (hpaced : Paced pace (h ++ [moment])) (htick : moment.isTick = true) :
    ticksIn h = 0 ∨ pace ≤ stepsSince h :=
  hpaced h [] moment rfl htick

theorem Paced.snoc (hpaced : Paced pace h)
    (hlast : moment.isTick = true → ticksIn h = 0 ∨ pace ≤ stepsSince h) :
    Paced pace (h ++ [moment]) := by
  intro before after o heq ho
  rcases List.eq_nil_or_concat after with rfl | ⟨after, o', rfl⟩
  · obtain ⟨rfl, hone⟩ := List.append_inj' heq rfl
    obtain rfl : moment = o := List.singleton_inj.mp hone
    exact hlast ho
  · have heq' : h ++ [moment] = (before ++ o :: after) ++ [o'] := by
      rw [heq, List.concat_eq_append, List.append_assoc]
      rfl
    obtain ⟨rfl, -⟩ := List.append_inj' heq' rfl
    exact hpaced before after o rfl ho

end pace

/-! ## What a moment does -/

/-- What a moment can do while the descriptors are installed and the controllers are programmed. -/
inductive Advance (target : UInt64) (s : Sleeper) : Moment → Sleeper → Prop
  | stay (hphase : s.phase = .comparing) (hlt : s.system.timerTicks < target) :
      Advance target s .step { s with phase := .halting }
  | leave (hphase : s.phase = .comparing) (hle : ¬ s.system.timerTicks < target) :
      Advance target s .step { s with phase := .returned s.system.timerTicks }
  | halt (hphase : s.phase = .halting) : Advance target s .step { s with phase := .waiting }
  | idle (hcomparing : s.phase ≠ .comparing) (hhalting : s.phase ≠ .halting) :
      Advance target s .step s
  | tick {moment : Moment} (htick : moment.isTick = true) (machine : Machine) {system : System}
      (hticks : system.timerTicks = s.system.timerTicks + 1) :
      Advance target s moment ⟨s.phase.wake, machine, system⟩
  | masked {moment : Moment} (hstep : moment ≠ .step) (htick : ¬ moment.isTick = true) :
      Advance target s moment s

theorem Ready.request_counts {handlers : Handlers} {k k' : System} {m m' : Machine}
    (hready : Ready handlers k) (h : Kernel.request handlers (.master 0) m k = .ok (m', k')) :
    k'.timerTicks = k.timerTicks + 1 := by
  have hunmasked : k.Unmasked (.master 0) := (hready.unmasked_iff _).mpr (.inl rfl)
  have hvector : k.vector (.master 0) = 0x20 := hready.vector_master 0
  unfold Kernel.request at h
  rw [if_pos hunmasked, hvector, interrupt_timer (hready.gate 0x20), timerHandler_eq] at h
  cases h
  rfl

theorem advance_cases {handlers : Handlers} {target : UInt64} {s s' : Sleeper} {i o : Moment}
    (hready : Ready handlers s.system) (h : advance handlers target s i = .ok (o, s')) :
    Ready handlers s'.system ∧ Advance target s o s' := by
  cases i with
  | step =>
    cases h
    cases hphase : s.phase with
    | comparing =>
      simp only [Sleeper.step, hphase]
      split_ifs with hlt
      · exact ⟨hready, .stay hphase hlt⟩
      · exact ⟨hready, .leave hphase hlt⟩
    | halting =>
      simp only [Sleeper.step, hphase]
      exact ⟨hready, .halt hphase⟩
    | waiting =>
      simp only [Sleeper.step, hphase]
      exact ⟨hready, .idle (by simp [hphase]) (by simp [hphase])⟩
    | returned ticks =>
      simp only [Sleeper.step, hphase]
      exact ⟨hready, .idle (by simp [hphase]) (by simp [hphase])⟩
  | request line =>
    obtain ⟨⟨machine, system⟩, hrequest, hrest⟩ := Exec.bind_eq_ok.mp h
    cases hrest
    refine ⟨hready.request hrequest, ?_⟩
    by_cases htimer : line = .master 0
    · subst htimer
      rw [if_pos ((hready.unmasked_iff _).mpr (.inl rfl))]
      exact .tick rfl machine (hready.request_counts hrequest)
    · have hkeyboard : line ≠ .master 1 := by
        rintro rfl
        rw [hready.request_keyboard] at hrequest
        cases hrequest
      rw [hready.request_masked htimer hkeyboard] at hrequest
      cases hrequest
      rw [if_neg fun h => ((hready.unmasked_iff line).mp h).elim htimer hkeyboard]
      exact .masked Moment.noConfusion fun h => htimer (isTimer_iff.mp h)

/-! ## Never early -/

/-- After some ticks the count is their number as far as it can hold it, and so was, at a tick, the
count that ended the loop. -/
structure Counted (handlers : Handlers) (target : UInt64) (start ticks : Nat) (s : Sleeper) :
    Prop where
  ready : Ready handlers s.system
  count : s.system.timerTicks.toNat = (start + ticks) % 2 ^ 64
  read : ∀ now, s.phase = .returned now →
    target ≤ now ∧ ∃ n, n ≤ ticks ∧ now.toNat = (start + n) % 2 ^ 64

theorem Phase.wake_returned {phase : Phase} {now : UInt64} (h : phase.wake = .returned now) :
    phase = .returned now := by
  cases phase with
  | waiting => cases h
  | _ => exact h

theorem Counted.advance {handlers : Handlers} {target : UInt64} {start ticks : Nat}
    {s s' : Sleeper} {moment : Moment} (hs : Counted handlers target start ticks s)
    (hready : Ready handlers s'.system) (hadvance : Advance target s moment s') :
    Counted handlers target start (ticksAfter moment ticks) s' := by
  cases hadvance with
  | stay hphase hlt => exact ⟨hready, hs.count, fun now he => nomatch he⟩
  | leave hphase hle =>
    refine ⟨hready, hs.count, fun now he => ?_⟩
    obtain rfl : s.system.timerTicks = now := Phase.returned.inj he
    exact ⟨UInt64.not_lt.mp hle, ticks, Nat.le_refl _, hs.count⟩
  | halt hphase => exact ⟨hready, hs.count, fun now he => nomatch he⟩
  | idle hcomparing hhalting => exact hs
  | tick htick machine hticks =>
    rw [ticksAfter, if_pos htick]
    refine ⟨hready, ?_, fun now he => ?_⟩
    · show UInt64.toNat _ = _
      rw [hticks, UInt64.toNat_add, hs.count]
      show (_ % 2 ^ 64 + 1) % 2 ^ 64 = _
      omega
    · obtain ⟨hle, n, hn, hnow⟩ := hs.read now (Phase.wake_returned he)
      exact ⟨hle, n, by omega, hnow⟩
  | masked hstep htick =>
    rw [ticksAfter, if_neg htick]
    exact hs

/-! ## Late by one tick at most -/

/-- Where the loop can be after some ticks, with a step between any two of them. -/
def Late (start last ticks steps : Nat) : Phase → Prop
  | .comparing => start + ticks ≤ last ∨ start + ticks = last + 1 ∧ 0 < ticks ∧ steps = 0
  | .halting => start + ticks < last ∨ start + ticks = last ∧ 0 < ticks ∧ steps = 0
  | .waiting => start + ticks ≤ last
  | .returned now => now.toNat ≤ last + 1

theorem Late.tick {start last ticks steps : Nat} {phase : Phase} (h : Late start last ticks steps phase)
    (hpace : ticks = 0 ∨ 1 ≤ steps) : Late start last (ticks + 1) 0 phase.wake := by
  cases phase with
  | comparing =>
    simp only [Phase.wake, Late, and_true] at h ⊢
    omega
  | halting =>
    simp only [Phase.wake, Late, and_true] at h ⊢
    omega
  | waiting =>
    simp only [Phase.wake, Late, and_true] at h ⊢
    omega
  | returned now => exact h

theorem Late.over {start last ticks steps : Nat} {phase : Phase}
    (h : Late start last ticks steps phase) (hover : last + 1 < start + ticks) :
    ∃ now, phase = .returned now := by
  cases phase with
  | returned now => exact ⟨now, rfl⟩
  | _ =>
    simp only [Late] at h
    omega

theorem Late.advance {target : UInt64} {start last ticks steps : Nat} {s s' : Sleeper}
    {moment : Moment} (h : Late start last ticks steps s.phase)
    (hcount : s.system.timerTicks.toNat = (start + ticks) % 2 ^ 64)
    (htarget : target.toNat = last) (hlast : last + 1 < 2 ^ 64)
    (hpace : moment.isTick = true → ticks = 0 ∨ 1 ≤ steps) (hadvance : Advance target s moment s') :
    Late start last (ticksAfter moment ticks) (stepsAfter moment steps) s'.phase := by
  cases hadvance with
  | stay hphase hlt =>
    rw [hphase] at h
    rw [UInt64.lt_iff_toNat_lt, hcount, htarget] at hlt
    simp only [Late, ticksAfter_step] at h ⊢
    omega
  | leave hphase hle =>
    rw [hphase] at h
    simp only [Late, hcount] at h ⊢
    omega
  | halt hphase =>
    rw [hphase] at h
    simp only [Late, ticksAfter_step] at h ⊢
    omega
  | idle hcomparing hhalting =>
    cases hphase : s.phase with
    | comparing => exact absurd hphase hcomparing
    | halting => exact absurd hphase hhalting
    | waiting =>
      rw [hphase] at h
      exact h
    | returned now =>
      rw [hphase] at h
      exact h
  | tick htick machine hticks =>
    rw [ticksAfter, stepsAfter, if_pos htick, if_pos htick]
    exact h.tick (hpace htick)
  | masked hstep htick =>
    rw [ticksAfter, stepsAfter, if_neg htick, if_neg htick, if_neg hstep]
    exact h

/-! ## In time -/

/-- Where the loop can be after some ticks, with two steps between any two of them. -/
def InTime (start last ticks steps : Nat) : Phase → Prop
  | .comparing => start + ticks ≤ last ∧ (ticks = 0 ∨ steps = 0)
  | .halting => start + ticks < last ∧ (ticks = 0 ∨ steps ≤ 1)
  | .waiting => start + ticks < last
  | .returned now => now.toNat = last

theorem InTime.tick {start last ticks steps : Nat} {phase : Phase}
    (h : InTime start last ticks steps phase) (hstart : start + 1 < last)
    (hpace : ticks = 0 ∨ 2 ≤ steps) : InTime start last (ticks + 1) 0 phase.wake := by
  cases phase with
  | comparing =>
    simp only [Phase.wake, InTime, or_true, and_true] at h ⊢
    omega
  | halting =>
    simp only [Phase.wake, InTime] at h ⊢
    omega
  | waiting =>
    simp only [Phase.wake, InTime, or_true, and_true] at h ⊢
    omega
  | returned now => exact h

theorem InTime.over {start last ticks steps : Nat} {phase : Phase}
    (h : InTime start last ticks steps phase) (hover : last < start + ticks) :
    ∃ now, phase = .returned now := by
  cases phase with
  | returned now => exact ⟨now, rfl⟩
  | _ =>
    simp only [InTime] at h
    omega

theorem InTime.advance {target : UInt64} {start last ticks steps : Nat} {s s' : Sleeper}
    {moment : Moment} (h : InTime start last ticks steps s.phase)
    (hcount : s.system.timerTicks.toNat = (start + ticks) % 2 ^ 64)
    (htarget : target.toNat = last) (hlast : last + 1 < 2 ^ 64) (hstart : start + 1 < last)
    (hpace : moment.isTick = true → ticks = 0 ∨ 2 ≤ steps) (hadvance : Advance target s moment s') :
    InTime start last (ticksAfter moment ticks) (stepsAfter moment steps) s'.phase := by
  cases hadvance with
  | stay hphase hlt =>
    rw [hphase] at h
    rw [UInt64.lt_iff_toNat_lt, hcount, htarget] at hlt
    simp only [InTime, ticksAfter_step, stepsAfter_step] at h ⊢
    omega
  | leave hphase hle =>
    rw [hphase] at h
    rw [UInt64.lt_iff_toNat_lt, hcount, htarget] at hle
    simp only [InTime, hcount] at h ⊢
    omega
  | halt hphase =>
    rw [hphase] at h
    simp only [InTime, ticksAfter_step] at h ⊢
    exact h.1
  | idle hcomparing hhalting =>
    cases hphase : s.phase with
    | comparing => exact absurd hphase hcomparing
    | halting => exact absurd hphase hhalting
    | waiting =>
      rw [hphase] at h
      exact h
    | returned now =>
      rw [hphase] at h
      exact h
  | tick htick machine hticks =>
    rw [ticksAfter, stepsAfter, if_pos htick, if_pos htick]
    exact h.tick hstart (hpace htick)
  | masked hstep htick =>
    rw [ticksAfter, stepsAfter, if_neg htick, if_neg htick, if_neg hstep]
    exact h

/-! ## Every run -/

section runs

variable {handlers : Handlers} {k : System} {m : Machine} {target : UInt64} {h : List Moment}
  {s : Sleeper}

theorem run_counted (hready : Ready handlers k)
    (hrun : Run (advance handlers target) ⟨.comparing, m, k⟩ h s) :
    Counted handlers target k.timerTicks.toNat (ticksIn h) s := by
  refine hrun.invariant (I := fun h s => Counted handlers target k.timerTicks.toNat (ticksIn h) s)
    ⟨hready, ?_, ?_⟩ ?_
  · exact (Nat.mod_eq_of_lt k.timerTicks.toNat_lt).symm
  · intro now he
    cases he
  · intro h₁ s₁ i o s₂ _ hs hstep
    obtain ⟨hready₂, hadvance⟩ := advance_cases hs.ready hstep
    rw [ticksIn_snoc]
    exact hs.advance hready₂ hadvance

theorem run_late (hready : Ready handlers k) {last : Nat} (htarget : target.toNat = last)
    (hlast : last + 1 < 2 ^ 64) (hstart : k.timerTicks.toNat ≤ last)
    (hrun : Run (advance handlers target) ⟨.comparing, m, k⟩ h s) (hpaced : Paced 1 h) :
    Late k.timerTicks.toNat last (ticksIn h) (stepsSince h) s.phase := by
  revert hpaced
  refine hrun.invariant (I := fun h s => Paced 1 h →
    Late k.timerTicks.toNat last (ticksIn h) (stepsSince h) s.phase) ?_ ?_
  · exact fun _ => Or.inl hstart
  intro h₁ s₁ i o s₂ hrun₁ ih hstep hpaced
  have hs := run_counted hready hrun₁
  obtain ⟨-, hadvance⟩ := advance_cases hs.ready hstep
  rw [ticksIn_snoc, stepsSince_snoc]
  exact (ih hpaced.init).advance hs.count htarget hlast hpaced.last hadvance

theorem run_inTime (hready : Ready handlers k) {last : Nat} (htarget : target.toNat = last)
    (hlast : last + 1 < 2 ^ 64) (hstart : k.timerTicks.toNat + 1 < last)
    (hrun : Run (advance handlers target) ⟨.comparing, m, k⟩ h s) (hpaced : Paced 2 h) :
    InTime k.timerTicks.toNat last (ticksIn h) (stepsSince h) s.phase := by
  revert hpaced
  refine hrun.invariant (I := fun h s => Paced 2 h →
    InTime k.timerTicks.toNat last (ticksIn h) (stepsSince h) s.phase) ?_ ?_
  · exact fun _ => ⟨Nat.le_of_succ_le (Nat.le_of_lt hstart), Or.inl rfl⟩
  intro h₁ s₁ i o s₂ hrun₁ ih hstep hpaced
  have hs := run_counted hready hrun₁
  obtain ⟨-, hadvance⟩ := advance_cases hs.ready hstep
  rw [ticksIn_snoc, stepsSince_snoc]
  exact (ih hpaced.init).advance hs.count htarget hlast hstart hpaced.last hadvance

end runs

theorem sleepTarget_toNat (seconds : UInt64) (k : System)
    (h : k.timerTicks.toNat + 100 * seconds.toNat < 2 ^ 64) :
    (sleepTarget seconds k).toNat = k.timerTicks.toNat + 100 * seconds.toNat := by
  have hfrequency : pitFrequency.toNat = 100 := rfl
  rw [sleepTarget, UInt64.toNat_add, UInt64.toNat_mul, hfrequency]
  omega

/-! ## A tick that is missed -/

/-- A run with a step between any two ticks, and where it is. -/
structure Way (handlers : Handlers) (target : UInt64) (first : Sleeper) (h : List Moment)
    (s : Sleeper) : Prop where
  run : Run (advance handlers target) first h s
  paced : Paced 1 h
  ready : Ready handlers s.system

/-- In this history the tick that reaches the target comes between the comparison and the `hlt`. -/
def Misses (handlers : Handlers) (target : UInt64) (first : Sleeper) (h : List Moment) : Prop :=
  ∃ (before after : List Moment) (moment : Moment) (s : Sleeper), h = before ++ moment :: after ∧
    moment.isTick = true ∧ Run (advance handlers target) first before s ∧ s.phase = .halting ∧
    s.system.timerTicks + 1 = target

section ways

variable {handlers : Handlers} {target : UInt64} {first s : Sleeper} {h : List Moment}

theorem Way.step (hway : Way handlers target first h s) :
    Way handlers target first (h ++ [.step]) (s.step target) where
  run := hway.run.snoc (i := .step) rfl
  paced := hway.paced.snoc fun htick => absurd htick Bool.false_ne_true
  ready := by
    unfold Sleeper.step
    split
    · split_ifs <;> exact hway.ready
    all_goals exact hway.ready

theorem Way.tick (hway : Way handlers target first h s) (hsteps : 1 ≤ stepsSince h) :
    ∃ s', Way handlers target first (h ++ [.request (.master 0)]) s' ∧ s'.phase = s.phase.wake ∧
      s'.system.timerTicks = s.system.timerTicks + 1 := by
  obtain ⟨machine, system, hrequest⟩ := hway.ready.request_timer s.machine
  have hunmasked : s.system.Unmasked (.master 0) := (hway.ready.unmasked_iff _).mpr (.inl rfl)
  have hstep : advance handlers target s (.request (.master 0)) =
      .ok (.request (.master 0), ⟨s.phase.wake, machine, system⟩) := by
    rw [advance, hrequest, if_pos hunmasked]
    rfl
  exact ⟨⟨s.phase.wake, machine, system⟩,
    ⟨hway.run.snoc hstep, hway.paced.snoc fun _ => .inr hsteps, hway.ready.request hrequest⟩, rfl,
    hway.ready.request_counts hrequest⟩

theorem step_comparing (hphase : s.phase = .comparing) (hlt : s.system.timerTicks < target) :
    s.step target = { s with phase := .halting } := by
  rw [Sleeper.step, hphase]
  exact if_pos hlt

theorem step_over (hphase : s.phase = .comparing) (hle : ¬ s.system.timerTicks < target) :
    s.step target = { s with phase := .returned s.system.timerTicks } := by
  rw [Sleeper.step, hphase]
  exact if_neg hle

theorem step_halting (hphase : s.phase = .halting) :
    s.step target = { s with phase := .waiting } := by
  rw [Sleeper.step, hphase]

theorem Way.lap (hway : Way handlers target first h s) (hphase : s.phase = .comparing)
    (hlt : s.system.timerTicks < target) :
    ∃ h' s', Way handlers target first h' s' ∧ s'.phase = .comparing ∧
      s'.system.timerTicks = s.system.timerTicks + 1 := by
  have hhalting := hway.step
  rw [step_comparing hphase hlt] at hhalting
  have hwaiting := hhalting.step
  rw [step_halting rfl] at hwaiting
  obtain ⟨s', hway', hphase', hticks⟩ := hwaiting.tick one_le_stepsSince
  exact ⟨_, s', hway', hphase', hticks⟩

/-- The tick comes between the comparison and the `hlt`, and only the next one wakes. -/
theorem Way.missed (hway : Way handlers target first h s) (hphase : s.phase = .comparing)
    (hlast : s.system.timerTicks.toNat + 1 = target.toNat) (hbound : target.toNat + 1 < 2 ^ 64) :
    ∃ h' s', Way handlers target first h' s' ∧ s'.phase = .returned (target + 1) ∧
      Misses handlers target first h' := by
  have hlt : s.system.timerTicks < target := UInt64.lt_iff_toNat_lt.mpr (by omega)
  have hhalting := hway.step
  rw [step_comparing hphase hlt] at hhalting
  obtain ⟨s₁, hmissed, hphase₁, hticks₁⟩ := hhalting.tick one_le_stepsSince
  have hwaiting := hmissed.step
  rw [step_halting hphase₁] at hwaiting
  obtain ⟨s₂, hwoken, hphase₂, hticks₂⟩ := hwaiting.tick one_le_stepsSince
  have hreached : s.system.timerTicks + 1 = target := by
    rw [← UInt64.toNat_inj, ← hlast]
    exact toNat_succ (a := s.system.timerTicks) (by omega)
  have hcount₂ : s₂.system.timerTicks = target + 1 := by
    rw [hticks₂, ← hreached]
    exact congrArg (· + 1) hticks₁
  have hover : ¬ s₂.system.timerTicks < target := by
    rw [hcount₂, UInt64.lt_iff_toNat_lt, toNat_succ hbound]
    omega
  have hreturned := hwoken.step
  rw [step_over hphase₂ hover, hcount₂] at hreturned
  refine ⟨_, _, hreturned, rfl, h ++ [.step], [.step, .request (.master 0), .step],
    .request (.master 0), { s with phase := .halting }, ?_, rfl, hhalting.run, rfl, hreached⟩
  simp only [List.append_assoc, List.cons_append, List.nil_append]

end ways

theorem exists_laps {handlers : Handlers} (target : UInt64) {first : Sleeper}
    (hready : Ready handlers first.system) (hphase : first.phase = .comparing) (n : Nat) :
    first.system.timerTicks.toNat + n < target.toNat →
      ∃ h s, Way handlers target first h s ∧ s.phase = .comparing ∧
        s.system.timerTicks.toNat = first.system.timerTicks.toNat + n := by
  have hmax := target.toNat_lt
  induction n with
  | zero => exact fun _ => ⟨[], first, ⟨.nil, paced_nil, hready⟩, hphase, rfl⟩
  | succ n ih =>
    intro hlt
    obtain ⟨h, s, hway, hcomparing, hticks⟩ := ih (by omega)
    obtain ⟨h', s', hway', hcomparing', hticks'⟩ :=
      hway.lap hcomparing (UInt64.lt_iff_toNat_lt.mpr (by omega))
    refine ⟨h', s', hway', hcomparing', ?_⟩
    rw [hticks', toNat_succ (by omega), hticks, Nat.add_assoc]

theorem exists_missed {handlers : Handlers} {k : System} (hready : Ready handlers k) (m : Machine)
    (seconds : UInt64) (hone : 1 ≤ seconds.toNat)
    (hcount : k.timerTicks.toNat + 100 * seconds.toNat + 1 < 2 ^ 64) :
    ∃ h s, Way handlers (sleepTarget seconds k) ⟨.comparing, m, k⟩ h s ∧
      s.phase = .returned (sleepTarget seconds k + 1) ∧
      Misses handlers (sleepTarget seconds k) ⟨.comparing, m, k⟩ h := by
  have htarget := sleepTarget_toNat seconds k (by omega)
  have hready' : Ready handlers (Sleeper.mk .comparing m k).system := hready
  obtain ⟨h, s, hway, hcomparing, hticks⟩ :=
    exists_laps (sleepTarget seconds k) hready' rfl (100 * seconds.toNat - 1) (by
      show k.timerTicks.toNat + _ < _
      omega)
  refine hway.missed hcomparing ?_ (by omega)
  rw [hticks, htarget]
  show k.timerTicks.toNat + _ + 1 = _
  omega

/-- The kernel as `sti` finds it, after one tick. -/
def atSti : System where
  timerTicks := 1
  idt := (idtInit handlers atBoot).idt
  master := ⟨.mask, false, true, 0x20, 0x04, 0x01, 0xFC⟩
  slave := ⟨.mask, false, true, 0x28, 0x02, 0x01, 0xFF⟩

theorem ready_atSti : Ready handlers atSti := ⟨gate_idtInit handlers atBoot, rfl, rfl⟩

/-! ## When `eX_Sleep` returns -/

/-- Under requests on any lines but the keyboard's, which no run survives, `eX_Sleep` does not
return before its ticks have come. With a step between any two ticks it returns a tick late at most,
and by then; with two steps, and a second to wait at least, it returns at its target. -/
theorem sleep_returns {handlers : Handlers} {k : System} (hready : Ready handlers k) (m : Machine)
    (seconds : UInt64) (hcount : k.timerTicks.toNat + 100 * seconds.toNat + 1 < 2 ^ 64)
    {h : List Moment} {s : Sleeper}
    (hrun : Run (advance handlers (sleepTarget seconds k)) ⟨.comparing, m, k⟩ h s) :
    (∀ now, s.phase = .returned now → 100 * seconds.toNat ≤ ticksIn h) ∧
      (Paced 1 h →
        (∀ now, s.phase = .returned now →
          now.toNat ≤ k.timerTicks.toNat + 100 * seconds.toNat + 1) ∧
        (100 * seconds.toNat + 1 < ticksIn h → ∃ now, s.phase = .returned now)) ∧
      (Paced 2 h → 1 ≤ seconds.toNat →
        (∀ now, s.phase = .returned now → now = sleepTarget seconds k) ∧
        (100 * seconds.toNat < ticksIn h → ∃ now, s.phase = .returned now)) := by
  have htarget := sleepTarget_toNat seconds k (by omega)
  have hs := run_counted hready hrun
  refine ⟨fun now hphase => ?_, fun hpaced => ?_, fun hpaced hone => ?_⟩
  · obtain ⟨hle, n, hn, hnow⟩ := hs.read now hphase
    rw [UInt64.le_iff_toNat_le, htarget, hnow] at hle
    omega
  · have hlate := run_late hready htarget (by omega) (by omega) hrun hpaced
    refine ⟨fun now hphase => ?_, fun hticks => ?_⟩
    · rw [hphase] at hlate
      exact hlate
    · exact hlate.over (by omega)
  · have hinTime := run_inTime hready htarget (by omega) (by omega) hrun hpaced
    refine ⟨fun now hphase => ?_, fun hticks => ?_⟩
    · rw [hphase] at hinTime
      rw [← UInt64.toNat_inj, htarget]
      exact hinTime
    · exact hinTime.over (by omega)

theorem sleep_returns_second : ∃ h s,
    Run (advance handlers (sleepTarget 1 atSti)) ⟨.comparing, Shell.boot, atSti⟩ h s ∧
      s.phase = .returned (sleepTarget 1 atSti + 1) ∧ 100 ≤ ticksIn h := by
  obtain ⟨h, s, hway, hphase, -⟩ := exists_missed ready_atSti Shell.boot 1 (by decide) (by decide)
  have hreturns := sleep_returns ready_atSti Shell.boot 1 (by decide) hway.run
  exact ⟨h, s, hway.run, hphase, hreturns.1 _ hphase⟩

/-- A tick can be missed: for every number of seconds there is a run with a step between any two
ticks in which the last tick comes between the comparison and the `hlt`, and which returns a tick
late. -/
theorem sleep_misses_tick {handlers : Handlers} {k : System} (hready : Ready handlers k)
    (m : Machine) (seconds : UInt64) (hone : 1 ≤ seconds.toNat)
    (hcount : k.timerTicks.toNat + 100 * seconds.toNat + 1 < 2 ^ 64) :
    ∃ h s, Run (advance handlers (sleepTarget seconds k)) ⟨.comparing, m, k⟩ h s ∧ Paced 1 h ∧
      s.phase = .returned (sleepTarget seconds k + 1) ∧
      Misses handlers (sleepTarget seconds k) ⟨.comparing, m, k⟩ h := by
  obtain ⟨h, s, hway, hphase, hmisses⟩ := exists_missed hready m seconds hone hcount
  exact ⟨h, s, hway.run, hway.paced, hphase, hmisses⟩

theorem sleep_misses_tick_second : ∃ h s,
    Run (advance handlers (sleepTarget 1 atSti)) ⟨.comparing, Shell.boot, atSti⟩ h s ∧
      Paced 1 h ∧ s.phase = .returned (sleepTarget 1 atSti + 1) ∧
      Misses handlers (sleepTarget 1 atSti) ⟨.comparing, Shell.boot, atSti⟩ h :=
  sleep_misses_tick ready_atSti Shell.boot 1 (by decide) (by decide)

end EyaX.Kernel
