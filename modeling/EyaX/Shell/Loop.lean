import EyaX.Keyboard.Stream
import EyaX.Lib.Fold
import EyaX.Shell.Effects

/-!
# Keystrokes between the keyboard and the shell

`eX_Shell_Update` empties the queue, so every turn of the loop of `kmain` begins with an empty
queue, and a batch that decodes to at most 127 characters goes through it as it is. The shell then
handles exactly what the decoder produced, whatever the batches were.
-/

namespace EyaX.Shell

open Interrupt Code Console Keyboard

/-! ## One batch -/

theorem run_onShell {α : Type} {c : Code Stop State α} {m : Machine} {a : α} {s : State}
    (h : c.run m.shell = .ok (a, s)) : (onShell c).run m = .ok (a, m.setShell s) := by
  unfold onShell
  apply run_zoom
  · exact fun _ _ => rfl
  · exact fun _ _ _ => rfl
  · exact fun _ => rfl
  · exact h

/-- The machine between two turns of `kmain`'s loop. -/
structure Idle (m : Machine) : Prop where
  empty : m.keyboard.queue.contents = []
  length_le : m.shell.length.toNat ≤ 127

/-- The shell handled `chars`; nothing else but the queue changed. -/
structure Handled (chars : List UInt8) (m m' : Machine) : Prop where
  shell : m'.shell = chars.foldl State.after m.shell
  handled : m'.handled = m.handled ++ chars
  idle : Idle m'

theorem run_getChar (m : Machine) :
    getChar.run m =
      .ok ((Keyboard.getChar m.keyboard.queue).1,
        { m with keyboard := { m.keyboard with queue := (Keyboard.getChar m.keyboard.queue).2 } }) := rfl

/-- The loop of `eX_Shell_Update` handles what is queued and ends within one more turn. -/
theorem run_updateLoop (chars : List UInt8) :
    ∀ (turns : Nat) (m : Machine), m.keyboard.queue.contents = chars → chars.length < turns →
      m.shell.length.toNat ≤ 127 →
      ∃ m', (updateLoop turns).run m = .ok ((), m') ∧ Handled chars m m' ∧
        m'.keyboard.modifiers = m.keyboard.modifiers := by
  induction chars with
  | nil =>
    intro turns m hqueue hturns hlength
    obtain ⟨turns, rfl⟩ : ∃ n, turns = n + 1 := ⟨turns - 1, by simp at hturns; omega⟩
    have hget : getChar.run m = .ok (-1, m) := by
      rw [run_getChar, getChar_empty m.keyboard.queue hqueue]
    refine ⟨m, ?_, ⟨rfl, (List.append_nil _).symm, ⟨hqueue, hlength⟩⟩, rfl⟩
    rw [updateLoop, run_bind hget, if_neg (by simp), run_pure]
  | cons c chars ih =>
    intro turns m hqueue hturns hlength
    obtain ⟨turns, rfl⟩ : ∃ n, turns = n + 1 := ⟨turns - 1, by simp at hturns; omega⟩
    obtain ⟨hc, hrest⟩ := getChar_cons m.keyboard.queue hqueue
    have hget := run_getChar m
    rw [hc] at hget
    generalize (Keyboard.getChar m.keyboard.queue).2 = queue at hrest hget
    have hshell : (onShell (handleChar c.toNat)).run
        ⟨⟨queue, m.keyboard.modifiers⟩, m.shell, m.handled ++ [c]⟩ =
        .ok ((), ⟨⟨queue, m.keyboard.modifiers⟩, m.shell.after c, m.handled ++ [c]⟩) :=
      run_onShell (run_handleChar c hlength)
    obtain ⟨m', hrun, ⟨hsame, hlog, hidle⟩, hmodifiers⟩ :=
      ih turns ⟨⟨queue, m.keyboard.modifiers⟩, m.shell.after c, m.handled ++ [c]⟩ hrest
        (Nat.lt_of_succ_lt_succ hturns) (length_after c hlength)
    refine ⟨m', ?_, ⟨hsame, ?_, hidle⟩, hmodifiers⟩
    · rw [updateLoop, run_bind hget, if_pos (by omega), run_modify_bind, ofInt_toNat, run_bind hshell]
      exact hrun
    · rw [hlog, List.append_assoc]
      rfl

theorem run_poll (batch : List UInt8) :
    ∀ m : Machine, (poll batch).run m =
      .ok ((), { m with keyboard := Keyboard.poll batch m.keyboard }) := by
  induction batch with
  | nil => exact fun m => rfl
  | cons scancode batch ih =>
    intro m
    exact ih { m with keyboard := Keyboard.handleScancode m.keyboard scancode }

theorem run_iteration {m : Machine} (hidle : Idle m) {batch : List UInt8}
    (hbatch : (decoded batch m.keyboard.modifiers).length ≤ 127) :
    ∃ m', (iteration batch).run m = .ok ((), m') ∧
      Handled (decoded batch m.keyboard.modifiers) m m' ∧
      m'.keyboard.modifiers = modifiersAfter batch m.keyboard.modifiers := by
  have hqueue : (Keyboard.poll batch m.keyboard).queue.contents =
      decoded batch m.keyboard.modifiers := by
    rw [contents_poll batch m.keyboard (by rw [hidle.empty]; simpa using hbatch), hidle.empty]
    rfl
  obtain ⟨m', hrun, hhandled, hmodifiers⟩ :=
    run_updateLoop _ 128 { m with keyboard := Keyboard.poll batch m.keyboard } hqueue
      (Nat.lt_succ_of_le hbatch) hidle.length_le
  refine ⟨m', ?_, ⟨hhandled.shell, hhandled.handled, hhandled.idle⟩, ?_⟩
  · rw [iteration, run_bind (run_poll batch m)]
    exact hrun
  · rw [hmodifiers]
    exact poll_modifiers batch m.keyboard

/-! ## Every sequence of batches -/

/-- No batch decodes to more characters than the queue holds. -/
def Fits (modifiers : Modifiers) (batches : List (List UInt8)) : Prop :=
  Fold.Each (fun m batch => modifiersAfter batch m) (fun m batch => (decoded batch m).length ≤ 127)
    modifiers batches

theorem run_iterations (batches : List (List UInt8)) :
    ∀ m : Machine, Idle m → Fits m.keyboard.modifiers batches →
      ∃ m', (batches.forM iteration).run m = .ok ((), m') ∧
        Handled (decoded batches.flatten m.keyboard.modifiers) m m' := by
  induction batches with
  | nil =>
    intro m hidle _
    exact ⟨m, rfl, rfl, (List.append_nil _).symm, hidle⟩
  | cons batch batches ih =>
    intro m hidle hfits
    obtain ⟨hbatch, hrest⟩ := Fold.each_cons.mp hfits
    obtain ⟨m₁, hrun₁, hhandled₁, hmodifiers⟩ := run_iteration hidle hbatch
    rw [← hmodifiers] at hrest
    obtain ⟨m', hrun, hhandled⟩ := ih m₁ hhandled₁.idle hrest
    refine ⟨m', ?_, ?_, ?_, hhandled.idle⟩
    · show (iteration batch >>= fun _ => batches.forM iteration).run m = .ok ((), m')
      rw [run_bind hrun₁, hrun]
    · rw [hhandled.shell, hhandled₁.shell, hmodifiers, List.flatten_cons, decoded_append,
        List.foldl_append]
    · rw [hhandled.handled, hhandled₁.handled, hmodifiers, List.flatten_cons, decoded_append,
        List.append_assoc]

/-- The modifiers after `eX_Keyboard_Init`. -/
def released : Modifiers := ⟨false, false, false⟩

theorem run_kmain (m : Machine) :
    ∃ m₀ : Machine, Idle m₀ ∧ m₀.keyboard.modifiers = released ∧ m₀.handled = m.handled ∧
      ∀ batches, (kmain batches).run m = (batches.forM iteration).run m₀ := by
  let shell := ((m.shell.afterText (bytes "Tests completed\n")).afterText
    (bytes "eyaX kernel, beta 0.1\n\n")).afterInit
  refine ⟨⟨Keyboard.init m.keyboard, shell, m.handled⟩, ⟨contents_init m.keyboard, ?_⟩, rfl, rfl,
    fun batches => ?_⟩
  · exact Nat.zero_le _
  · rw [kmain, run_modify_bind, afterSti, run_bind (run_onShell (run_print (by decide) _)),
      run_bind (run_onShell (run_print (by decide) _)), run_bind (run_onShell (run_init _))]
    rfl

/-- Two ways to cut a stream into batches that fit end with everything handled, in order and once,
and with the same shell and the same screen. -/
theorem no_keystroke_lost (m : Machine) (batches batches' : List (List UInt8))
    (hstream : batches.flatten = batches'.flatten) (hfits : Fits released batches)
    (hfits' : Fits released batches') :
    ∃ m₁ m₂ : Machine, (kmain batches).run m = .ok ((), m₁) ∧ (kmain batches').run m = .ok ((), m₂) ∧
      m₁.handled = m.handled ++ decoded batches.flatten released ∧ m₂.handled = m₁.handled ∧
      m₂.shell = m₁.shell := by
  obtain ⟨m₀, hidle, hreleased, hlog, hrun⟩ := run_kmain m
  rw [← hreleased] at hfits hfits'
  obtain ⟨m₁, hrun₁, hhandled₁⟩ := run_iterations batches m₀ hidle hfits
  obtain ⟨m₂, hrun₂, hhandled₂⟩ := run_iterations batches' m₀ hidle hfits'
  refine ⟨m₁, m₂, (hrun batches).trans hrun₁, (hrun batches').trans hrun₂, ?_, ?_, ?_⟩
  · rw [hhandled₁.handled, hlog, hreleased]
  · rw [hhandled₁.handled, hhandled₂.handled, hstream]
  · rw [hhandled₁.shell, hhandled₂.shell, hstream]

/-- The machine before `kmain`, with a small screen. -/
def boot : Machine where
  keyboard := Keyboard.boot
  shell := ⟨blank 64 64 256, Vector.replicate 128 0, 0, []⟩
  handled := []

theorem no_keystroke_lost_two_keys :
    ∃ m₁ m₂ : Machine, (kmain [[0x1E, 0x30]]).run boot = .ok ((), m₁) ∧
      (kmain [[0x1E], [0x30]]).run boot = .ok ((), m₂) ∧
      m₁.handled = boot.handled ++ decoded [[0x1E, 0x30]].flatten released ∧
      m₂.handled = m₁.handled ∧ m₂.shell = m₁.shell :=
  no_keystroke_lost boot _ _ rfl (Fold.each_cons.mpr ⟨by decide, Fold.each_nil⟩)
    (Fold.each_cons.mpr ⟨by decide, Fold.each_cons.mpr ⟨by decide, Fold.each_nil⟩⟩)

end EyaX.Shell
