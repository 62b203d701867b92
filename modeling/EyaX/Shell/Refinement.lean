import EyaX.Keyboard.Batches
import EyaX.Shell.Loop
import EyaX.Shell.Session

/-!
# `kmain` refines a transducer

What goes in are the batches the polls find, what comes out are calls of the console: the polls keep
what fits into the queue, and the session reads what they keep. `kmain` ends on every sequence of
batches where this transducer does, also on those that overflow the queue.
-/

namespace EyaX.Shell

open Interrupt Code Console Keyboard

/-- From batches of scancodes to calls of the console. -/
def terminal : Transducer (Modifiers × Editor) (List UInt8) Call := polled.comp session

/-! ## One batch -/

theorem run_iteration_take {m : Machine} (hidle : Idle m) (batch : List UInt8) :
    ∃ m', (iteration batch).run m = .ok ((), m') ∧
      Handled ((decoded batch m.keyboard.modifiers).take 127) m m' ∧
      m'.keyboard.modifiers = modifiersAfter batch m.keyboard.modifiers := by
  have hqueue : (Keyboard.poll batch m.keyboard).queue.contents =
      (decoded batch m.keyboard.modifiers).take 127 := by
    rw [contents_poll_take, hidle.empty]
    rfl
  have hlength : ((decoded batch m.keyboard.modifiers).take 127).length < 128 := by
    rw [List.length_take]
    omega
  obtain ⟨m', hrun, hhandled, hmodifiers⟩ :=
    run_updateLoop _ 128 { m with keyboard := Keyboard.poll batch m.keyboard } hqueue hlength
      hidle.length_le
  refine ⟨m', ?_, ⟨hhandled.shell, hhandled.handled, hhandled.idle⟩, ?_⟩
  · rw [iteration, run_bind (run_poll batch m)]
    exact hrun
  · rw [hmodifiers]
    exact poll_modifiers batch m.keyboard

/-! ## Every sequence of batches -/

theorem run_iterations_take (batches : List (List UInt8)) :
    ∀ m : Machine, Idle m →
      ∃ m', (batches.forM iteration).run m = .ok ((), m') ∧
        Handled (polled.output m.keyboard.modifiers batches) m m' ∧
        m'.keyboard.modifiers = polled.after m.keyboard.modifiers batches := by
  induction batches with
  | nil =>
    intro m hidle
    exact ⟨m, rfl, ⟨rfl, (List.append_nil _).symm, hidle⟩, rfl⟩
  | cons batch batches ih =>
    intro m hidle
    obtain ⟨m₁, hrun₁, hhandled₁, hmodifiers₁⟩ := run_iteration_take hidle batch
    obtain ⟨m', hrun, hhandled, hmodifiers⟩ := ih m₁ hhandled₁.idle
    rw [hmodifiers₁] at hhandled hmodifiers
    refine ⟨m', ?_, ⟨?_, ?_, hhandled.idle⟩, hmodifiers⟩
    · show (iteration batch >>= fun _ => batches.forM iteration).run m = .ok ((), m')
      rw [run_bind hrun₁, hrun]
    · rw [hhandled.shell, hhandled₁.shell, Transducer.output_cons, List.foldl_append]
      rfl
    · rw [hhandled.handled, hhandled₁.handled, Transducer.output_cons, List.append_assoc]
      rfl

/-! ## The greeting -/

/-- What stands on the screen before the first batch. -/
def greeting : List UInt8 :=
  bytes "Tests completed\n" ++ bytes "eyaX kernel, beta 0.1\n\n" ++ bytes "eyaX> "

-- For every text: with the two texts in place of the variables, the kernel would compare their
-- bytes.
section texts

variable (text text' : List UInt8) (s : State)

def State.afterTexts : State := ((s.afterText text).afterText text').afterInit

theorem screen_afterTexts :
    (s.afterTexts text text').screen = s.screen.afterText (text ++ text' ++ bytes "eyaX> ") := by
  rw [afterText_append, afterText_append]
  rfl

theorem follows_afterTexts : Follows (s.afterTexts text text') ⟨[], s.commands⟩ := follows_afterInit _

end texts

theorem run_texts {t t' : String} (ht : plain (bytes t) = true) (ht' : plain (bytes t') = true)
    (c : Code Stop Machine Unit) (m : Machine) :
    (do
      onShell (onScreen (print (cString t) []))
      onShell (onScreen (print (cString t') []))
      onShell init
      c).run m = c.run (m.setShell (m.shell.afterTexts (bytes t) (bytes t'))) := by
  rw [run_bind (run_onShell (run_print ht _)), run_bind (run_onShell (run_print ht' _)),
    run_bind (run_onShell (run_init _))]
  rfl

/-- The shell before the first batch. -/
def State.greeted (s : State) : State :=
  s.afterTexts (bytes "Tests completed\n") (bytes "eyaX kernel, beta 0.1\n\n")

theorem greeted_screen (s : State) : s.greeted.screen = s.screen.afterText greeting :=
  screen_afterTexts _ _ s

theorem follows_greeted (s : State) : Follows s.greeted ⟨[], s.commands⟩ := follows_afterTexts _ _ s

theorem run_greeting (batches : List (List UInt8)) (m : Machine) :
    (afterSti batches).run m = (batches.forM iteration).run (m.setShell m.shell.greeted) :=
  run_texts (by decide) (by decide) _ m

/-- The machine is where the transducer is after `batches`. -/
structure Reached (batches : List (List UInt8)) (start : Modifiers) (m m' : Machine) : Prop where
  idle : Idle m'
  modifiers : m'.keyboard.modifiers = (terminal.after (start, ⟨[], m.shell.commands⟩) batches).1
  shell : Follows m'.shell (terminal.after (start, ⟨[], m.shell.commands⟩) batches).2
  screen : m'.shell.screen =
    (textCalls greeting ++ terminal.output (start, ⟨[], m.shell.commands⟩) batches).foldl
      Call.after m.shell.screen
  handled : m'.handled = m.handled ++ polled.output start batches

theorem run_loop {m : Machine} {shell : State} (hempty : m.keyboard.queue.contents = [])
    (hfollows : Follows shell ⟨[], m.shell.commands⟩)
    (hgreeted : shell.screen = m.shell.screen.afterText greeting) (batches : List (List UInt8)) :
    ∃ m', (batches.forM iteration).run (m.setShell shell) = .ok ((), m') ∧
      Reached batches m.keyboard.modifiers m m' := by
  obtain ⟨m', hloop, hhandled, hmodifiers⟩ :=
    run_iterations_take batches (m.setShell shell) ⟨hempty, hfollows.length_le⟩
  obtain ⟨hlast, hscreen⟩ :=
    refines_session.run (polled.output m.keyboard.modifiers batches) hfollows
  have hshell : m'.shell =
      (polled.output m.keyboard.modifiers batches).foldl State.after shell := hhandled.shell
  refine ⟨m', hloop, hhandled.idle, ?_, ?_, ?_, hhandled.handled⟩
  · rw [hmodifiers, terminal, Transducer.comp_after]
    rfl
  · rw [hshell, terminal, Transducer.comp_after]
    exact hlast
  · rw [hshell, hscreen, hgreeted, terminal, Transducer.comp_output, List.foldl_append,
      foldl_textCalls]

theorem run_afterSti {m : Machine} (hempty : m.keyboard.queue.contents = [])
    (batches : List (List UInt8)) :
    ∃ m', (afterSti batches).run m = .ok ((), m') ∧ Reached batches m.keyboard.modifiers m m' := by
  rw [run_greeting]
  exact run_loop hempty (follows_greeted m.shell) (greeted_screen m.shell) batches

/-- `kmain` ends on every sequence of batches where the transducer from batches to calls ends: with
its modifiers, its line, its commands, and the screen on which all its calls were made after the
greeting. -/
theorem kmain_refines (m : Machine) (batches : List (List UInt8)) :
    ∃ m', (kmain batches).run m = .ok ((), m') ∧ Reached batches released m m' := by
  have hempty : (Keyboard.init m.keyboard).queue.contents = [] := contents_init m.keyboard
  obtain ⟨m', hrun, hreached⟩ :=
    run_afterSti (m := ⟨Keyboard.init m.keyboard, m.shell, m.handled⟩) hempty batches
  refine ⟨m', ?_, ⟨hreached.idle, hreached.modifiers, hreached.shell, hreached.screen,
    hreached.handled⟩⟩
  rw [kmain, run_modify_bind]
  exact hrun

/-- On every sequence of batches `kmain` handles a part of the decoded characters, in their order,
and it handles all of them exactly when every batch fits into the queue. -/
theorem kmain_handles_all_iff_fits (m : Machine) (batches : List (List UInt8)) :
    ∃ m' chars, (kmain batches).run m = .ok ((), m') ∧ m'.handled = m.handled ++ chars ∧
      chars.Sublist (decoded batches.flatten released) ∧
      (chars = decoded batches.flatten released ↔ Fits released batches) := by
  obtain ⟨m', hrun, hreached⟩ := kmain_refines m batches
  exact ⟨m', _, hrun, hreached.handled, polled_sublist batches _, polled_eq_iff batches _⟩

end EyaX.Shell
