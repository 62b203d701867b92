import EyaX.Keyboard.Typing
import EyaX.Shell.Refinement

/-!
# A session line by line

Typed on the keyboard, lines of printable characters that fit into the buffer are what the shell
runs, one after the other. What stands on the screen is a dialogue: each line as it was typed, the
reply to it, and the next prompt.
-/

namespace EyaX.Shell

open Interrupt Code Console Keyboard

/-! ## Lines and what they leave -/

/-- A line that can be typed and that fits into the buffer. -/
structure Enterable (line : List UInt8) : Prop where
  length_le : line.length ≤ 127
  printable : ∀ c ∈ line, 32 ≤ c ∧ c ≤ 126

/-- The lines with the newlines that end them. -/
def entered (lines : List (List UInt8)) : List UInt8 :=
  lines.flatMap fun line => line ++ ['\n'.toUInt8]

/-- The calls for a line: it is echoed, answered, and followed by a prompt. -/
def dialogue (line : List UInt8) : List Call :=
  textCalls line ++ echoCalls line '\n'.toUInt8

theorem typable_entered {lines : List (List UInt8)} (h : ∀ line ∈ lines, Enterable line) :
    ∀ c ∈ entered lines, Typable c := by
  intro c hc
  obtain ⟨line, hline, hmem⟩ := List.mem_flatMap.mp hc
  rcases List.mem_append.mp hmem with hmem | hlast
  · exact .inl ((h line hline).printable c hmem)
  · exact .inr (.inl (List.mem_singleton.mp hlast))

theorem decoded_entered {lines : List (List UInt8)} (h : ∀ line ∈ lines, Enterable line) :
    decoded (typing (entered lines)) released = entered lines :=
  (decoded_typing (typable_entered h) false).1.trans (List.map_id' _)

/-! ## The session -/

theorem session_char {before : List UInt8} {c : UInt8} (hc : 32 ≤ c ∧ c ≤ 126)
    (hroom : before.length < 127) (commands : List Command) :
    session.next ⟨before, commands⟩ c = ⟨before ++ [c], commands⟩ ∧
      session.out ⟨before, commands⟩ c = [.printChar c] := by
  have henter : c ≠ '\n'.toUInt8 := fun he => absurd (he ▸ hc.1) (by decide)
  have hback : c ≠ '\x08'.toUInt8 := fun he => absurd (he ▸ hc.1) (by decide)
  constructor
  · show Editor.mk (edit before c) (commandsAfter ⟨before, commands⟩ c) = _
    rw [edit, commandsAfter, if_neg henter, if_neg hback, if_pos ⟨hc.1, hc.2, hroom⟩, if_neg henter]
  · show echoCalls before c = _
    rw [echoCalls, if_neg henter, if_neg hback, if_pos ⟨hc.1, hc.2, hroom⟩]

theorem session_line (line : List UInt8) (hprintable : ∀ c ∈ line, 32 ≤ c ∧ c ≤ 126) :
    ∀ (before : List UInt8) (commands : List Command), before.length + line.length ≤ 127 →
      session.after ⟨before, commands⟩ line = ⟨before ++ line, commands⟩ ∧
        session.output ⟨before, commands⟩ line = textCalls line := by
  induction line with
  | nil =>
    intro before commands _
    rw [List.append_nil]
    exact ⟨rfl, rfl⟩
  | cons c line ih =>
    intro before commands hlength
    obtain ⟨hc, hline⟩ := List.forall_mem_cons.mp hprintable
    rw [List.length_cons] at hlength
    obtain ⟨hnext, hout⟩ := session_char hc (by omega : before.length < 127) commands
    obtain ⟨hlast, hrest⟩ := ih hline (before ++ [c]) commands (by
      rw [List.length_append, List.length_singleton]
      omega)
    rw [Transducer.after_cons, Transducer.output_cons, hnext, hout, hlast, hrest, List.append_assoc]
    exact ⟨rfl, rfl⟩

theorem session_enter (line : List UInt8) (commands : List Command) :
    session.next ⟨line, commands⟩ '\n'.toUInt8 = ⟨[], commands ++ [action line]⟩ := by
  show Editor.mk (edit line _) (commandsAfter ⟨line, commands⟩ _) = _
  rw [edit, commandsAfter, if_pos rfl, if_pos rfl]

theorem session_entered (lines : List (List UInt8)) (h : ∀ line ∈ lines, Enterable line) :
    ∀ commands, session.after ⟨[], commands⟩ (entered lines) = ⟨[], commands ++ lines.map action⟩ ∧
      session.output ⟨[], commands⟩ (entered lines) = lines.flatMap dialogue := by
  induction lines with
  | nil =>
    intro commands
    rw [List.map_nil, List.append_nil]
    exact ⟨rfl, rfl⟩
  | cons line lines ih =>
    intro commands
    obtain ⟨hline, hlines⟩ := List.forall_mem_cons.mp h
    obtain ⟨hlast, hout⟩ := session_line line hline.printable [] commands
      ((Nat.zero_add _).trans_le hline.length_le)
    rw [List.nil_append] at hlast
    obtain ⟨hafter, hrest⟩ := ih hlines (commands ++ [action line])
    have hentered : entered (line :: lines) = line ++ '\n'.toUInt8 :: entered lines := by
      rw [entered, List.flatMap_cons, List.append_assoc]
      rfl
    rw [hentered, Transducer.after_append, Transducer.output_append, hlast, hout,
      Transducer.after_cons, Transducer.output_cons, session_enter, hafter, hrest, List.map_cons,
      List.append_assoc, List.flatMap_cons, dialogue, List.append_assoc]
    exact ⟨rfl, rfl⟩

/-! ## Typed lines -/

/-- However the keystrokes are cut into batches that fit into the queue, `kmain` runs the lines that
were typed, in their order, and what it prints after the greeting is the dialogue of the lines. -/
theorem typed_lines_run (m : Machine) (lines : List (List UInt8))
    (hlines : ∀ line ∈ lines, Enterable line) (batches : List (List UInt8))
    (hbatches : batches.flatten = typing (entered lines)) (hfits : Fits released batches) :
    ∃ m', (kmain batches).run m = .ok ((), m') ∧ m'.handled = m.handled ++ entered lines ∧
      m'.shell.commands = m.shell.commands ++ lines.map action ∧ Holds m'.shell [] ∧
      m'.shell.screen =
        (textCalls greeting ++ lines.flatMap dialogue).foldl Call.after m.shell.screen := by
  obtain ⟨m', hrun, hreached⟩ := kmain_refines m batches
  have hchars : polled.output released batches = entered lines := by
    rw [(polled_eq_iff batches released).mpr hfits, hbatches, decoded_entered hlines]
  obtain ⟨hafter, houtput⟩ := session_entered lines hlines m.shell.commands
  have hshell := hreached.shell
  have hscreen := hreached.screen
  rw [terminal, Transducer.comp_after, hchars, hafter] at hshell
  rw [terminal, Transducer.comp_output, hchars, houtput] at hscreen
  exact ⟨m', hrun, by rw [hreached.handled, hchars], hshell.commands, hshell.holds, hscreen⟩

theorem typed_lines_run_one : ∃ m', (kmain [[0x1E, 0x9E], [0x1C, 0x9C]]).run boot = .ok ((), m') ∧
    m'.handled = boot.handled ++ entered [['a'.toUInt8]] ∧
    m'.shell.commands = boot.shell.commands ++ [['a'.toUInt8]].map action ∧ Holds m'.shell [] ∧
    m'.shell.screen =
      (textCalls greeting ++ [['a'.toUInt8]].flatMap dialogue).foldl Call.after boot.shell.screen := by
  apply typed_lines_run
  · intro line hline
    obtain rfl := List.mem_singleton.mp hline
    refine ⟨by decide, fun c hc => ?_⟩
    rw [List.mem_singleton.mp hc]
    decide
  · decide
  · exact Fold.each_cons.mpr ⟨by decide, Fold.each_cons.mpr ⟨by decide, Fold.each_nil⟩⟩

end EyaX.Shell
