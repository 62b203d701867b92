import EyaX.Console.OnScreen
import EyaX.Lib.Transducer
import EyaX.Shell.Line

/-!
# A session as a transducer

What a user sees of the shell has no buffer and no machine words: a session is a line and the
commands so far, and each character edits the line, perhaps runs it, and makes some calls of the
console. The shell refines it. Its buffer holds the line, and its screen is the one on which all the
calls of the session were made.
-/

namespace EyaX.Shell

open Interrupt Code Console

/-! ## The session -/

structure Editor where
  line : List UInt8
  commands : List Command

/-- The calls that print a text. -/
def textCalls (text : List UInt8) : List Call := text.map Call.printChar

/-- The calls a command makes. -/
def replyCalls : Command → List Call
  | .help => textCalls helpText
  | .clear => [.clear]
  | .version => textCalls (bytes "eyaX kernel beta 0.1\n")
  | .unknown line => textCalls (bytes "Unknown command: " ++ line ++ bytes "\n")
  | .empty => []

/-- What a character makes of the commands. -/
def commandsAfter (e : Editor) (c : UInt8) : List Command :=
  if c = '\n'.toUInt8 then e.commands ++ [action e.line] else e.commands

/-- The calls a character makes. -/
def echoCalls (line : List UInt8) (c : UInt8) : List Call :=
  if c = '\n'.toUInt8 then
    textCalls (bytes "\n") ++ replyCalls (action line) ++ textCalls (bytes "eyaX> ")
  else if c = '\x08'.toUInt8 then
    if line = [] then [] else [.backspace]
  else if 32 ≤ c ∧ c ≤ 126 ∧ line.length < 127 then [.printChar c]
  else []

def session : Transducer Editor UInt8 Call where
  next e c := ⟨edit e.line c, commandsAfter e c⟩
  out e c := echoCalls e.line c

/-! ## The shell refines it -/

theorem foldl_textCalls (text : List UInt8) (screen : Screen) :
    (textCalls text).foldl Call.after screen = screen.afterText text := by
  unfold textCalls Screen.afterText
  rw [List.foldl_map]
  rfl

theorem textCalls_append (text text' : List UInt8) :
    textCalls (text ++ text') = textCalls text ++ textCalls text' := List.map_append

theorem foldl_replyCalls (command : Command) (screen : Screen) :
    (replyCalls command).foldl Call.after screen = reply command screen := by
  cases command with
  | help => exact foldl_textCalls _ screen
  | clear => rfl
  | version => exact foldl_textCalls _ screen
  | unknown line => exact foldl_textCalls _ screen
  | empty => rfl

/-- The shell's state belongs to the session's. -/
structure Follows (s : State) (e : Editor) : Prop where
  holds : Holds s e.line
  commands : s.commands = e.commands

theorem Follows.length_le {s : State} {e : Editor} (h : Follows s e) : s.length.toNat ≤ 127 := by
  rw [h.holds.length]
  exact h.holds.length_le

theorem commands_after {s : State} {e : Editor} (h : Follows s e) (c : UInt8) :
    (s.after c).commands = commandsAfter e c := by
  unfold State.after commandsAfter State.afterBackspace State.afterCharacter
  by_cases henter : c = '\n'.toUInt8
  · rw [if_pos henter, if_pos henter, h.holds.afterEnter.1, h.commands]
  · rw [if_neg henter, if_neg henter]
    split_ifs
    all_goals exact h.commands

theorem screen_after {s : State} {e : Editor} (h : Follows s e) (c : UInt8) :
    (s.after c).screen = (echoCalls e.line c).foldl Call.after s.screen := by
  have hlength := h.holds.length
  unfold State.after echoCalls
  by_cases henter : c = '\n'.toUInt8
  · rw [if_pos henter, if_pos henter, h.holds.afterEnter.2, List.foldl_append, List.foldl_append,
      foldl_textCalls, foldl_replyCalls, foldl_textCalls]
  rw [if_neg henter, if_neg henter]
  by_cases hback : c = '\x08'.toUInt8
  · have hempty : s.length = 0 ↔ e.line = [] := by
      rw [← List.length_eq_zero_iff, ← hlength, ← UInt64.toNat_inj]
      rfl
    rw [if_pos hback, if_pos hback, State.afterBackspace]
    by_cases hline : e.line = []
    · rw [if_pos hline, if_pos (hempty.mpr hline)]
      rfl
    · rw [if_neg hline, if_neg fun he => hline (hempty.mp he)]
      rfl
  rw [if_neg hback, if_neg hback]
  by_cases hc : 32 ≤ c ∧ c ≤ 126
  · have hfull : s.length ≥ 128 - 1 ↔ ¬ e.line.length < 127 := by
      rw [ge_iff_le, UInt64.le_iff_toNat_le, hlength, Nat.not_lt]
      exact Iff.rfl
    rw [if_pos hc, State.afterCharacter]
    by_cases hroom : e.line.length < 127
    · rw [if_neg fun hle => hfull.mp hle hroom, if_pos ⟨hc.1, hc.2, hroom⟩]
      rfl
    · rw [if_pos (hfull.mpr hroom), if_neg fun hall => hroom hall.2.2]
      rfl
  · rw [if_neg hc, if_neg fun hall => hc ⟨hall.1, hall.2.1⟩]
    rfl

theorem refines_session : session.Refines State.after State.screen Call.after Follows where
  related c h := ⟨h.holds.after c, commands_after h c⟩
  view_eq c h := screen_after h c

theorem follows_afterInit (s : State) : Follows s.afterInit ⟨[], s.commands⟩ :=
  ⟨holds_nil rfl, rfl⟩

end EyaX.Shell
