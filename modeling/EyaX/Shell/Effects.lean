import EyaX.Console.Format
import EyaX.Shell.Basic
import Mathlib.Data.List.TakeWhile

/-!
# What the shell does with a character

While the line has at most 127 characters, every function of the shell ends, and what it leaves is a
function of the state before: the terminated line decides the command, the command decides the
reply, and every path ends with an empty line and a new prompt.
-/

namespace EyaX.Shell

open Interrupt Code Console

/-! ## C strings -/

theorem exists_nul {l : List UInt8} {i : Nat} (h : l[i]? = some 0) :
    ∃ rest, l = l.takeWhile (· ≠ 0) ++ 0 :: rest := by
  have hmem : (0 : UInt8) ∈ l := List.mem_of_getElem? h
  have hsplit := List.takeWhile_append_dropWhile (p := fun c : UInt8 => decide (c ≠ 0)) (l := l)
  cases hdrop : l.dropWhile (· ≠ 0) with
  | nil =>
    have hall := List.dropWhile_eq_nil_iff.mp hdrop 0 hmem
    simp at hall
  | cons c rest =>
    have hc : c = 0 := by
      have hhead := List.head?_dropWhile_not (fun c : UInt8 => decide (c ≠ 0)) l
      rw [hdrop] at hhead
      simpa using hhead
    refine ⟨rest, ?_⟩
    rw [hdrop, hc] at hsplit
    exact hsplit.symm

theorem ne_zero_of_mem_takeWhile {l : List UInt8} {c : UInt8} (h : c ∈ l.takeWhile (· ≠ 0)) :
    c ≠ 0 := by
  simpa using List.mem_takeWhile_imp h

theorem stringEquals_eq {as bs as' bs' : List UInt8} (has : ∀ c ∈ as, c ≠ 0)
    (hbs : ∀ c ∈ bs, c ≠ 0) :
    stringEquals (as ++ 0 :: as') (bs ++ 0 :: bs') = .ok (decide (as = bs)) := by
  induction as generalizing bs with
  | nil =>
    cases bs with
    | nil => rfl
    | cons b bs =>
      have hb : b ≠ 0 := hbs b (by simp)
      rw [List.nil_append, List.cons_append, stringEquals, if_neg (by simp)]
      simp [Ne.symm hb]
  | cons a as ih =>
    have ha : a ≠ 0 := has a (by simp)
    cases bs with
    | nil =>
      rw [List.nil_append, List.cons_append, stringEquals, if_neg (by simp)]
      simp [ha]
    | cons b bs =>
      have hb : b ≠ 0 := hbs b (by simp)
      rw [List.cons_append, List.cons_append, stringEquals, if_pos ⟨ha, hb⟩]
      by_cases hab : a = b
      · rw [if_neg (by simp [hab]), ih (fun c hc => has c (by simp [hc])) fun c hc => hbs c (by simp [hc])]
        simp [hab]
      · rw [if_pos hab]
        simp [hab]

/-! ## The screen below the shell -/

theorem run_onScreen {α : Type} {c : Code Stop Screen α} {s : State} {a : α} {screen : Screen}
    (h : c.run s.screen = .ok (a, screen)) :
    (onScreen c).run s = .ok (a, s.setScreen screen) := by
  unfold onScreen
  apply run_zoom
  · exact fun _ _ => rfl
  · exact fun _ _ _ => rfl
  · exact fun _ => rfl
  · exact h

theorem run_print_text {t : String} (ht : plain (bytes t) = true)
    (screen : Screen) : (print (cString t) []).run screen = .ok ((), screen.afterText (bytes t)) :=
  (print_text ht).run screen

def State.afterText (text : List UInt8) (s : State) : State := s.setScreen (s.screen.afterText text)

theorem run_print {t : String} (ht : plain (bytes t) = true) (s : State) :
    (onScreen (print (cString t) [])).run s = .ok ((), s.afterText (bytes t)) :=
  run_onScreen (run_print_text ht s.screen)

theorem run_store {index : UInt64} (h : index.toNat < 128) (c : UInt8) (s : State) :
    (store index c).run s =
      .ok ((), { s with buffer := s.buffer.setIfInBounds index.toNat c }) := by
  have hset : s.buffer.set index.toNat c h = s.buffer.setIfInBounds index.toNat c := by
    apply Vector.toList_inj.mp
    rw [Vector.toList_set, Vector.toList_setIfInBounds]
  rw [store, dif_pos h, run_modify, hset]

/-! ## Commands -/

/-- The line, up to its terminator. -/
def State.line (s : State) : List UInt8 := s.buffer.toList.takeWhile (· ≠ 0)

/-- The command of a terminated line. -/
def State.command (s : State) : Command :=
  if s.line = bytes "help" then .help
  else if s.line = bytes "clear" then .clear
  else if s.line = bytes "version" then .version
  else if s.length > 0 then .unknown s.line
  else .empty

def helpText : List UInt8 :=
  bytes "Available commands:\n" ++ bytes "  help\n" ++ bytes "  clear\n" ++ bytes "  echo\n" ++
    bytes "  version\n"

/-- What a command does to the screen. -/
def reply : Command → Screen → Screen
  | .help => Screen.afterText helpText
  | .clear => Screen.afterClear
  | .version => Screen.afterText (bytes "eyaX kernel beta 0.1\n")
  | .unknown line => Screen.afterText (bytes "Unknown command: " ++ line ++ bytes "\n")
  | .empty => id

theorem afterText_append (a b : List UInt8) (screen : Screen) :
    screen.afterText (a ++ b) = (screen.afterText a).afterText b :=
  List.foldl_append

theorem State.afterText_append (a b : List UInt8) (s : State) :
    s.afterText (a ++ b) = (s.afterText a).afterText b :=
  congrArg s.setScreen (Shell.afterText_append a b s.screen)

/-- The buffer holds a NUL. -/
def State.Terminated (s : State) : Prop := ∃ rest, s.buffer.toList = s.line ++ 0 :: rest

theorem stringEquals_line {s : State} (hs : s.Terminated) {t : String}
    (ht : plain (bytes t) = true) :
    stringEquals s.buffer.toList (cString t) = .ok (decide (s.line = bytes t)) := by
  obtain ⟨rest, hrest⟩ := hs
  rw [hrest]
  exact stringEquals_eq (fun c hc => ne_zero_of_mem_takeWhile hc) (ne_zero_of_plain ht)

theorem shown_line (s : State) :
    shown 's'.toUInt8 (.pointer (some s.buffer.toList)) = s.line := by
  have htest : (fun c : UInt8 => c != 0) = fun c => decide (c ≠ 0) := by
    funext c
    rw [decide_not]
    rfl
  rw [shown, State.line, htest]

theorem run_unknown {s : State} (hs : s.Terminated) (screen : Screen) :
    (print (cString "Unknown command: %s\n") [.pointer (some s.buffer.toList)]).run screen =
      .ok ((), reply (.unknown s.line) screen) := by
  obtain ⟨rest, hrest⟩ := hs
  have hformat : cString "Unknown command: %s\n" =
      bytes "Unknown command: " ++ '%'.toUInt8 :: 's'.toUInt8 :: (bytes "\n" ++ [0]) := by decide
  have hfront : plain (bytes "Unknown command: ") = true := by decide
  have hback : plain (bytes "\n") = true := by decide
  have hs : takesArgument 's'.toUInt8 = true := by decide
  have hnul : 0 ∈ s.buffer.toList := by
    rw [hrest]
    simp
  have hline : Supplies 's'.toUInt8 (.pointer (some s.buffer.toList)) := by
    rw [Supplies]
    exact ⟨rfl, hnul⟩
  have hprints := print_between hfront hback hs hline
  rw [shown_line, ← List.append_assoc] at hprints
  rw [hformat]
  exact hprints.run screen

theorem run_logCommand (command : Command) (s : State) :
    (logCommand command).run s = .ok ((), { s with commands := s.commands ++ [command] }) := rfl

theorem run_runLine {s : State} (hs : s.Terminated) :
    runLine.run s = .ok ((), { s with
      screen := reply s.command s.screen
      commands := s.commands ++ [s.command] }) := by
  unfold runLine State.command
  rw [run_get_bind, stringEquals_line hs (by decide), stringEquals_line hs (by decide),
    stringEquals_line hs (by decide)]
  simp only [ofExcept_ok, pure_bind_eq, decide_eq_true_eq]
  by_cases hhelp : s.line = bytes "help"
  · rw [if_pos hhelp, if_pos hhelp, run_bind (run_logCommand _ s), run_bind (run_print (by decide) _),
      run_bind (run_print (by decide) _), run_bind (run_print (by decide) _),
      run_bind (run_print (by decide) _), run_print (by decide)]
    rw [← State.afterText_append, ← State.afterText_append, ← State.afterText_append,
      ← State.afterText_append]
    rfl
  rw [if_neg hhelp, if_neg hhelp]
  by_cases hclear : s.line = bytes "clear"
  · rw [if_pos hclear, if_pos hclear, run_bind (run_logCommand _ s), run_onScreen (run_clear _)]
    rfl
  rw [if_neg hclear, if_neg hclear]
  by_cases hversion : s.line = bytes "version"
  · rw [if_pos hversion, if_pos hversion, run_bind (run_logCommand _ s), run_print (by decide)]
    rfl
  rw [if_neg hversion, if_neg hversion]
  by_cases hlength : s.length > 0
  · rw [if_pos hlength, if_pos hlength, run_bind (run_logCommand _ s), run_onScreen (run_unknown hs _)]
    rfl
  · rw [if_neg hlength, if_neg hlength, run_logCommand]
    rfl

/-! ## Characters -/

/-- The newline terminates the line, runs it and begins another. -/
def State.afterEnter (s : State) : State :=
  let line : State := { s with buffer := s.buffer.setIfInBounds s.length.toNat 0 }
  { screen := (reply line.command (s.screen.afterText (bytes "\n"))).afterText (bytes "eyaX> ")
    buffer := line.buffer
    length := 0
    commands := s.commands ++ [line.command] }

def State.afterBackspace (s : State) : State :=
  if s.length = 0 then s
  else { s with screen := s.screen.afterBackspace, length := s.length - 1 }

def State.afterCharacter (c : UInt8) (s : State) : State :=
  if s.length ≥ 128 - 1 then s
  else
    { s with
      screen := s.screen.afterPrintChar c
      buffer := s.buffer.setIfInBounds s.length.toNat c
      length := s.length + 1 }

def State.after (s : State) (c : UInt8) : State :=
  if c = '\n'.toUInt8 then s.afterEnter
  else if c = '\x08'.toUInt8 then s.afterBackspace
  else if 32 ≤ c ∧ c ≤ 126 then s.afterCharacter c
  else s

theorem run_prompt (s : State) : prompt.run s = .ok ((), s.afterText (bytes "eyaX> ")) :=
  run_print (by decide) s

def State.afterInit (s : State) : State :=
  ({ s with length := 0 } : State).afterText (bytes "eyaX> ")

theorem run_init (s : State) : init.run s = .ok ((), s.afterInit) := by
  rw [init, run_modify_bind, run_prompt]
  rfl

theorem run_enter {s : State} (h : s.length.toNat ≤ 127) : enter.run s = .ok ((), s.afterEnter) := by
  have hlt : s.length.toNat < 128 := by omega
  have hnul : (State.afterText (bytes "\n")
      { s with buffer := s.buffer.setIfInBounds s.length.toNat 0 }).Terminated := by
    apply exists_nul (i := s.length.toNat)
    show (s.buffer.setIfInBounds s.length.toNat 0).toList[s.length.toNat]? = some 0
    rw [Vector.toList_setIfInBounds, List.getElem?_set_self (by simpa using hlt)]
  unfold enter
  rw [run_get_bind, run_bind (run_store hlt 0 s), run_bind (run_print (by decide) _),
    run_bind (run_runLine hnul), run_modify_bind, run_prompt]
  rfl

theorem run_backspace {s : State} : backspace.run s = .ok ((), s.afterBackspace) := by
  unfold backspace State.afterBackspace
  rw [run_get_bind]
  by_cases hlength : s.length = 0
  · rw [if_pos hlength, if_pos hlength]
    rfl
  · rw [if_neg hlength, if_neg hlength, run_modify_bind, run_onScreen (Console.run_backspace _)]
    rfl

theorem run_character (c : UInt8) (s : State) :
    (character c).run s = .ok ((), s.afterCharacter c) := by
  unfold character State.afterCharacter
  rw [run_get_bind]
  by_cases hfull : s.length ≥ 128 - 1
  · rw [if_pos hfull, if_pos hfull]
    rfl
  · have hlt : s.length.toNat < 128 := by
      have hlt : s.length.toNat < 127 := UInt64.lt_iff_toNat_lt.mp (UInt64.not_le.mp hfull)
      omega
    rw [if_neg hfull, if_neg hfull, run_bind (run_store hlt c s), run_modify_bind,
      run_onScreen (run_printChar c _)]
    rfl

theorem ofInt_toNat (c : UInt8) : UInt8.ofInt c.toNat = c := by
  have hlt := c.toNat_lt
  unfold UInt8.ofInt
  rw [Int.emod_eq_of_lt (by omega) (by omega), Int.toNat_natCast, UInt8.ofNat_toNat]

theorem run_handleChar (c : UInt8) {s : State} (h : s.length.toNat ≤ 127) :
    (handleChar c.toNat).run s = .ok ((), s.after c) := by
  have hbyte : ∀ b : UInt8, (c.toNat : Int) = b.toNat ↔ c = b := fun b => by
    rw [Int.natCast_inj, UInt8.toNat_inj]
  have hnewline : (c.toNat : Int) = '\n'.toNat ↔ c = '\n'.toUInt8 :=
    hbyte '\n'.toUInt8
  have hbackspace : (c.toNat : Int) = '\x08'.toNat ↔ c = '\x08'.toUInt8 :=
    hbyte '\x08'.toUInt8
  have hprintable : (c.toNat : Int) ≥ 32 ∧ (c.toNat : Int) ≤ 126 ↔ 32 ≤ c ∧ c ≤ 126 := by
    rw [UInt8.le_iff_toNat_le, UInt8.le_iff_toNat_le]
    show _ ↔ 32 ≤ c.toNat ∧ c.toNat ≤ 126
    omega
  unfold handleChar State.after
  simp only [hnewline, hbackspace, hprintable]
  by_cases henter : c = '\n'.toUInt8
  · rw [if_pos henter, if_pos henter, run_enter h]
  rw [if_neg henter, if_neg henter]
  by_cases hback : c = '\x08'.toUInt8
  · rw [if_pos hback, if_pos hback, run_backspace]
  rw [if_neg hback, if_neg hback]
  by_cases hc : 32 ≤ c ∧ c ≤ 126
  · rw [if_pos hc, if_pos hc, ofInt_toNat, run_character]
  · rw [if_neg hc, if_neg hc]
    rfl

theorem length_after (c : UInt8) {s : State} (h : s.length.toNat ≤ 127) :
    (s.after c).length.toNat ≤ 127 := by
  unfold State.after State.afterBackspace State.afterCharacter
  split_ifs with henter hback hempty hc hfull
  · exact Nat.zero_le _
  · exact h
  · show (s.length - 1).toNat ≤ 127
    rw [toNat_pred (one_le_toNat hempty)]
    omega
  · exact h
  · have hlt : s.length.toNat < 127 := UInt64.lt_iff_toNat_lt.mp (UInt64.not_le.mp hfull)
    show (s.length + 1).toNat ≤ 127
    rw [toNat_succ (by omega)]
    exact hlt
  · exact h

end EyaX.Shell
