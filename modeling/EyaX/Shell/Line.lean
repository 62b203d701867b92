import EyaX.Shell.Effects

/-!
# The shell runs the edited line

The buffer keeps what earlier lines left in it; the line is its first `eX_ShellLength` bytes. Every
character edits the line as a plain list editor would, and a newline puts the terminator directly
behind the line, so what the comparisons and the reply see is the edited line and nothing else.
-/

namespace EyaX.Shell

open Interrupt Code Console

/-! ## The editor -/

/-- The line after a character. -/
def edit (line : List UInt8) (c : UInt8) : List UInt8 :=
  if c = '\n'.toUInt8 then []
  else if c = '\x08'.toUInt8 then line.dropLast
  else if 32 ≤ c ∧ c ≤ 126 ∧ line.length < 127 then line ++ [c]
  else line

def editedLine (chars : List UInt8) : List UInt8 := chars.foldl edit []

/-- What running a line means. -/
def action (line : List UInt8) : Command :=
  if line = bytes "help" then .help
  else if line = bytes "clear" then .clear
  else if line = bytes "version" then .version
  else if line = [] then .empty
  else .unknown line

/-! ## The buffer holds the line -/

structure Holds (s : State) (line : List UInt8) : Prop where
  length : s.length.toNat = line.length
  length_le : line.length ≤ 127
  buffer : s.buffer.toList.take line.length = line
  printable : ∀ c ∈ line, 32 ≤ c

theorem take_set (l : List UInt8) {n : Nat} (h : n < l.length) (c : UInt8) :
    (l.set n c).take (n + 1) = l.take n ++ [c] := by
  rw [List.set_eq_take_append_cons_drop, if_pos h, List.take_append, List.length_take_of_le h.le,
    List.take_take, Nat.min_eq_right (Nat.le_succ n)]
  simp

section steps

variable {s : State} {line : List UInt8}

theorem Holds.lt_size (h : Holds s line) : s.length.toNat < s.buffer.toList.length := by
  rw [h.length, Vector.length_toList]
  exact Nat.lt_succ_of_le h.length_le

theorem holds_nil {s : State} (h : s.length = 0) : Holds s [] where
  length := by rw [h]; rfl
  length_le := Nat.zero_le _
  buffer := rfl
  printable := fun c hc => absurd hc List.not_mem_nil

theorem Holds.backspace (h : Holds s line) : Holds s.afterBackspace line.dropLast := by
  unfold State.afterBackspace
  by_cases hempty : s.length = 0
  · have hline : line = [] := by
      rw [← List.length_eq_zero_iff, ← h.length, hempty]
      rfl
    rw [if_pos hempty, hline]
    exact holds_nil hempty
  · rw [if_neg hempty]
    have hpred := toNat_pred (one_le_toNat hempty)
    have hlength := h.length
    have hle := h.length_le
    constructor
    · show (s.length - 1).toNat = line.dropLast.length
      rw [hpred, List.length_dropLast, hlength]
    · rw [List.length_dropLast]
      omega
    · show s.buffer.toList.take line.dropLast.length = line.dropLast
      have hcut := congrArg (List.take (line.length - 1)) h.buffer
      rw [List.take_take, Nat.min_eq_left (Nat.sub_le _ _)] at hcut
      rw [List.length_dropLast, List.dropLast_eq_take]
      exact hcut
    · exact fun c hc => h.printable c ((List.dropLast_sublist line).subset hc)

theorem Holds.character (h : Holds s line) {c : UInt8} (hc : 32 ≤ c) :
    Holds (s.afterCharacter c) (if line.length < 127 then line ++ [c] else line) := by
  have hfull : s.length ≥ 128 - 1 ↔ ¬ line.length < 127 := by
    rw [ge_iff_le, UInt64.le_iff_toNat_le, h.length, Nat.not_lt]
    exact Iff.rfl
  unfold State.afterCharacter
  by_cases hroom : line.length < 127
  · rw [if_neg (fun hle => hfull.mp hle hroom), if_pos hroom]
    constructor
    · show (s.length + 1).toNat = (line ++ [c]).length
      rw [toNat_succ (by rw [h.length]; omega), h.length, List.length_append]
      rfl
    · rw [List.length_append, List.length_singleton]
      exact hroom
    · show (s.buffer.setIfInBounds s.length.toNat c).toList.take (line ++ [c]).length = line ++ [c]
      rw [Vector.toList_setIfInBounds, List.length_append, List.length_singleton, h.length,
        take_set _ (h.length ▸ h.lt_size), h.buffer]
    · intro d hd
      rcases List.mem_append.mp hd with hline | hlast
      · exact h.printable d hline
      · rw [List.mem_singleton.mp hlast]
        exact hc
  · rw [if_pos (hfull.mpr hroom), if_neg hroom]
    exact h

theorem Holds.after (h : Holds s line) (c : UInt8) : Holds (s.after c) (edit line c) := by
  unfold State.after edit
  by_cases henter : c = '\n'.toUInt8
  · rw [if_pos henter, if_pos henter]
    exact holds_nil rfl
  rw [if_neg henter, if_neg henter]
  by_cases hback : c = '\x08'.toUInt8
  · rw [if_pos hback, if_pos hback]
    exact h.backspace
  rw [if_neg hback, if_neg hback]
  by_cases hc : 32 ≤ c ∧ c ≤ 126
  · have hcharacter := h.character hc.1
    rw [if_pos hc]
    by_cases hroom : line.length < 127
    · rw [if_pos hroom] at hcharacter
      rw [if_pos ⟨hc.1, hc.2, hroom⟩]
      exact hcharacter
    · rw [if_neg hroom] at hcharacter
      rw [if_neg fun hall => hroom hall.2.2]
      exact hcharacter
  · rw [if_neg hc, if_neg fun hall => hc ⟨hall.1, hall.2.1⟩]
    exact h

end steps

/-! ## The line at a newline -/

/-- The terminator stands directly behind the line, whatever follows it in the buffer. -/
theorem Holds.terminated {s : State} {line : List UInt8} (h : Holds s line) :
    (s.buffer.setIfInBounds s.length.toNat 0).toList.takeWhile (· ≠ 0) = line := by
  have hlt : line.length < s.buffer.toList.length := h.length ▸ h.lt_size
  rw [Vector.toList_setIfInBounds, h.length, List.set_eq_take_append_cons_drop, if_pos hlt,
    h.buffer, List.takeWhile_append_of_pos, List.takeWhile_cons_of_neg (by simp), List.append_nil]
  intro c hc
  have hprintable := h.printable c hc
  apply decide_eq_true
  intro hzero
  rw [hzero] at hprintable
  exact absurd hprintable (by decide)

theorem Holds.afterEnter {s : State} {line : List UInt8} (h : Holds s line) :
    s.afterEnter.commands = s.commands ++ [action line] ∧
      s.afterEnter.screen =
        (reply (action line) (s.screen.afterText (bytes "\n"))).afterText (bytes "eyaX> ") := by
  have hcommand : State.command { s with buffer := s.buffer.setIfInBounds s.length.toNat 0 } =
      action line := by
    have hempty : s.length > 0 ↔ ¬ line = [] := by
      rw [gt_iff_lt, UInt64.lt_iff_toNat_lt, h.length, ← List.length_eq_zero_iff]
      exact Nat.pos_iff_ne_zero
    have hline : State.line { s with buffer := s.buffer.setIfInBounds s.length.toNat 0 } = line :=
      h.terminated
    unfold State.command action
    rw [hline]
    simp only [hempty, ite_not]
  rw [← hcommand]
  exact ⟨rfl, rfl⟩

/-! ## Sequences of characters -/

/-- `eX_Shell_Update` on the characters that the keyboard gives it, in order. -/
def deliver (chars : List UInt8) : Code Stop State Unit :=
  chars.forM fun c => handleChar c.toNat

theorem run_deliver (chars : List UInt8) : ∀ {s : State} {line : List UInt8}, Holds s line →
    (deliver chars).run s = .ok ((), chars.foldl State.after s) ∧
      Holds (chars.foldl State.after s) (chars.foldl edit line) := by
  induction chars with
  | nil => exact fun h => ⟨rfl, h⟩
  | cons c chars ih =>
    intro s line h
    have hlength : s.length.toNat ≤ 127 := by
      rw [h.length]
      exact h.length_le
    obtain ⟨hrun, hholds⟩ := ih (h.after c)
    refine ⟨?_, hholds⟩
    show (handleChar c.toNat >>= fun _ => deliver chars).run s = _
    rw [run_bind (run_handleChar c hlength)]
    exact hrun

/-- After `eX_Shell_Init` the shell ends on every sequence of characters with the edited line at the
beginning of its buffer, and a further newline runs that line: it does what the line means and
begins a new one. -/
theorem shell_runs_editedLine (s : State) (chars : List UInt8) :
    ∃ t u : State,
      (do init; deliver chars : Code Stop State Unit).run s = .ok ((), t) ∧
      t.length.toNat ≤ 127 ∧ t.length.toNat = (editedLine chars).length ∧
      t.buffer.toList.take t.length.toNat = editedLine chars ∧
      (handleChar '\n'.toNat).run t = .ok ((), u) ∧
      u.commands = t.commands ++ [action (editedLine chars)] ∧
      u.screen = (reply (action (editedLine chars))
        (t.screen.afterText (bytes "\n"))).afterText (bytes "eyaX> ") := by
  have hstart : Holds s.afterInit [] := holds_nil rfl
  obtain ⟨hrun, hholds⟩ := run_deliver chars hstart
  have hle : (chars.foldl State.after s.afterInit).length.toNat ≤ 127 := by
    rw [hholds.length]
    exact hholds.length_le
  obtain ⟨hcommands, hscreen⟩ := hholds.afterEnter
  refine ⟨_, _, ?_, hle, hholds.length, ?_, run_handleChar '\n'.toUInt8 hle, hcommands, hscreen⟩
  · rw [run_bind (run_init s)]
    exact hrun
  · rw [hholds.length]
    exact hholds.buffer

end EyaX.Shell
