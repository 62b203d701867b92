import EyaX.Console.OnScreen
import EyaX.Shell.Effects

/-!
# The cursor and the line

The shell counts the characters of its line, the console counts columns. Each buffered character was
drawn into the cell beside the previous one, the first beside the prompt, and the cursor is beside
the last; every path through the shell keeps this.
-/

namespace EyaX.Shell

open Interrupt Code Console

/-! ## Columns -/

/-- The column after a text. -/
def columnAfter (column : UInt64) (text : List UInt8) : UInt64 :=
  text.foldl (fun column c => if c = '\n'.toUInt8 then 0 else column + 1) column

theorem cursorX_afterPrintChar (c : UInt8) (screen : Screen) :
    (screen.afterPrintChar c).cursorX = if c = '\n'.toUInt8 then 0 else screen.cursorX + 1 := by
  unfold Screen.afterPrintChar
  split_ifs
  · rfl
  · rfl

theorem cursorX_afterText (text : List UInt8) :
    ∀ screen : Screen, (screen.afterText text).cursorX = columnAfter screen.cursorX text := by
  induction text with
  | nil => exact fun screen => rfl
  | cons c text ih =>
    intro screen
    show ((screen.afterPrintChar c).afterText text).cursorX = _
    rw [ih, cursorX_afterPrintChar]
    rfl

theorem columnAfter_newline (column : UInt64) (text : List UInt8) :
    columnAfter column (text ++ bytes "\n") = 0 := by
  unfold columnAfter
  rw [List.foldl_append]
  rfl

theorem cursorX_reply (command : Command) {screen : Screen} (h : screen.cursorX = 0) :
    (reply command screen).cursorX = 0 := by
  cases command with
  | help =>
    show (screen.afterText helpText).cursorX = 0
    rw [cursorX_afterText, h]
    decide
  | clear => rfl
  | version =>
    show (screen.afterText (bytes "eyaX kernel beta 0.1\n")).cursorX = 0
    rw [cursorX_afterText, h]
    decide
  | unknown line =>
    show (screen.afterText _).cursorX = 0
    rw [cursorX_afterText, columnAfter_newline]
  | empty => exact h

theorem cursorX_afterEnter (s : State) : s.afterEnter.screen.cursorX = 6 := by
  have hnewline : (s.screen.afterText (bytes "\n")).cursorX = 0 := by
    rw [cursorX_afterText]
    exact columnAfter_newline _ []
  unfold State.afterEnter
  rw [cursorX_afterText, cursorX_reply _ hnewline]
  decide

theorem cursorX_afterInit {s : State} (h : s.screen.cursorX = 0) :
    s.afterInit.screen.cursorX = 6 := by
  show (s.screen.afterText (bytes "eyaX> ")).cursorX = 6
  rw [cursorX_afterText, h]
  decide

/-! ## Cells -/

/-- The positions of a list of pixels. -/
def positions (l : List Plot) : List (UInt64 × UInt64) := l.map fun p => (p.x, p.y)

/-- The positions of the cell of a column and a row. -/
def cellAt (column row : UInt64) : List (UInt64 × UInt64) :=
  (List.range 8).flatMap fun i =>
    (List.range 8).map fun j =>
      (column * charWidth + UInt64.ofNat j, row * charHeight + UInt64.ofNat i)

theorem positions_cell {c : UInt8} (hc : c < 128) (screen : Screen) (column row : UInt64) :
    positions (screen.cell c (column * charWidth) (row * charHeight)) = cellAt column row := by
  unfold positions Screen.cell cellAt
  rw [if_neg (UInt8.not_le.mpr hc), List.map_flatMap]
  congr 1

/-- What was plotted since `s`. -/
def plotted (s s' : State) : List Plot := s'.screen.plots.drop s.screen.plots.length

/-- The cells into which the characters of the line were drawn, the last one first, after the shell
handled `c` between `s` and `s'`. -/
def echoed (c : UInt8) (s s' : State) (cells : List (List (UInt64 × UInt64))) :
    List (List (UInt64 × UInt64)) :=
  if c = '\n'.toUInt8 then []
  else if c = '\x08'.toUInt8 then cells.tail
  else if s.length < s'.length then positions (plotted s s') :: cells
  else cells

/-- The cells of a line of `n` characters in a row, the last one first. -/
def lineCells (row : UInt64) : Nat → List (List (UInt64 × UInt64))
  | 0 => []
  | n + 1 => cellAt (6 + UInt64.ofNat n) row :: lineCells row n

structure InStep (s : State) (cells : List (List (UInt64 × UInt64))) : Prop where
  length_le : s.length.toNat ≤ 127
  cursor : s.screen.cursorX = 6 + s.length
  cells : cells = lineCells s.screen.cursorY s.length.toNat

theorem inStep_afterInit {s : State} (h : s.screen.cursorX = 0) : InStep s.afterInit [] where
  length_le := Nat.zero_le _
  cursor := cursorX_afterInit h
  cells := rfl

theorem inStep_afterEnter (s : State) : InStep s.afterEnter [] where
  length_le := Nat.zero_le _
  cursor := cursorX_afterEnter s
  cells := rfl

/-! ## One character -/

theorem plotted_eq {s s' : State} {l : List Plot} (h : s'.screen.plots = s.screen.plots ++ l) :
    plotted s s' = l := by
  unfold plotted
  rw [h, List.drop_left]

theorem afterPrintChar_draws {c : UInt8} (hc : c ≠ '\n'.toUInt8) (screen : Screen) :
    (screen.afterPrintChar c).plots =
        screen.plots ++ screen.cell c (screen.cursorX * charWidth) (screen.cursorY * charHeight) ∧
      (screen.afterPrintChar c).cursorY = screen.cursorY := by
  constructor
  · rw [show screen.afterPrintChar c = (Call.printChar c).after screen from rfl, Call.plots_after,
      Call.plots, if_neg hc]
  · unfold Screen.afterPrintChar
    rw [if_neg hc]
    exact Screen.putAll_cursorY screen _

theorem afterBackspace_erases {screen : Screen} (hx : screen.cursorX ≠ 0) :
    screen.afterBackspace.plots = screen.plots ++
        screen.cell ' '.toUInt8 ((screen.cursorX - 1) * charWidth) (screen.cursorY * charHeight) ∧
      screen.afterBackspace.cursorX = screen.cursorX - 1 ∧
      screen.afterBackspace.cursorY = screen.cursorY := by
  refine ⟨?_, ?_, ?_⟩
  · rw [show screen.afterBackspace = Call.backspace.after screen from rfl, Call.plots_after,
      Call.plots, if_neg hx]
  · unfold Screen.afterBackspace
    rw [if_neg hx]
    exact Screen.putAll_cursorX _ _
  · unfold Screen.afterBackspace
    rw [if_neg hx]
    exact Screen.putAll_cursorY _ _

theorem InStep.character {s : State} {cells : List (List (UInt64 × UInt64))} (h : InStep s cells)
    {c : UInt8} (hprintable : 32 ≤ c ∧ c ≤ 126) :
    InStep (s.afterCharacter c)
      (if s.length < (s.afterCharacter c).length then positions (plotted s (s.afterCharacter c)) :: cells
        else cells) := by
  have hnewline : c ≠ '\n'.toUInt8 := fun he => by
    rw [he] at hprintable
    exact absurd hprintable.1 (by decide)
  have hascii : c < 128 := UInt8.lt_of_le_of_lt hprintable.2 (by decide)
  by_cases hfull : s.length ≥ 128 - 1
  · have hsame : s.afterCharacter c = s := if_pos hfull
    rw [hsame, if_neg (UInt64.lt_irrefl _)]
    exact h
  · have hlt : s.length.toNat < 127 := UInt64.lt_iff_toNat_lt.mp (UInt64.not_le.mp hfull)
    obtain ⟨hplots, hrow⟩ := afterPrintChar_draws hnewline s.screen
    have hafter : s.afterCharacter c =
        { s with
          screen := s.screen.afterPrintChar c
          buffer := s.buffer.setIfInBounds s.length.toNat c
          length := s.length + 1 } := if_neg hfull
    have hsucc : (s.length + 1).toNat = s.length.toNat + 1 := toNat_succ (by omega)
    have hgrows : s.length < s.length + 1 := by
      rw [UInt64.lt_iff_toNat_lt, hsucc]
      omega
    rw [hafter, if_pos hgrows]
    refine ⟨?_, ?_, ?_⟩
    · show (s.length + 1).toNat ≤ 127
      omega
    · show (s.screen.afterPrintChar c).cursorX = 6 + (s.length + 1)
      rw [cursorX_afterPrintChar, if_neg hnewline, h.cursor, UInt64.add_assoc]
    · show _ = lineCells (s.screen.afterPrintChar c).cursorY (s.length + 1).toNat
      rw [plotted_eq hplots, positions_cell hascii, h.cursor, h.cells, hrow, hsucc, lineCells,
        UInt64.ofNat_toNat]

/-- The cell before the cursor is the one of the last character of the line. -/
theorem InStep.before_cursor {s : State} {cells : List (List (UInt64 × UInt64))} (h : InStep s cells)
    (hne : s.length ≠ 0) :
    s.screen.cursorX ≠ 0 ∧ s.screen.cursorX - 1 = 6 + (s.length - 1) ∧
      cells = cellAt (s.screen.cursorX - 1) s.screen.cursorY ::
        lineCells s.screen.cursorY (s.length - 1).toNat := by
  have hlength := h.length_le
  have hpred := toNat_pred (one_le_toNat hne)
  have hn : s.length.toNat = (s.length - 1).toNat + 1 := by
    have hpos := one_le_toNat hne
    omega
  have hcursor : s.screen.cursorX - 1 = 6 + (s.length - 1) := by
    rw [h.cursor]
    grind
  refine ⟨fun he => ?_, hcursor, ?_⟩
  · have hsum : (6 + s.length).toNat = 0 := by rw [← h.cursor, he]; rfl
    rw [UInt64.toNat_add] at hsum
    change (6 + s.length.toNat) % 2 ^ 64 = 0 at hsum
    omega
  · rw [h.cells, hn, lineCells, hcursor, UInt64.ofNat_toNat]

/-- What a backspace does to the screen: the cell of the last character becomes background, or
nothing happens. -/
theorem InStep.backspace {s : State} {cells : List (List (UInt64 × UInt64))} (h : InStep s cells) :
    InStep s.afterBackspace cells.tail ∧
      positions (plotted s s.afterBackspace) = cells.headD [] ∧
      ∀ p ∈ plotted s s.afterBackspace, p.color = s.screen.background := by
  by_cases hempty : s.length = 0
  · have hsame : s.afterBackspace = s := if_pos hempty
    have hcells : cells = [] := by
      rw [h.cells, hempty]
      rfl
    have hplotted : plotted s s = [] := plotted_eq (List.append_nil _).symm
    subst hcells
    rw [hsame, hplotted]
    exact ⟨h, rfl, fun p hp => absurd hp List.not_mem_nil⟩
  · obtain ⟨hx, hcursor, hsplit⟩ := h.before_cursor hempty
    obtain ⟨hplots, hcolumn, hrow⟩ := afterBackspace_erases hx
    have hafter : s.afterBackspace =
        { s with screen := s.screen.afterBackspace, length := s.length - 1 } := if_neg hempty
    have hplotted : plotted s s.afterBackspace = _ := plotted_eq (by rw [hafter]; exact hplots)
    rw [hplotted, hsplit]
    refine ⟨?_, ?_, color_space s.screen _ _⟩
    · rw [hafter]
      refine ⟨?_, ?_, ?_⟩
      · show (s.length - 1).toNat ≤ 127
        have hlength := h.length_le
        rw [toNat_pred (one_le_toNat hempty)]
        omega
      · exact hcolumn.trans hcursor
      · show lineCells s.screen.cursorY _ = lineCells s.screen.afterBackspace.cursorY _
        rw [hrow]
    · exact positions_cell (by decide) s.screen _ _

theorem InStep.after {s : State} {cells : List (List (UInt64 × UInt64))} (h : InStep s cells)
    (c : UInt8) : InStep (s.after c) (echoed c s (s.after c) cells) := by
  unfold echoed State.after
  by_cases henter : c = '\n'.toUInt8
  · rw [if_pos henter, if_pos henter]
    exact inStep_afterEnter s
  rw [if_neg henter, if_neg henter]
  by_cases hback : c = '\x08'.toUInt8
  · rw [if_pos hback, if_pos hback]
    exact h.backspace.1
  rw [if_neg hback, if_neg hback]
  by_cases hc : 32 ≤ c ∧ c ≤ 126
  · rw [if_pos hc]
    exact h.character hc
  · rw [if_neg hc, if_neg (UInt64.lt_irrefl _)]
    exact h

end EyaX.Shell
