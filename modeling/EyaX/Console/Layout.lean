import EyaX.Console.Format
import EyaX.Console.Terminal
import Mathlib.Data.List.GetD

/-!
# Texts and their lines

A text printed on a cleared screen stands there as its lines: the character in a column and a row is
that of the line of this number. It stays on the screen exactly when each character with a glyph has
a cell there, and nothing else about the text matters.
-/

namespace EyaX.Console

open Interrupt Code

/-! ## The layout of lines -/

/-- What is seen of a character. -/
def visible (c : UInt8) : UInt8 := if c < 128 then c else ' '.toUInt8

/-- The character that the lines have in a column and a row. -/
def layout (lines : List (List UInt8)) (column row : Nat) : UInt8 :=
  (((lines.getD row [])[column]?).map visible).getD ' '.toUInt8

/-- The characters of a line of this row that have a glyph lie on a screen of this size. -/
def LineFits (width height row first : Nat) (text : List UInt8) : Prop :=
  ∀ i c, text[i]? = some c → c < 128 → 8 * (first + i) + 8 ≤ width ∧ 8 * row + 8 ≤ height

/-- The same for all lines from this row on. -/
def LinesFit (width height first : Nat) (lines : List (List UInt8)) : Prop :=
  ∀ j line, lines[j]? = some line → LineFits width height (first + j) 0 line

/-- The text of some lines. -/
def joined (lines : List (List UInt8)) : List UInt8 := ['\n'.toUInt8].intercalate lines

theorem lineFits_cons {width height row first : Nat} {c : UInt8} {line : List UInt8} :
    LineFits width height row first (c :: line) ↔
      (c < 128 → 8 * first + 8 ≤ width ∧ 8 * row + 8 ≤ height) ∧
        LineFits width height row (first + 1) line := by
  constructor
  · intro h
    refine ⟨fun hc => h 0 c rfl hc, fun i d hd hlt => ?_⟩
    have hcell := h (i + 1) d hd hlt
    rwa [Nat.add_right_comm]
  · rintro ⟨hfirst, hrest⟩ i d hd hlt
    cases i with
    | zero =>
      obtain rfl : c = d := Option.some.inj hd
      exact hfirst hlt
    | succ i =>
      have hcell := hrest i d hd hlt
      rwa [Nat.add_right_comm] at hcell

theorem linesFit_cons {width height first : Nat} {line : List UInt8} {lines : List (List UInt8)} :
    LinesFit width height first (line :: lines) ↔
      LineFits width height first 0 line ∧ LinesFit width height (first + 1) lines := by
  constructor
  · intro h
    refine ⟨h 0 line rfl, fun j l hl => ?_⟩
    have hline := h (j + 1) l hl
    rwa [Nat.add_right_comm]
  · rintro ⟨hline, hlines⟩ j l hl
    cases j with
    | zero =>
      obtain rfl : line = l := Option.some.inj hl
      exact hline
    | succ j =>
      have hrest := hlines j l hl
      rwa [Nat.add_right_comm] at hrest

theorem layout_newline (lines : List (List UInt8)) : layout (lines ++ [[]]) = layout lines := by
  funext column row
  unfold layout
  rcases Nat.lt_trichotomy row lines.length with hlt | rfl | hgt
  · rw [List.getD_append _ _ _ _ hlt]
  · simp
  · rw [List.getD_eq_default _ _ (Nat.le_of_lt hgt), List.getD_eq_default]
    rw [List.length_append]
    exact hgt

theorem layout_char (done : List (List UInt8)) (line : List UInt8) (c : UInt8) (column row : Nat) :
    layout (done ++ [line ++ [c]]) column row =
      if column = line.length ∧ row = done.length then visible c
      else layout (done ++ [line]) column row := by
  unfold layout
  rcases Nat.lt_trichotomy row done.length with hlt | rfl | hgt
  · rw [if_neg fun h => Nat.ne_of_lt hlt h.2, List.getD_append _ _ _ _ hlt,
      List.getD_append _ _ _ _ hlt]
  · by_cases hcolumn : column = line.length
    · simp [hcolumn]
    · rcases Nat.lt_or_gt_of_ne hcolumn with hbefore | hbehind
      · simp [hcolumn, List.getElem?_append_left hbefore]
      · have hnone : (line)[column]? = none := List.getElem?_eq_none (Nat.le_of_lt hbehind)
        have hnone' : (line ++ [c])[column]? = none :=
          List.getElem?_eq_none (by rw [List.length_append]; exact hbehind)
        simp [hcolumn, hnone, hnone']
  · have hlength : ∀ l : List UInt8, (done ++ [l]).length ≤ row := fun l => by
      rw [List.length_append]
      exact hgt
    rw [if_neg fun h => Nat.ne_of_gt hgt h.2, List.getD_eq_default _ _ (hlength _),
      List.getD_eq_default _ _ (hlength _)]

/-! ## The terminal shows the lines -/

/-- The terminal shows some lines and is behind the last of them. -/
structure Lays (done : List (List UInt8)) (line : List UInt8) (t : Terminal) : Prop where
  column : t.column = line.length
  row : t.row = done.length
  cells : t.cells = layout (done ++ [line])

theorem lays_blank : Lays [] [] Terminal.blank := by
  refine ⟨rfl, rfl, ?_⟩
  funext column row
  unfold layout
  cases row with
  | zero => rfl
  | succ row => rfl

namespace Lays

section steps

variable {done : List (List UInt8)} {line : List UInt8} {t : Terminal} (h : Lays done line t)

include h

theorem newline : Lays (done ++ [line]) [] (t.printChar '\n'.toUInt8) := by
  unfold Terminal.printChar
  rw [if_pos rfl]
  refine ⟨rfl, ?_, ?_⟩
  · show t.row + 1 = (done ++ [line]).length
    rw [h.row, List.length_append]
    rfl
  · rw [layout_newline]
    exact h.cells

theorem char {c : UInt8} (hc : c ≠ '\n'.toUInt8) : Lays done (line ++ [c]) (t.printChar c) := by
  have hlength : t.column + 1 = (line ++ [c]).length := by
    rw [h.column, List.length_append]
    rfl
  unfold Terminal.printChar
  rw [if_neg hc]
  by_cases hlt : c < 128
  · rw [if_pos hlt]
    refine ⟨hlength, h.row, ?_⟩
    show (t.put t.column c).cells = _
    funext column row
    rw [layout_char, ← h.column, ← h.row, ← h.cells, visible, if_pos hlt]
    rfl
  · rw [if_neg hlt]
    refine ⟨hlength, h.row, ?_⟩
    show t.cells = _
    funext column row
    -- A character without a glyph leaves its cell as it was: empty, as it lies behind the line.
    have hempty : layout (done ++ [line]) line.length done.length = ' '.toUInt8 := by simp [layout]
    rw [layout_char, visible, if_neg hlt, h.cells]
    split_ifs with hcell
    · rw [hcell.1, hcell.2, hempty]
    · rfl

end steps

theorem text (text : List UInt8) (htext : ∀ c ∈ text, c ≠ '\n'.toUInt8) :
    ∀ {done : List (List UInt8)} {line : List UInt8} {t : Terminal}, Lays done line t →
      Lays done (line ++ text) ((text.map Call.printChar).foldl Terminal.after t) := by
  induction text with
  | nil =>
    intro done line t h
    rw [List.append_nil]
    exact h
  | cons c text ih =>
    intro done line t h
    obtain ⟨hc, hrest⟩ := List.forall_mem_cons.mp htext
    have hlays := ih hrest (h.char hc)
    rwa [List.append_assoc] at hlays

theorem text_fits {width height : Nat} (text : List UInt8) (htext : ∀ c ∈ text, c ≠ '\n'.toUInt8) :
    ∀ {done : List (List UInt8)} {line : List UInt8} {t : Terminal}, Lays done line t →
      (Fold.Each Terminal.after (Terminal.Fits width height) t (text.map Call.printChar) ↔
        LineFits width height done.length line.length text) := by
  induction text with
  | nil => exact fun _ => ⟨fun _ i c hc => by simp at hc, fun _ => Fold.each_nil⟩
  | cons c text ih =>
    intro done line t h
    obtain ⟨hc, hrest⟩ := List.forall_mem_cons.mp htext
    have hlays := ih hrest (h.char hc)
    rw [List.length_append] at hlays
    rw [List.map_cons, Fold.each_cons, lineFits_cons, ← h.column, ← h.row]
    rw [← h.row, ← h.column] at hlays
    refine and_congr ?_ hlays
    exact ⟨fun hfit => hfit hc, fun hfit _ => hfit⟩

end Lays

/-! ## A text and its lines -/

theorem joined_singleton (line : List UInt8) : joined [line] = line := List.intercalate_singleton

theorem joined_cons_cons (line next : List UInt8) (lines : List (List UInt8)) :
    joined (line :: next :: lines) = line ++ '\n'.toUInt8 :: joined (next :: lines) := by
  rw [joined, List.intercalate_cons_cons, List.append_assoc]
  rfl

section lines

variable {width height : Nat}

/-- The text of the lines is laid out line by line, and it fits if each line does. -/
theorem Lays.lines (lines : List (List UInt8)) :
    ∀ {done : List (List UInt8)} {t : Terminal}, Lays done [] t → (hne : lines ≠ []) →
      (∀ line ∈ lines, ∀ c ∈ line, c ≠ '\n'.toUInt8) →
      Lays (done ++ lines.dropLast) (lines.getLast hne)
          (((joined lines).map Call.printChar).foldl Terminal.after t) ∧
        (Fold.Each Terminal.after (Terminal.Fits width height) t
            ((joined lines).map Call.printChar) ↔ LinesFit width height done.length lines) := by
  induction lines with
  | nil => exact fun _ hne => absurd rfl hne
  | cons line lines ih =>
    intro done t h hne hlines
    obtain ⟨hline, hrest⟩ := List.forall_mem_cons.mp hlines
    have hfits :
        Fold.Each Terminal.after (Terminal.Fits width height) t (line.map Call.printChar) ↔
          LineFits width height done.length 0 line := h.text_fits line hline
    cases lines with
    | nil =>
      have hlaid := h.text line hline
      rw [List.nil_append] at hlaid
      rw [joined_singleton, List.dropLast_singleton, List.append_nil]
      refine ⟨hlaid, ?_⟩
      rw [linesFit_cons]
      exact hfits.trans (and_iff_left fun j l hl => by simp at hl).symm
    | cons next lines =>
      have hbegun := (h.text line hline).newline
      rw [List.nil_append] at hbegun
      obtain ⟨hlaid, hrestFits⟩ := ih hbegun (List.cons_ne_nil _ _) hrest
      rw [joined_cons_cons, List.map_append, List.foldl_append, List.map_cons]
      refine ⟨?_, ?_⟩
      · rw [List.append_assoc] at hlaid
        exact hlaid
      · rw [Fold.each_append, Fold.each_cons, linesFit_cons, hfits]
        rw [List.length_append] at hrestFits
        refine and_congr Iff.rfl (Iff.trans ?_ hrestFits)
        exact and_iff_right fun hnewline => absurd rfl hnewline

end lines

/-- The lines of a text. -/
def linesOf (text : List UInt8) : List (List UInt8) := text.splitOn '\n'.toUInt8

theorem linesOf_ne_nil (text : List UInt8) : linesOf text ≠ [] := List.splitOn_ne_nil _ text

theorem joined_linesOf (text : List UInt8) : joined (linesOf text) = text :=
  List.intercalate_splitOn _

theorem linesOf_newline (text : List UInt8) :
    ∀ line ∈ linesOf text, ∀ c ∈ line, c ≠ '\n'.toUInt8 := by
  induction text with
  | nil => simp [linesOf]
  | cons b text ih =>
    unfold linesOf at ih ⊢
    rw [List.splitOn_eq_splitOnP] at ih ⊢
    rw [List.splitOnP_cons_eq_if_modifyHead]
    by_cases hb : b = '\n'.toUInt8
    · rw [if_pos (beq_iff_eq.mpr hb)]
      exact List.forall_mem_cons.mpr ⟨by simp, ih⟩
    · rw [if_neg (mt beq_iff_eq.mp hb)]
      obtain ⟨first, rest, hsplit⟩ := List.exists_cons_of_ne_nil
        (List.splitOnP_ne_nil (· == '\n'.toUInt8) text)
      rw [hsplit] at ih ⊢
      obtain ⟨hfirst, hrest⟩ := List.forall_mem_cons.mp ih
      exact List.forall_mem_cons.mpr ⟨List.forall_mem_cons.mpr ⟨hb, hfirst⟩, hrest⟩

/-! ## What a text leaves on a cleared screen -/

/-- The screen displays the text, and the cursor is behind its last line. -/
structure Displays (s : Screen) (text : List UInt8) : Prop where
  column : s.cursorX.toNat = ((linesOf text).getLast (linesOf_ne_nil text)).length
  row : s.cursorY.toNat = (linesOf text).length - 1
  pixels : Paints s (layout (linesOf text))

theorem lays_text (text : List UInt8) (width height : Nat) :
    Lays (linesOf text).dropLast ((linesOf text).getLast (linesOf_ne_nil text))
        ((text.map Call.printChar).foldl Terminal.after Terminal.blank) ∧
      (Fold.Each Terminal.after (Terminal.Fits width height) Terminal.blank
        (text.map Call.printChar) ↔ LinesFit width height 0 (linesOf text)) := by
  obtain ⟨hlays, hfits⟩ := lays_blank.lines (linesOf text) (linesOf_ne_nil text)
    (linesOf_newline text)
  rw [joined_linesOf] at hlays hfits
  exact ⟨hlays, hfits⟩

section display

variable {s : Screen} {text : List UInt8} (hlength : text.length < 2 ^ 61)

include hlength

/-- What a text plots stays on the screen exactly when its lines fit on it. -/
theorem exists_drawn_text (s : Screen) :
    ∃ drawn, (s.afterClear.afterText text).plots = s.plots ++ drawn ∧
      ((∀ p ∈ drawn, s.Visible p) ↔ LinesFit s.width.toNat s.height.toNat 0 (linesOf text)) := by
  have hbound : 0 + (text.map Call.printChar).length < 2 ^ 61 := by
    rwa [Nat.zero_add, List.length_map]
  have hwidth : s.afterClear.width = s.width := Call.width_after s .clear
  have hheight : s.afterClear.height = s.height := Call.height_after s .clear
  have hcleared : s.afterClear.plots = s.plots := by
    rw [show s.afterClear.plots = s.plots ++ [] from Call.plots_after s .clear, List.append_nil]
  have hallFit := (renders_clear s).toPlaced.allFit_iff _ hbound hbound
  rw [hwidth, hheight, (lays_text text _ _).2] at hallFit
  obtain ⟨drawn, hplots, hdrawn⟩ := exists_drawn (text.map Call.printChar) s.afterClear
  refine ⟨drawn, ?_, ?_⟩
  · rw [← hcleared, ← hplots, List.foldl_map]
    rfl
  · rw [← hallFit, ← hdrawn]
    unfold Screen.Visible
    rw [hwidth, hheight]

theorem displays_text (h : Addressable s)
    (hfit : LinesFit s.width.toNat s.height.toNat 0 (linesOf text)) :
    Displays (s.afterClear.afterText text) text := by
  obtain ⟨hlays, hfits⟩ := lays_text text s.width.toNat s.height.toNat
  have hlength' : (text.map Call.printChar).length < 2 ^ 61 := by rwa [List.length_map]
  have hrenders := renders_of_fits h hlength' (hfits.mpr hfit)
  rw [List.foldl_map] at hrenders
  refine ⟨hrenders.column.trans hlays.column, hrenders.row.trans ?_, ?_⟩
  · rw [hlays.row, List.length_dropLast]
  · have hpixels := hrenders.pixels
    rw [hlays.cells, List.dropLast_append_getLast] at hpixels
    exact hpixels

end display

/-- A format that is given its arguments, and whose trailing `%` pair off, prints its expansion onto
a cleared screen: nothing is written beside the screen exactly when the lines of the expansion fit
on it, and then the pixels of the screen are those of the lines. -/
theorem print_displays (s : Screen) (h : Addressable s) (hplots : s.plots = [])
    (text rest : List UInt8) (args more : List Argument) (hnul : ∀ c ∈ text, c ≠ 0)
    (hargs : SuppliesAll text args) (heven : Even (trailing text))
    (hlength : (expand text args).length < 2 ^ 61) :
    ∃ s', (do
      clear
      print (text ++ 0 :: rest) (args ++ more)).run s = .ok ((), s') ∧
      ((∀ p ∈ s'.plots, s.Visible p) ↔
        LinesFit s.width.toNat s.height.toNat 0 (linesOf (expand text args))) ∧
      (LinesFit s.width.toNat s.height.toNat 0 (linesOf (expand text args)) →
        Displays s' (expand text args)) := by
  obtain ⟨drawn, hdrawn, hvisible⟩ := exists_drawn_text hlength s
  rw [hplots, List.nil_append] at hdrawn
  refine ⟨s.afterClear.afterText (expand text args), ?_, ?_, displays_text hlength h⟩
  · rw [run_bind (run_clear s), print_prints hnul hargs heven rest more]
    exact run_text _ _
  · rw [hdrawn]
    exact hvisible

theorem print_displays_percent_d : ∃ s', (do
    clear
    print (bytes "%d" ++ 0 :: []) ([Argument.word 7] ++ [])).run (blank 8 8 32) = .ok ((), s') ∧
    ((∀ p ∈ s'.plots, (blank 8 8 32).Visible p) ↔
      LinesFit 8 8 0 (linesOf (expand (bytes "%d") [Argument.word 7]))) ∧
    (LinesFit 8 8 0 (linesOf (expand (bytes "%d") [Argument.word 7])) →
      Displays s' (expand (bytes "%d") [Argument.word 7])) := by
  apply print_displays (blank 8 8 32) ⟨by decide, by decide⟩ rfl
  · exact ne_zero_of_all rfl
  · exact List.Forall₂.cons (show 'd'.toUInt8 ≠ 's'.toUInt8 by decide) List.Forall₂.nil
  · exact ⟨0, by decide⟩
  · decide

end EyaX.Console
