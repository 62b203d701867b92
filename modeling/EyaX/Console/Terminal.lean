import EyaX.Console.Undo

/-!
# The console as a grid of characters

What the console is for needs no pixels: a terminal is a grid of characters and a cursor. On a
framebuffer whose rows do not run into each other, the pixels of the screen are at any time the
glyphs of the terminal's characters, as long as every call that draws finds its cell on the screen.
-/

namespace EyaX.Console

open Interrupt Code

/-! ## The terminal -/

structure Terminal where
  /-- The character in a column and a row. -/
  cells : Nat → Nat → UInt8
  column : Nat
  row : Nat

namespace Terminal

def blank : Terminal := ⟨fun _ _ => ' '.toUInt8, 0, 0⟩

def put (column : Nat) (c : UInt8) (t : Terminal) : Terminal :=
  { t with cells := fun i j => if i = column ∧ j = t.row then c else t.cells i j }

/-- There are no glyphs from 128 on, but the cursor moves all the same. -/
def printChar (c : UInt8) (t : Terminal) : Terminal :=
  if c = '\n'.toUInt8 then { t with column := 0, row := t.row + 1 }
  else { (if c < 128 then t.put t.column c else t) with column := t.column + 1 }

def backspace (t : Terminal) : Terminal :=
  if t.column = 0 then t else { t.put (t.column - 1) ' '.toUInt8 with column := t.column - 1 }

def after (t : Terminal) : Call → Terminal
  | .printChar c => t.printChar c
  | .backspace => t.backspace
  | .clear => blank

/-- If the call draws, the cell it draws into lies on a screen of this size. -/
def Fits (width height : Nat) (t : Terminal) : Call → Prop
  | .printChar c =>
    c ≠ '\n'.toUInt8 → c < 128 → 8 * t.column + 8 ≤ width ∧ 8 * t.row + 8 ≤ height
  | .backspace => t.column ≠ 0 → 8 * (t.column - 1) + 8 ≤ width ∧ 8 * t.row + 8 ≤ height
  | .clear => True

theorem after_le (t : Terminal) (call : Call) :
    (t.after call).column ≤ t.column + 1 ∧ (t.after call).row ≤ t.row + 1 := by
  cases call with
  | printChar c =>
    show (t.printChar c).column ≤ t.column + 1 ∧ (t.printChar c).row ≤ t.row + 1
    unfold printChar
    by_cases hc : c = '\n'.toUInt8
    · simp [hc]
    · by_cases hlt : c < 128
      · simp [hc, hlt, put]
      · simp [hc, hlt]
  | backspace =>
    show t.backspace.column ≤ t.column + 1 ∧ t.backspace.row ≤ t.row + 1
    unfold backspace
    by_cases hx : t.column = 0
    · simp [hx]
    · rw [if_neg hx]
      show t.column - 1 ≤ t.column + 1 ∧ t.row ≤ t.row + 1
      omega
  | clear => exact ⟨Nat.zero_le _, Nat.zero_le _⟩

end Terminal

/-! ## The cursor -/

theorem toNat_mul_charWidth {column : UInt64} (h : column.toNat < 2 ^ 61) :
    (column * charWidth).toNat = 8 * column.toNat := by
  rw [UInt64.toNat_mul]
  show column.toNat * 8 % 2 ^ 64 = _
  omega

/-- The cursors agree. -/
structure Placed (s : Screen) (t : Terminal) : Prop where
  column : s.cursorX.toNat = t.column
  row : s.cursorY.toNat = t.row

namespace Placed

section one

variable {s : Screen} {t : Terminal} (h : Placed s t) (hcolumn : t.column < 2 ^ 61)
  (hrow : t.row < 2 ^ 61)

include h

theorem zero_iff : s.cursorX = 0 ↔ t.column = 0 := by
  rw [← h.column, ← UInt64.toNat_inj]
  rfl

include hcolumn hrow

theorem printChar (c : UInt8) : Placed (s.afterPrintChar c) (t.printChar c) := by
  unfold Screen.afterPrintChar Terminal.printChar
  by_cases hc : c = '\n'.toUInt8
  · rw [if_pos hc, if_pos hc]
    refine ⟨rfl, ?_⟩
    show (s.cursorY + 1).toNat = t.row + 1
    rw [toNat_succ (by rw [h.row]; omega), h.row]
  · have hmoved : (s.cursorX + 1).toNat = t.column + 1 := by
      rw [toNat_succ (by rw [h.column]; omega), h.column]
    have hsame : (s.drawAtCursor c).cursorY.toNat = t.row :=
      (congrArg UInt64.toNat (Screen.putAll_cursorY s _)).trans h.row
    rw [if_neg hc, if_neg hc]
    by_cases hlt : c < 128
    · rw [if_pos hlt]
      exact ⟨hmoved, hsame⟩
    · rw [if_neg hlt]
      exact ⟨hmoved, hsame⟩

omit hcolumn hrow in
theorem backspace : Placed s.afterBackspace t.backspace := by
  unfold Screen.afterBackspace Terminal.backspace
  by_cases hx : s.cursorX = 0
  · rw [if_pos hx, if_pos (h.zero_iff.mp hx)]
    exact h
  · rw [if_neg hx, if_neg (mt h.zero_iff.mpr hx)]
    obtain ⟨u, hu⟩ : ∃ u : Screen, u = { s with cursorX := s.cursorX - 1 } := ⟨_, rfl⟩
    have hcolumn : u.cursorX.toNat = t.column - 1 := by
      rw [hu, ← h.column]
      exact toNat_pred (one_le_toNat hx)
    have hrow : u.cursorY.toNat = t.row := hu ▸ h.row
    rw [← hu]
    exact ⟨(congrArg UInt64.toNat (Screen.putAll_cursorX u _)).trans hcolumn,
      (congrArg UInt64.toNat (Screen.putAll_cursorY u _)).trans hrow⟩

theorem after (call : Call) : Placed (call.after s) (t.after call) := by
  cases call with
  | printChar c => exact h.printChar hcolumn hrow c
  | backspace => exact h.backspace
  | clear => exact ⟨rfl, rfl⟩

theorem fits_iff (call : Call) :
    call.Fits s ↔ t.Fits s.width.toNat s.height.toNat call := by
  have hcell : ∀ column : UInt64, column.toNat < 2 ^ 61 →
      (s.HasCell column s.cursorY ↔
        8 * column.toNat + 8 ≤ s.width.toNat ∧ 8 * t.row + 8 ≤ s.height.toNat) := by
    intro column hlt
    have hx : (column * charWidth).toNat = 8 * column.toNat := toNat_mul_charWidth hlt
    have hy : (s.cursorY * charHeight).toNat = 8 * t.row := by
      rw [← h.row]
      exact toNat_mul_charWidth (h.row ▸ hrow)
    unfold Screen.HasCell
    rw [hx, hy]
  cases call with
  | printChar c =>
    unfold Call.Fits Terminal.Fits
    dsimp only
    rw [hcell _ (h.column ▸ hcolumn), h.column]
  | backspace =>
    unfold Call.Fits Terminal.Fits
    dsimp only
    rw [ne_eq, h.zero_iff]
    refine forall_congr' fun hx => ?_
    have hpred : (s.cursorX - 1).toNat = t.column - 1 := by
      rw [toNat_pred (one_le_toNat (mt h.zero_iff.mp hx)), h.column]
    rw [hcell _ (by omega), hpred]
  | clear => exact Iff.rfl

end one

theorem allFit_iff (calls : List Call) :
    ∀ {s : Screen} {t : Terminal}, Placed s t →
      t.column + calls.length < 2 ^ 61 → t.row + calls.length < 2 ^ 61 →
      (AllFit s calls ↔
        Fold.Each Terminal.after (Terminal.Fits s.width.toNat s.height.toNat) t calls) := by
  induction calls with
  | nil => exact fun _ _ _ => ⟨fun _ => Fold.each_nil, fun _ => Fold.each_nil⟩
  | cons call calls ih =>
    intro s t h hcolumn hrow
    rw [List.length_cons] at hcolumn hrow
    have hcolumn' : t.column < 2 ^ 61 := by omega
    have hrow' : t.row < 2 ^ 61 := by omega
    obtain ⟨hmoved, hdown⟩ := t.after_le call
    rw [AllFit, Fold.each_cons, Fold.each_cons, h.fits_iff hcolumn' hrow' call]
    have hrest := ih (h.after hcolumn' hrow' call) (by omega) (by omega)
    rw [AllFit, Call.width_after, Call.height_after] at hrest
    rw [hrest]

end Placed

/-! ## Visible pixels -/

/-- The rows of the framebuffer do not run into each other and all of it can be indexed. -/
structure Addressable (s : Screen) : Prop where
  pitch : 4 * s.width.toNat ≤ s.pitch.toNat
  size : s.height.toNat * (s.pitch.toNat / 4) ≤ 2 ^ 64

/-- The colour of a visible pixel. -/
def Screen.pixelAt (s : Screen) (x y : Nat) : UInt32 :=
  s.pixels (s.index (UInt64.ofNat x) (UInt64.ofNat y))

/-- The pixel is on the screen. -/
structure Shown (s : Screen) (x y : Nat) : Prop where
  x_lt : x < s.width.toNat
  y_lt : y < s.height.toNat

section indices

variable {s : Screen} (h : Addressable s) {x y : Nat} (hp : Shown s x y)

include h hp

theorem index_toNat : (s.index (UInt64.ofNat x) (UInt64.ofNat y)).toNat =
    y * (s.pitch.toNat / 4) + x := by
  have hx : x < s.pitch.toNat / 4 := by
    have hlt := hp.x_lt
    have hpitch := h.pitch
    omega
  have hrow : (y + 1) * (s.pitch.toNat / 4) ≤ s.height.toNat * (s.pitch.toNat / 4) :=
    Nat.mul_le_mul_right _ hp.y_lt
  rw [Nat.succ_mul] at hrow
  have hsize := h.size
  have hx' : (UInt64.ofNat x).toNat = x := toNat_ofNat (Nat.lt_trans hp.x_lt s.width.toNat_lt)
  have hy' : (UInt64.ofNat y).toNat = y := toNat_ofNat (Nat.lt_trans hp.y_lt s.height.toNat_lt)
  have hpitch : (s.pitch / 4).toNat = s.pitch.toNat / 4 := UInt64.toNat_div _ _
  unfold Screen.index
  rw [UInt64.toNat_add, UInt64.toNat_mul, hx', hy', hpitch, Nat.mod_eq_of_lt (by omega),
    Nat.mod_eq_of_lt (by omega)]

theorem index_inj {x' y' : Nat} (hp' : Shown s x' y')
    (heq : s.index (UInt64.ofNat x) (UInt64.ofNat y) = s.index (UInt64.ofNat x') (UInt64.ofNat y')) :
    x = x' ∧ y = y' := by
  have hindex := congrArg UInt64.toNat heq
  rw [index_toNat h hp, index_toNat h hp'] at hindex
  have hpitch := h.pitch
  have hx := hp.x_lt
  have hx' := hp'.x_lt
  have hpos : 0 < s.pitch.toNat / 4 := by omega
  have hmod := congrArg (· % (s.pitch.toNat / 4)) hindex
  have hdiv := congrArg (· / (s.pitch.toNat / 4)) hindex
  simp only [Nat.mul_comm _ (s.pitch.toNat / 4), Nat.mul_add_mod, Nat.mul_add_div hpos] at hmod hdiv
  rw [Nat.mod_eq_of_lt (by omega), Nat.mod_eq_of_lt (by omega)] at hmod
  rw [Nat.div_eq_of_lt (by omega), Nat.div_eq_of_lt (by omega)] at hdiv
  exact ⟨hmod, by simpa using hdiv⟩

end indices

/-! ## Drawing a cell -/

theorem Screen.putAll_pixels_of_index {color : UInt32} {p : UInt64} {l : List Plot} :
    ∀ {s : Screen}, (∀ q ∈ l, s.index q.x q.y = p → q.color = color) →
      (∃ q ∈ l, s.index q.x q.y = p) → (s.putAll l).pixels p = color := by
  induction l with
  | nil => simp
  | cons q l ih =>
    intro s hcolor h
    obtain ⟨hq, hl⟩ := List.forall_mem_cons.mp hcolor
    by_cases hlater : ∃ r ∈ l, s.index r.x r.y = p
    · exact ih (s := s.put q) hl hlater
    · have hplotted : s.index q.x q.y = p := by
        obtain ⟨r, hr, hrp⟩ := h
        rcases List.mem_cons.mp hr with rfl | hmem
        · exact hrp
        · exact absurd ⟨r, hmem, hrp⟩ hlater
      have hrest : ((s.put q).putAll l).pixels p = (s.put q).pixels p :=
        Screen.putAll_pixels_of_ne fun r hr hrp => hlater ⟨r, hr, hrp⟩
      show ((s.put q).putAll l).pixels p = color
      rw [hrest, ← hq hplotted, ← hplotted]
      exact Function.update_self _ _ _

section cell

variable {s : Screen} (h : Addressable s) {column row : UInt64} (hcolumn : column.toNat < 2 ^ 61)
  (hrow : row.toNat < 2 ^ 61) (hcell : s.HasCell column row)

include hcolumn hrow hcell

theorem pixel_eq (c : UInt8) {i j : Nat} (hi : i < 8) (hj : j < 8) :
    s.pixel c (column * charWidth) (row * charHeight) i j =
        ⟨UInt64.ofNat (8 * column.toNat + j), UInt64.ofNat (8 * row.toNat + i),
          if lit c i j then s.foreground else s.background⟩ ∧
      Shown s (8 * column.toNat + j) (8 * row.toNat + i) := by
  have hx : (column * 8).toNat = 8 * column.toNat := toNat_mul_charWidth hcolumn
  have hy : (row * 8).toNat = 8 * row.toNat := toNat_mul_charWidth hrow
  obtain ⟨hwidth, hheight⟩ := hcell
  change (column * 8).toNat + 8 ≤ s.width.toNat at hwidth
  change (row * 8).toNat + 8 ≤ s.height.toNat at hheight
  refine ⟨?_, by omega, by omega⟩
  unfold Screen.pixel
  congr 1
  · show column * 8 + UInt64.ofNat j = _
    rw [← UInt64.toNat_inj, toNat_cell column hj, hx, toNat_ofNat (by omega)]
  · show row * 8 + UInt64.ofNat i = _
    rw [← UInt64.toNat_inj, toNat_cell row hi, hy, toNat_ofNat (by omega)]

include h

/-- Drawing a character changes the pixels of its cell to those of its glyph, and no other visible
pixel. -/
theorem pixelAt_cell {c : UInt8} (hc : c < 128) {x y : Nat} (hp : Shown s x y) :
    (s.putAll (s.cell c (column * charWidth) (row * charHeight))).pixels
        (s.index (UInt64.ofNat x) (UInt64.ofNat y)) =
      if x / 8 = column.toNat ∧ y / 8 = row.toNat then
        if lit c (y % 8) (x % 8) then s.foreground else s.background
      else s.pixelAt x y := by
  by_cases hin : x / 8 = column.toNat ∧ y / 8 = row.toNat
  · have hx : 8 * column.toNat + x % 8 = x := by omega
    have hy : 8 * row.toNat + y % 8 = y := by omega
    rw [if_pos hin]
    apply Screen.putAll_pixels_of_index
    · intro q hq he
      obtain ⟨-, i, hi, j, hj, rfl⟩ := mem_cell.mp hq
      obtain ⟨hq, hshown⟩ := pixel_eq hcolumn hrow hcell c hi hj
      rw [hq] at he ⊢
      obtain ⟨hxj, hyi⟩ := index_inj h hshown hp he
      obtain rfl : j = x % 8 := by omega
      obtain rfl : i = y % 8 := by omega
      rfl
    · have hi : y % 8 < 8 := Nat.mod_lt _ (by decide)
      have hj : x % 8 < 8 := Nat.mod_lt _ (by decide)
      refine ⟨_, mem_cell.mpr ⟨hc, y % 8, hi, x % 8, hj, rfl⟩, ?_⟩
      rw [(pixel_eq hcolumn hrow hcell c hi hj).1, hx, hy]
  · rw [if_neg hin]
    apply Screen.putAll_pixels_of_ne
    intro q hq he
    obtain ⟨-, i, hi, j, hj, rfl⟩ := mem_cell.mp hq
    obtain ⟨hq, hshown⟩ := pixel_eq hcolumn hrow hcell c hi hj
    rw [hq] at he
    obtain ⟨hxj, hyi⟩ := index_inj h hshown hp he
    exact hin ⟨by omega, by omega⟩

end cell

/-! ## Clearing -/

theorem Screen.foldl_fill_pixels (p : UInt64) (l : List UInt64) :
    ∀ s : Screen, (l.foldl Screen.fill s).pixels p = if p ∈ l then s.background else s.pixels p := by
  induction l with
  | nil => simp
  | cons i l ih =>
    intro s
    show (l.foldl Screen.fill (s.fill i)).pixels p = _
    rw [ih]
    show (if p ∈ l then s.background else Function.update s.pixels i s.background p) = _
    by_cases hp : p = i
    · subst hp
      simp
    · simp [hp]

/-- The indices that `eX_Clear` visits. -/
def Screen.visited (s : Screen) : List UInt64 :=
  (List.range s.height.toNat).flatMap fun y =>
    (List.range s.width.toNat).map fun x => s.index (UInt64.ofNat x) (UInt64.ofNat y)

theorem Screen.filled_eq (s : Screen) : s.filled = s.visited.foldl Screen.fill s := by
  unfold Screen.filled Screen.visited
  rw [List.foldl_flatMap]
  simp only [List.foldl_map]
  rfl

theorem pixelAt_clear {s : Screen} {x y : Nat} (hp : Shown s x y) :
    s.afterClear.pixels (s.index (UInt64.ofNat x) (UInt64.ofNat y)) = s.background := by
  have hvisited : s.index (UInt64.ofNat x) (UInt64.ofNat y) ∈ s.visited := by
    simp only [Screen.visited, List.mem_flatMap, List.mem_map, List.mem_range]
    exact ⟨y, hp.y_lt, x, hp.x_lt, rfl⟩
  show s.filled.pixels _ = s.background
  rw [Screen.filled_eq, Screen.foldl_fill_pixels, if_pos hvisited]

/-! ## The screen renders the terminal -/

/-- The visible pixels are those of the glyphs of the cells. -/
def Paints (s : Screen) (cells : Nat → Nat → UInt8) : Prop :=
  ∀ x y, Shown s x y →
    s.pixelAt x y = if lit (cells (x / 8) (y / 8)) (y % 8) (x % 8) then s.foreground else s.background

theorem Paints.move {s : Screen} {cells : Nat → Nat → UInt8} (h : Paints s cells) (x y : UInt64) :
    Paints { s with cursorX := x, cursorY := y } cells :=
  fun x y hp => h x y ⟨hp.x_lt, hp.y_lt⟩

structure Renders (s : Screen) (t : Terminal) : Prop extends Placed s t where
  pixels : Paints s t.cells

theorem Call.pitch_after (s : Screen) (call : Call) : (call.after s).pitch = s.pitch :=
  Call.untouched ⟨fun _ _ => rfl, fun _ _ _ => rfl⟩ (fun _ _ => rfl) s call

theorem index_congr {s t : Screen} (h : t.pitch = s.pitch) : t.index = s.index := by
  unfold Screen.index
  rw [h]

theorem Addressable.after {s : Screen} (h : Addressable s) (call : Call) :
    Addressable (call.after s) := by
  constructor
  · rw [Call.width_after, Call.pitch_after]
    exact h.pitch
  · rw [Call.height_after, Call.pitch_after]
    exact h.size

theorem renders_clear (s : Screen) : Renders s.afterClear Terminal.blank := by
  have hpitch : s.afterClear.pitch = s.pitch := Call.pitch_after s .clear
  have hwidth : s.afterClear.width = s.width := Call.width_after s .clear
  have hheight : s.afterClear.height = s.height := Call.height_after s .clear
  have hback : s.afterClear.background = s.background :=
    Call.untouched ⟨fun _ _ => rfl, fun _ _ _ => rfl⟩ (fun _ _ => rfl) s .clear
  have hdark : ∀ x y, lit (Terminal.blank.cells (x / 8) (y / 8)) (y % 8) (x % 8) = false := by
    intro x y
    show decide (fontRow ' '.toUInt8 (y % 8) &&& _ ≠ 0) = false
    rw [fontRow_space]
    simp
  refine ⟨⟨rfl, rfl⟩, fun x y hp => ?_⟩
  rw [hdark, if_neg Bool.false_ne_true, hback, Screen.pixelAt, index_congr hpitch]
  exact pixelAt_clear ⟨hwidth ▸ hp.x_lt, hheight ▸ hp.y_lt⟩

section step

variable {s : Screen} {t : Terminal} (h : Addressable s) (hplaced : Placed s t)
  (hcolumn : t.column < 2 ^ 61) (hrow : t.row < 2 ^ 61) (hs : Paints s t.cells)

include h hplaced hcolumn hrow hs

theorem Paints.put {c : UInt8} (hc : c < 128) (hcell : s.HasCell s.cursorX s.cursorY) :
    Paints (s.drawAtCursor c) (t.put t.column c).cells := by
  have hwidth : (s.drawAtCursor c).width = s.width := Screen.drawAtCursor_keep (fun _ _ => rfl) c s
  have hheight : (s.drawAtCursor c).height = s.height :=
    Screen.drawAtCursor_keep (fun _ _ => rfl) c s
  have hpitch : (s.drawAtCursor c).pitch = s.pitch := Screen.drawAtCursor_keep (fun _ _ => rfl) c s
  have hfore : (s.drawAtCursor c).foreground = s.foreground :=
    Screen.drawAtCursor_keep (fun _ _ => rfl) c s
  have hback : (s.drawAtCursor c).background = s.background :=
    Screen.drawAtCursor_keep (fun _ _ => rfl) c s
  intro x y hp
  have hshown : Shown s x y := ⟨hwidth ▸ hp.x_lt, hheight ▸ hp.y_lt⟩
  have hdrawn := pixelAt_cell h (hplaced.column ▸ hcolumn) (hplaced.row ▸ hrow) hcell hc hshown
  rw [hplaced.column, hplaced.row] at hdrawn
  rw [Screen.pixelAt, index_congr hpitch, hfore, hback]
  refine hdrawn.trans ?_
  unfold Terminal.put
  by_cases hin : x / 8 = t.column ∧ y / 8 = t.row
  · rw [if_pos hin]
    simp only [if_pos hin]
  · rw [if_neg hin]
    simp only [if_neg hin]
    exact hs x y hshown

theorem Paints.printChar {c : UInt8} (hfit : (Call.printChar c).Fits s) :
    Paints (s.afterPrintChar c) (t.printChar c).cells := by
  unfold Screen.afterPrintChar Terminal.printChar
  by_cases hc : c = '\n'.toUInt8
  · rw [if_pos hc, if_pos hc]
    exact hs.move _ _
  rw [if_neg hc, if_neg hc]
  by_cases hlt : c < 128
  · rw [if_pos hlt]
    exact (hs.put h hplaced hcolumn hrow hlt (hfit hc hlt)).move _ _
  · have hnone : s.drawAtCursor c = s := by
      unfold Screen.drawAtCursor Screen.cell
      rw [if_pos (UInt8.not_lt.mp hlt)]
      rfl
    rw [if_neg hlt, hnone]
    exact hs.move _ _

theorem Paints.backspace (hfit : Call.backspace.Fits s) :
    Paints s.afterBackspace t.backspace.cells := by
  unfold Screen.afterBackspace Terminal.backspace
  by_cases hx : s.cursorX = 0
  · rw [if_pos hx, if_pos (hplaced.zero_iff.mp hx)]
    exact hs
  · rw [if_neg hx, if_neg (mt hplaced.zero_iff.mpr hx)]
    obtain ⟨u, hu⟩ : ∃ u : Screen, u = { s with cursorX := s.cursorX - 1 } := ⟨_, rfl⟩
    have hmoved : u.cursorX.toNat = t.column - 1 := by
      rw [hu, ← hplaced.column]
      exact toNat_pred (one_le_toNat hx)
    have haddress : Addressable u := hu ▸ ⟨h.pitch, h.size⟩
    have hback : Placed u { t with column := t.column - 1 } := ⟨hmoved, hu ▸ hplaced.row⟩
    have hpaints : Paints u t.cells := hu ▸ hs.move _ _
    have hcell : u.HasCell u.cursorX u.cursorY := hu ▸ hfit hx
    have hlt : t.column - 1 < 2 ^ 61 := Nat.lt_of_le_of_lt (Nat.sub_le _ _) hcolumn
    rw [← hu]
    exact Paints.put haddress hback hlt hrow hpaints (by decide) hcell

end step

theorem Renders.after {s : Screen} {t : Terminal} (h : Addressable s) (hs : Renders s t)
    (hcolumn : t.column < 2 ^ 61) (hrow : t.row < 2 ^ 61) {call : Call} (hfit : call.Fits s) :
    Renders (call.after s) (t.after call) := by
  cases call with
  | printChar c =>
    exact ⟨hs.toPlaced.printChar hcolumn hrow c,
      hs.pixels.printChar h hs.toPlaced hcolumn hrow hfit⟩
  | backspace => exact ⟨hs.toPlaced.backspace, hs.pixels.backspace h hs.toPlaced hcolumn hrow hfit⟩
  | clear => exact renders_clear s

/-! ## Every run -/

theorem Renders.run (calls : List Call) :
    ∀ {s : Screen} {t : Terminal}, Addressable s → Renders s t → AllFit s calls →
      t.column + calls.length < 2 ^ 61 → t.row + calls.length < 2 ^ 61 →
      Renders (calls.foldl Call.after s) (calls.foldl Terminal.after t) := by
  induction calls with
  | nil => exact fun _ hs _ _ _ => hs
  | cons call calls ih =>
    intro s t h hs hfit hcolumn hrow
    obtain ⟨hcall, hcalls⟩ := Fold.each_cons.mp hfit
    obtain ⟨hmoved, hdown⟩ := t.after_le call
    rw [List.length_cons] at hcolumn hrow
    exact ih (h.after call) (hs.after h (by omega) (by omega) hcall) hcalls (by omega) (by omega)

theorem renders_of_fits {s : Screen} (h : Addressable s) {calls : List Call}
    (hlength : calls.length < 2 ^ 61)
    (hfit : Fold.Each Terminal.after (Terminal.Fits s.width.toNat s.height.toNat) Terminal.blank
      calls) :
    Renders (calls.foldl Call.after s.afterClear) (calls.foldl Terminal.after Terminal.blank) := by
  have hrenders := renders_clear s
  have hbound : 0 + calls.length < 2 ^ 61 := (Nat.zero_add _).symm ▸ hlength
  have hwidth : s.afterClear.width = s.width := Call.width_after s .clear
  have hheight : s.afterClear.height = s.height := Call.height_after s .clear
  have hall := hrenders.toPlaced.allFit_iff calls hbound hbound
  rw [hwidth, hheight] at hall
  exact Renders.run calls (h.after .clear) hrenders (hall.mpr hfit) hbound hbound

/-- Whatever is printed, erased and cleared on a cleared screen, its pixels are at the end the
glyphs of the terminal's characters, as long as every call that draws finds its cell on the
screen. -/
theorem console_renders (s : Screen) (h : Addressable s) (calls : List Call)
    (hlength : calls.length < 2 ^ 61)
    (hfit : Fold.Each Terminal.after (Terminal.Fits s.width.toNat s.height.toNat) Terminal.blank
      calls) :
    ∃ s', (do
      clear
      calls.forM Call.code).run s = .ok ((), s') ∧
      Renders s' (calls.foldl Terminal.after Terminal.blank) := by
  refine ⟨calls.foldl Call.after s.afterClear, ?_, renders_of_fits h hlength hfit⟩
  rw [run_bind (run_clear s)]
  exact run_calls calls _

theorem console_renders_one_cell : ∃ s', (do
    clear
    [Call.printChar 'A'.toUInt8, .backspace].forM Call.code).run (blank 8 8 32) = .ok ((), s') ∧
      Renders s' ([Call.printChar 'A'.toUInt8, .backspace].foldl Terminal.after Terminal.blank) := by
  apply console_renders (blank 8 8 32) ⟨by decide, by decide⟩ _ (by decide)
  exact Fold.each_cons.mpr ⟨fun _ _ => by decide, Fold.each_cons.mpr ⟨fun _ => by decide,
    Fold.each_nil⟩⟩

end EyaX.Console
