import EyaX.Console.Basic
import EyaX.Lib.Fold

/-!
# What the console does to the screen

Every function of the console that is given what it needs ends, and its effect is a function of the
screen: the pixels of one cell, a move of the cursor, or all pixels and the cursor. The rest of the
development reads the console through these effects.
-/

namespace EyaX.Console

open Interrupt Code

namespace Screen

variable (s : Screen)

/-! ## Pixels -/

def putAll (l : List Plot) : Screen := l.foldl put s

@[simp] theorem putAll_cursorX (l : List Plot) : (s.putAll l).cursorX = s.cursorX :=
  Fold.keep (f := put) Screen.cursorX (fun _ _ => rfl) l s

@[simp] theorem putAll_cursorY (l : List Plot) : (s.putAll l).cursorY = s.cursorY :=
  Fold.keep (f := put) Screen.cursorY (fun _ _ => rfl) l s

@[simp] theorem putAll_plots (l : List Plot) : (s.putAll l).plots = s.plots ++ l := by
  induction l generalizing s with
  | nil => exact (List.append_nil _).symm
  | cons p l ih =>
    show ((s.put p).putAll l).plots = s.plots ++ p :: l
    rw [ih, put, List.append_assoc]
    rfl

theorem foldl_put {α : Type} {pixel : Screen → α → Plot}
    (hpixel : ∀ s p a, pixel (put s p) a = pixel s a) (l : List α) :
    l.foldl (fun s a => s.put (pixel s a)) s = s.putAll (l.map (pixel s)) := by
  induction l generalizing s with
  | nil => rfl
  | cons a l ih =>
    have hcolors : l.map (pixel (s.put (pixel s a))) = l.map (pixel s) :=
      List.map_congr_left fun b _ => hpixel s _ b
    show l.foldl (fun s a => s.put (pixel s a)) (s.put (pixel s a)) = _
    rw [ih, hcolors]
    rfl

/-! ## Cells -/

/-- The pixel of `c` at a row and a column of a cell whose first pixel is at `x` and `y`. -/
def pixel (c : UInt8) (x y : UInt64) (row col : Nat) : Plot :=
  ⟨x + UInt64.ofNat col, y + UInt64.ofNat row, if lit c row col then s.foreground else s.background⟩

/-- What `eX_DrawChar` plots. -/
def cell (c : UInt8) (x y : UInt64) : List Plot :=
  if c ≥ 128 then []
  else (List.range 8).flatMap fun row => (List.range 8).map (s.pixel c x y row)

theorem foldl_putAll {pixels : Screen → Nat → List Plot}
    (hpixels : ∀ s p row, pixels (put s p) row = pixels s row) (l : List Nat) :
    l.foldl (fun s row => s.putAll (pixels s row)) s = s.putAll (l.flatMap (pixels s)) := by
  induction l generalizing s with
  | nil => rfl
  | cons row l ih =>
    have hrows : l.flatMap (pixels (s.putAll (pixels s row))) = l.flatMap (pixels s) := by
      congr 1
      funext next
      exact Fold.keep (fun s => pixels s next) (fun s p => hpixels s p next) (pixels s row) s
    show l.foldl (fun s row => s.putAll (pixels s row)) (s.putAll (pixels s row)) = _
    rw [ih, hrows, List.flatMap_cons, putAll, putAll, putAll, List.foldl_append]

end Screen

theorem run_forM_put {body : Nat → Code Stop Screen Unit} {pixel : Screen → Nat → Plot}
    (hbody : ∀ i s, (body i).run s = .ok ((), s.put (pixel s i)))
    (hpixel : ∀ s p i, pixel (s.put p) i = pixel s i) (l : List Nat) (s : Screen) :
    (l.forM body).run s = .ok ((), s.putAll (l.map (pixel s))) := by
  rw [run_forM hbody, Screen.foldl_put s hpixel]

theorem run_forM_putAll {body : Nat → Code Stop Screen Unit} {pixels : Screen → Nat → List Plot}
    (hbody : ∀ i s, (body i).run s = .ok ((), s.putAll (pixels s i)))
    (hpixels : ∀ s p i, pixels (s.put p) i = pixels s i) (l : List Nat) (s : Screen) :
    (l.forM body).run s = .ok ((), s.putAll (l.flatMap (pixels s))) := by
  rw [run_forM hbody, Screen.foldl_putAll s hpixels]

theorem run_drawChar (c : UInt8) (x y : UInt64) (s : Screen) :
    (drawChar c x y).run s = .ok ((), s.putAll (s.cell c x y)) := by
  unfold drawChar Screen.cell
  by_cases hc : c ≥ 128
  · rw [if_pos hc, if_pos hc]
    rfl
  rw [if_neg hc, if_neg hc]
  have hpixel : ∀ row col (s : Screen),
      (get >>= fun s =>
        if lit c row col then putPixel (x + UInt64.ofNat col) (y + UInt64.ofNat row) s.foreground
        else putPixel (x + UInt64.ofNat col) (y + UInt64.ofNat row) s.background).run s =
        .ok ((), s.put (s.pixel c x y row col)) := by
    intro row col s
    rw [run_get_bind, Screen.pixel]
    by_cases hlit : lit c row col = true
    · rw [if_pos hlit, if_pos hlit, putPixel, run_modify]
    · rw [if_neg hlit, if_neg hlit, putPixel, run_modify]
  exact run_forM_putAll (fun row => run_forM_put (hpixel row) (fun _ _ _ => rfl) _)
    (fun _ _ _ => rfl) _ s

/-! ## The console's functions -/

/-- A character is drawn at the cursor. -/
def Screen.drawAtCursor (c : UInt8) (s : Screen) : Screen :=
  s.putAll (s.cell c (s.cursorX * charWidth) (s.cursorY * charHeight))

def Screen.afterPrintChar (c : UInt8) (s : Screen) : Screen :=
  if c = '\n'.toUInt8 then { s with cursorX := 0, cursorY := s.cursorY + 1 }
  else { s.drawAtCursor c with cursorX := s.cursorX + 1 }

def Screen.afterBackspace (s : Screen) : Screen :=
  if s.cursorX = 0 then s
  else ({ s with cursorX := s.cursorX - 1 } : Screen).drawAtCursor ' '.toUInt8

/-- All of the visible pixels hold the background. -/
def Screen.filled (s : Screen) : Screen :=
  (List.range s.height.toNat).foldl (fun s₁ y =>
    (List.range s.width.toNat).foldl (fun t x =>
      t.fill (UInt64.ofNat y * (s.pitch / 4) + UInt64.ofNat x)) s₁) s

def Screen.afterClear (s : Screen) : Screen := { s.filled with cursorX := 0, cursorY := 0 }

theorem Screen.drawAtCursor_keep {γ : Type} {proj : Screen → γ} (hput : ∀ s p, proj (s.put p) = proj s)
    (c : UInt8) (s : Screen) : proj (s.drawAtCursor c) = proj s :=
  Fold.keep proj hput _ s

/-- What the console functions never touch: `proj` ignores pixels and the cursor. -/
structure Untouched {γ : Type} (proj : Screen → γ) : Prop where
  fill : ∀ s i, proj (s.fill i) = proj s
  move : ∀ s x y, proj { s with cursorX := x, cursorY := y } = proj s

namespace Untouched

variable {γ : Type} {proj : Screen → γ} (h : Untouched proj)

include h

theorem filled (s : Screen) : proj s.filled = proj s := by
  unfold Screen.filled
  apply Fold.keep proj
  intro s₁ y
  apply Fold.keep proj
  exact fun t x => h.fill t _

theorem afterClear (s : Screen) : proj s.afterClear = proj s := (h.move s.filled 0 0).trans (h.filled s)

theorem afterPrintChar (hput : ∀ s p, proj (s.put p) = proj s) (c : UInt8) (s : Screen) :
    proj (s.afterPrintChar c) = proj s := by
  unfold Screen.afterPrintChar
  by_cases hc : c = '\n'.toUInt8
  · rw [if_pos hc]
    exact h.move s _ _
  · rw [if_neg hc]
    exact (h.move (s.drawAtCursor c) _ _).trans (Screen.drawAtCursor_keep hput c s)

theorem afterBackspace (hput : ∀ s p, proj (s.put p) = proj s) (s : Screen) :
    proj s.afterBackspace = proj s := by
  unfold Screen.afterBackspace
  by_cases hx : s.cursorX = 0
  · rw [if_pos hx]
  · rw [if_neg hx]
    exact (Screen.drawAtCursor_keep hput _ _).trans (h.move s _ _)

end Untouched

theorem run_printChar (c : UInt8) (s : Screen) :
    (printChar c).run s = .ok ((), s.afterPrintChar c) := by
  unfold printChar Screen.afterPrintChar
  by_cases hc : c = '\n'.toUInt8
  · rw [if_pos hc, if_pos hc]
    rfl
  · rw [if_neg hc, if_neg hc, run_get_bind, run_bind (run_drawChar _ _ _ s), run_get_bind,
      run_modify, Screen.putAll_cursorX]
    rfl

theorem run_backspace (s : Screen) : backspace.run s = .ok ((), s.afterBackspace) := by
  unfold backspace Screen.afterBackspace
  rw [run_get_bind]
  by_cases hx : s.cursorX = 0
  · rw [if_pos hx, if_pos hx]
    rfl
  · rw [if_neg hx, if_neg hx, run_modify_bind, run_get_bind, run_drawChar]
    rfl

theorem run_clear (s : Screen) : clear.run s = .ok ((), s.afterClear) := by
  unfold clear
  rw [run_get_bind, run_bind (run_forM (fun y s₁ => run_forM (fun x t => run_modify _ t) _ s₁) _ s)]
  rfl

/-! ## Texts -/

def Screen.afterText (text : List UInt8) (s : Screen) : Screen :=
  text.foldl (fun s c => s.afterPrintChar c) s

theorem run_text (text : List UInt8) (s : Screen) :
    (text.forM printChar).run s = .ok ((), s.afterText text) := run_forM run_printChar text s

theorem print_cons (c : UInt8) (format : List UInt8) (args : List Argument) :
    print (c :: format) args =
      if c = 0 then pure ()
      else if c ≠ '%'.toUInt8 then do
        printChar c
        print format args
      else
        (match format with
        | [] => .stop .outOfBounds
        | c :: format => conversion c args >>= print format) :=
  print.eq_def (c :: format) args

/-- The text has no NUL and no `%`. -/
def plain (text : List UInt8) : Bool := text.all fun c => c != 0 && c != '%'.toUInt8

theorem plain_cons {c : UInt8} {text : List UInt8} :
    plain (c :: text) = true ↔ (c ≠ 0 ∧ c ≠ '%'.toUInt8) ∧ plain text = true := by
  simp [plain]

theorem ne_zero_of_plain {text : List UInt8} (h : plain text = true) : ∀ c ∈ text, c ≠ 0 := by
  induction text with
  | nil => exact fun c hc => absurd hc List.not_mem_nil
  | cons b text ih =>
    obtain ⟨⟨hb, -⟩, htext⟩ := plain_cons.mp h
    intro c hc
    rcases List.mem_cons.mp hc with rfl | hmem
    · exact hb
    · exact ih htext c hmem

end EyaX.Console
