import EyaX.Console.OnScreen

/-!
# Backspaces undo what was typed

Pixels are written through a linear index, so the cells of a long line may share pixels with each
other and with other lines. What is printed touches only the pixels of its own cells, and the
erasing spaces cover the same pixels: if all of them held the background, each backspace leaves one
cell fewer in which the screen may differ from what it was.
-/

namespace EyaX.Console

open Interrupt Code

/-! ## Writing pixels -/

theorem Screen.putAll_pixels_of_ne {l : List Plot} {p : UInt64} :
    ∀ {s : Screen}, (∀ q ∈ l, s.index q.x q.y ≠ p) → (s.putAll l).pixels p = s.pixels p := by
  induction l with
  | nil => exact fun _ => rfl
  | cons q l ih =>
    intro s h
    obtain ⟨hq, hl⟩ := List.forall_mem_cons.mp h
    have hrest : ((s.put q).putAll l).pixels p = (s.put q).pixels p := ih hl
    show ((s.put q).putAll l).pixels p = s.pixels p
    rw [hrest]
    exact Function.update_of_ne hq.symm _ _

theorem Screen.putAll_pixels_of_color {color : UInt32} {l : List Plot} {p : UInt64}
    (hcolor : ∀ q ∈ l, q.color = color) :
    ∀ {s : Screen}, (∃ q ∈ l, s.index q.x q.y = p) → (s.putAll l).pixels p = color := by
  induction l with
  | nil => simp
  | cons q l ih =>
    intro s h
    obtain ⟨hq, hl⟩ := List.forall_mem_cons.mp hcolor
    by_cases hlater : ∃ r ∈ l, s.index r.x r.y = p
    · exact ih hl hlater
    · have hplotted : s.index q.x q.y = p := by
        obtain ⟨r, hr, hrp⟩ := h
        rcases List.mem_cons.mp hr with rfl | hmem
        · exact hrp
        · exact absurd ⟨r, hmem, hrp⟩ hlater
      have hrest : ((s.put q).putAll l).pixels p = (s.put q).pixels p :=
        Screen.putAll_pixels_of_ne fun r hr hrp => hlater ⟨r, hr, hrp⟩
      show ((s.put q).putAll l).pixels p = color
      rw [hrest, ← hq, ← hplotted]
      exact Function.update_self _ _ _

/-! ## Cells of the cursor's line -/

/-- The framebuffer index `p` belongs to a pixel of the cell in a column of the cursor's line. -/
def Screen.Covers (s : Screen) (column p : UInt64) : Prop :=
  ∃ row < 8, ∃ col < 8, s.index (column * charWidth + UInt64.ofNat col)
    (s.cursorY * charHeight + UInt64.ofNat row) = p

theorem drawAtCursor_pixels_of_not {s : Screen} {p : UInt64} (h : ¬ s.Covers s.cursorX p)
    (c : UInt8) : (s.drawAtCursor c).pixels p = s.pixels p := by
  apply Screen.putAll_pixels_of_ne
  intro q hq he
  obtain ⟨-, row, hrow, col, hcol, rfl⟩ := mem_cell.mp hq
  exact h ⟨row, hrow, col, hcol, he⟩

theorem drawAtCursor_space {s : Screen} {p : UInt64} (h : s.Covers s.cursorX p) :
    (s.drawAtCursor ' '.toUInt8).pixels p = s.background := by
  obtain ⟨row, hrow, col, hcol, he⟩ := h
  apply Screen.putAll_pixels_of_color (color_space s _ _)
  exact ⟨_, mem_cell.mpr ⟨by decide, row, hrow, col, hcol, rfl⟩, he⟩

/-! ## Printing and erasing -/

/-- What printing and erasing on one line leave alone. -/
def Screen.frame (s : Screen) : Screen := { s with pixels := fun _ => 0, cursorX := 0, plots := [] }

theorem Screen.eq_of_frame {s t : Screen} (hframe : t.frame = s.frame)
    (hpixels : t.pixels = s.pixels) (hcursor : t.cursorX = s.cursorX) :
    t = { s with plots := t.plots } := by
  calc t = { t.frame with pixels := t.pixels, cursorX := t.cursorX, plots := t.plots } := rfl
    _ = { s.frame with pixels := s.pixels, cursorX := s.cursorX, plots := t.plots } := by
      rw [hframe, hpixels, hcursor]
    _ = { s with plots := t.plots } := rfl

/-- `t` is `s` with the cursor `count` cells further on, up to the pixels of these cells. -/
structure Written (s : Screen) (count : Nat) (t : Screen) : Prop where
  frame : t.frame = s.frame
  cursor : t.cursorX = s.cursorX + UInt64.ofNat count
  pixels : ∀ p, (∀ i < count, ¬ s.Covers (s.cursorX + UInt64.ofNat i) p) → t.pixels p = s.pixels p

theorem ofNat_succ (n : Nat) : UInt64.ofNat (n + 1) = UInt64.ofNat n + 1 := UInt64.ofNat_add n 1

section steps

variable {s t : Screen} {count : Nat}

theorem covers_congr (h : t.frame = s.frame) {column p : UInt64} :
    t.Covers column p ↔ s.Covers column p := by
  have hpitch : t.frame.pitch = s.frame.pitch := by rw [h]
  have hrow : t.frame.cursorY = s.frame.cursorY := by rw [h]
  change t.pitch = s.pitch at hpitch
  change t.cursorY = s.cursorY at hrow
  unfold Screen.Covers Screen.index
  rw [hpitch, hrow]

theorem frame_drawAtCursor (c : UInt8) (t : Screen) : (t.drawAtCursor c).frame = t.frame :=
  Screen.drawAtCursor_keep (fun _ _ => rfl) c t

theorem Written.printChar (h : Written s count t) {c : UInt8} (hc : c ≠ '\n'.toUInt8) :
    Written s (count + 1) (t.afterPrintChar c) := by
  unfold Screen.afterPrintChar
  rw [if_neg hc]
  constructor
  · exact (frame_drawAtCursor c t).trans h.frame
  · show t.cursorX + 1 = _
    rw [h.cursor, ofNat_succ, UInt64.add_assoc]
  · intro p hp
    have hcell : ¬ t.Covers t.cursorX p := by
      rw [covers_congr h.frame, h.cursor]
      exact hp count (Nat.lt_succ_self count)
    show (t.drawAtCursor c).pixels p = s.pixels p
    rw [drawAtCursor_pixels_of_not hcell]
    exact h.pixels p fun i hi => hp i (Nat.lt_succ_of_lt hi)

theorem Written.backspace (h : Written s (count + 1) t)
    (hcursor : s.cursorX.toNat + (count + 1) < 2 ^ 64)
    (hblank : ∀ p, s.Covers (s.cursorX + UInt64.ofNat count) p → s.pixels p = s.background) :
    Written s count t.afterBackspace := by
  have hmoved : t.cursorX ≠ 0 := by
    intro h0
    have hnat := congrArg UInt64.toNat (h.cursor.symm.trans h0)
    rw [UInt64.toNat_add, toNat_ofNat (by omega : count + 1 < 2 ^ 64),
      Nat.mod_eq_of_lt hcursor, UInt64.toNat_zero] at hnat
    omega
  have hback : t.cursorX - 1 = s.cursorX + UInt64.ofNat count := by
    rw [h.cursor, ofNat_succ, ← UInt64.add_assoc, UInt64.add_sub_cancel]
  have hbackground : t.frame.background = s.frame.background := by rw [h.frame]
  change t.background = s.background at hbackground
  obtain ⟨u, hu⟩ : ∃ u : Screen, u = { t with cursorX := t.cursorX - 1 } := ⟨_, rfl⟩
  have hframe : u.frame = s.frame := by
    rw [hu]
    exact h.frame
  have hcolumn : u.cursorX = s.cursorX + UInt64.ofNat count := by
    rw [hu]
    exact hback
  unfold Screen.afterBackspace
  rw [if_neg hmoved, ← hu]
  constructor
  · exact (frame_drawAtCursor _ u).trans hframe
  · rw [← hcolumn]
    exact Screen.putAll_cursorX u _
  · intro p hp
    by_cases hcell : s.Covers (s.cursorX + UInt64.ofNat count) p
    · have hcovers : u.Covers u.cursorX p := by
        rw [covers_congr hframe, hcolumn]
        exact hcell
      rw [drawAtCursor_space hcovers, hblank p hcell, ← hbackground, hu]
    · have hcovers : ¬ u.Covers u.cursorX p := by
        rw [covers_congr hframe, hcolumn]
        exact hcell
      rw [drawAtCursor_pixels_of_not hcovers, hu]
      apply h.pixels
      intro i hi
      rcases Nat.lt_succ_iff_lt_or_eq.mp hi with hlt | rfl
      · exact hp i hlt
      · exact hcell

end steps

theorem Written.text {s : Screen} (text : List UInt8) (htext : ∀ c ∈ text, c ≠ '\n'.toUInt8) :
    ∀ {count : Nat} {t : Screen}, Written s count t →
      Written s (count + text.length) (t.afterText text) := by
  induction text with
  | nil => exact fun h => h
  | cons c text ih =>
    intro count t h
    obtain ⟨hc, hrest⟩ := List.forall_mem_cons.mp htext
    have hprinted := ih hrest (h.printChar hc)
    rw [Nat.add_right_comm] at hprinted
    exact hprinted

theorem Written.backspaces {s : Screen} {count : Nat} :
    ∀ {t : Screen}, Written s count t → s.cursorX.toNat + count < 2 ^ 64 →
      (∀ i < count, ∀ p, s.Covers (s.cursorX + UInt64.ofNat i) p → s.pixels p = s.background) →
      ∃ t', ((List.replicate count ()).forM fun _ => Console.backspace).run t = .ok ((), t') ∧
        Written s 0 t' := by
  induction count with
  | zero => exact fun {t} h _ _ => ⟨t, rfl, h⟩
  | succ count ih =>
    intro t h hcursor hblank
    obtain ⟨t', hrun, hwritten⟩ :=
      ih (h.backspace hcursor (hblank count (Nat.lt_succ_self count))) (by omega)
        fun i hi => hblank i (Nat.lt_succ_of_lt hi)
    refine ⟨t', ?_, hwritten⟩
    show (Console.backspace >>= fun _ =>
      (List.replicate count ()).forM fun _ => Console.backspace).run t = _
    rw [run_bind (run_backspace t)]
    exact hrun

/-- Over cells that all hold the background, printing a text and then as many backspaces leaves the
screen as it was: every pixel of the framebuffer and both coordinates of the cursor. -/
theorem backspaces_undo (s : Screen) (text : List UInt8)
    (hprintable : ∀ c ∈ text, 32 ≤ c ∧ c ≤ 126)
    (hcursor : s.cursorX.toNat + text.length < 2 ^ 64)
    (hblank : ∀ i < text.length, ∀ p, s.Covers (s.cursorX + UInt64.ofNat i) p →
      s.pixels p = s.background) :
    ∃ plots, (do
      text.forM printChar
      (List.replicate text.length ()).forM fun _ => backspace : Code Stop Screen Unit).run s =
        .ok ((), { s with plots := plots }) := by
  have htext : ∀ c ∈ text, c ≠ '\n'.toUInt8 := by
    intro c hc he
    exact absurd (he ▸ (hprintable c hc).1) (by decide)
  have hstart : Written s 0 s := ⟨rfl, (UInt64.add_zero _).symm, fun _ _ => rfl⟩
  have hprinted := hstart.text text htext
  rw [Nat.zero_add] at hprinted
  obtain ⟨t, hrun, hframe, hcolumn, hpixels⟩ := hprinted.backspaces hcursor hblank
  refine ⟨t.plots, ?_⟩
  have hsame : t.pixels = s.pixels := by
    funext p
    exact hpixels p fun i hi => absurd hi (Nat.not_lt_zero i)
  rw [run_bind (run_text text s), hrun,
    ← Screen.eq_of_frame hframe hsame (hcolumn.trans (UInt64.add_zero _))]

theorem backspaces_undo_blank : ∃ plots, (do
    (bytes "Hi").forM printChar
    (List.replicate (bytes "Hi").length ()).forM fun _ => backspace : Code Stop Screen Unit).run
      (blank 8 8 32) = .ok ((), { blank 8 8 32 with plots := plots }) := by
  have hall : (bytes "Hi").all (fun c => 32 ≤ c && c ≤ 126) = true := by decide
  have hprintable : ∀ c ∈ bytes "Hi", 32 ≤ c ∧ c ≤ 126 := by
    intro c hc
    have hc' := List.all_eq_true.mp hall c hc
    rwa [Bool.and_eq_true, decide_eq_true_iff, decide_eq_true_iff] at hc'
  exact backspaces_undo (blank 8 8 32) (bytes "Hi") hprintable (by decide) fun _ _ _ _ => rfl

end EyaX.Console
