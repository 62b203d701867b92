import EyaX.Console.Effects

/-!
# Which output stays on the screen

The cursor moves right with every character and down with every newline, and nothing wraps or
scrolls: a call plots on the screen exactly when the cell it draws into lies there. So a sequence of
calls stays on the screen exactly when each of its calls finds such a cell.
-/

namespace EyaX.Console

open Interrupt Code

/-! ## Sequences of calls -/

inductive Call
  | printChar (c : UInt8)
  | backspace
  | clear

def Call.code : Call → Code Stop Screen Unit
  | .printChar c => Console.printChar c
  | .backspace => Console.backspace
  | .clear => Console.clear

def Call.after (s : Screen) : Call → Screen
  | .printChar c => s.afterPrintChar c
  | .backspace => s.afterBackspace
  | .clear => s.afterClear

theorem Call.run (call : Call) (s : Screen) : call.code.run s = .ok ((), call.after s) := by
  cases call with
  | printChar c => exact run_printChar c s
  | backspace => exact run_backspace s
  | clear => exact run_clear s

/-! ## Positions -/

/-- The pixel is on the screen. -/
def Screen.Visible (s : Screen) (p : Plot) : Prop := p.x < s.width ∧ p.y < s.height

/-- The index of the pixel is inside the framebuffer. -/
def Screen.InFramebuffer (s : Screen) (p : Plot) : Prop :=
  (s.index p.x p.y).toNat < s.height.toNat * (s.pitch.toNat / 4)

/-- The cell of a column and a row lies on the screen. -/
def Screen.HasCell (s : Screen) (column row : UInt64) : Prop :=
  (column * charWidth).toNat + 8 ≤ s.width.toNat ∧ (row * charHeight).toNat + 8 ≤ s.height.toNat

instance (s : Screen) (column row : UInt64) : Decidable (s.HasCell column row) :=
  inferInstanceAs (Decidable (_ ∧ _))

/-- If the call draws, the cell it draws into lies on the screen. -/
def Call.Fits (s : Screen) : Call → Prop
  | .printChar c => c ≠ '\n'.toUInt8 → c < 128 → s.HasCell s.cursorX s.cursorY
  | .backspace => s.cursorX ≠ 0 → s.HasCell (s.cursorX - 1) s.cursorY
  | .clear => True

theorem index_lt {s : Screen} {p : Plot} (hpitch : 4 * s.width.toNat ≤ s.pitch.toNat)
    (hp : s.Visible p) : s.InFramebuffer p := by
  obtain ⟨hx, hy⟩ := hp
  have hx' : p.x.toNat < s.width.toNat := UInt64.lt_iff_toNat_lt.mp hx
  have hy' : p.y.toNat < s.height.toNat := UInt64.lt_iff_toNat_lt.mp hy
  have hwrap : (s.index p.x p.y).toNat ≤ p.y.toNat * (s.pitch.toNat / 4) + p.x.toNat := by
    unfold Screen.index
    rw [UInt64.toNat_add, UInt64.toNat_mul, UInt64.toNat_div]
    exact Nat.le_trans (Nat.mod_le _ _) (Nat.add_le_add_right (Nat.mod_le _ _) _)
  have hrow : p.x.toNat < s.pitch.toNat / 4 := by omega
  calc (s.index p.x p.y).toNat ≤ p.y.toNat * (s.pitch.toNat / 4) + p.x.toNat := hwrap
    _ < p.y.toNat * (s.pitch.toNat / 4) + s.pitch.toNat / 4 := Nat.add_lt_add_left hrow _
    _ = (p.y.toNat + 1) * (s.pitch.toNat / 4) := (Nat.succ_mul _ _).symm
    _ ≤ s.height.toNat * (s.pitch.toNat / 4) := Nat.mul_le_mul_right _ hy'

theorem toNat_cell (column : UInt64) {offset : Nat} (h : offset < 8) :
    (column * 8 + UInt64.ofNat offset).toNat = (column * 8).toNat + offset := by
  rw [UInt64.toNat_add, UInt64.toNat_mul, toNat_ofNat (by omega : offset < 2 ^ 64)]
  show (column.toNat * 8 % 2 ^ 64 + offset) % 2 ^ 64 = column.toNat * 8 % 2 ^ 64 + offset
  omega

theorem mem_cell {s : Screen} {c : UInt8} {x y : UInt64} {p : Plot} :
    p ∈ s.cell c x y ↔ c < 128 ∧ ∃ row < 8, ∃ col < 8, s.pixel c x y row col = p := by
  unfold Screen.cell
  by_cases hc : c ≥ 128
  · rw [if_pos hc]
    simp [UInt8.not_lt.mpr hc]
  · rw [if_neg hc]
    simp [UInt8.not_le.mp hc]

theorem color_space (s : Screen) (x y : UInt64) :
    ∀ p ∈ s.cell ' '.toUInt8 x y, p.color = s.background := by
  intro p hp
  obtain ⟨-, row, -, col, -, rfl⟩ := mem_cell.mp hp
  unfold Screen.pixel lit
  rw [fontRow_space]
  simp

theorem cell_visible_iff {s : Screen} {c : UInt8} {column row : UInt64} :
    (∀ p ∈ s.cell c (column * charWidth) (row * charHeight), s.Visible p) ↔
      (c < 128 → s.HasCell column row) := by
  constructor
  · intro h hc
    -- The last pixel of the cell is the one that decides.
    obtain ⟨hx, hy⟩ := h _ (mem_cell.mpr ⟨hc, 7, by decide, 7, by decide, rfl⟩)
    have hx' := UInt64.lt_iff_toNat_lt.mp hx
    have hy' := UInt64.lt_iff_toNat_lt.mp hy
    change (column * 8 + UInt64.ofNat 7).toNat < s.width.toNat at hx'
    change (row * 8 + UInt64.ofNat 7).toNat < s.height.toNat at hy'
    rw [toNat_cell _ (by decide)] at hx' hy'
    exact ⟨hx', hy'⟩
  · intro h p hp
    obtain ⟨hc, i, hi, j, hj, rfl⟩ := mem_cell.mp hp
    obtain ⟨hx, hy⟩ := h hc
    change (column * 8).toNat + 8 ≤ s.width.toNat at hx
    change (row * 8).toNat + 8 ≤ s.height.toNat at hy
    constructor
    · apply UInt64.lt_iff_toNat_lt.mpr
      show (column * 8 + UInt64.ofNat j).toNat < s.width.toNat
      rw [toNat_cell _ hj]
      omega
    · apply UInt64.lt_iff_toNat_lt.mpr
      show (row * 8 + UInt64.ofNat i).toNat < s.height.toNat
      rw [toNat_cell _ hi]
      omega

/-! ## One call -/

/-- What a call plots. -/
def Call.plots (s : Screen) : Call → List Plot
  | .printChar c =>
    if c = '\n'.toUInt8 then [] else s.cell c (s.cursorX * charWidth) (s.cursorY * charHeight)
  | .backspace =>
    if s.cursorX = 0 then []
    else s.cell ' '.toUInt8 ((s.cursorX - 1) * charWidth) (s.cursorY * charHeight)
  | .clear => []

theorem Call.plots_after (s : Screen) (call : Call) :
    (call.after s).plots = s.plots ++ call.plots s := by
  cases call with
  | printChar c =>
    unfold Call.after Call.plots Screen.afterPrintChar Screen.drawAtCursor
    by_cases hc : c = '\n'.toUInt8
    · simp [hc]
    · simp [hc]
  | backspace =>
    unfold Call.after Call.plots Screen.afterBackspace Screen.drawAtCursor
    by_cases hx : s.cursorX = 0
    · simp [hx]
    · rw [if_neg hx, if_neg hx, Screen.putAll_plots]
      rfl
  | clear =>
    show s.afterClear.plots = s.plots ++ []
    rw [(Untouched.mk (fun _ _ => rfl) fun _ _ _ => rfl : Untouched Screen.plots).afterClear,
      List.append_nil]

theorem Call.untouched {γ : Type} {proj : Screen → γ} (h : Untouched proj)
    (hput : ∀ s p, proj (s.put p) = proj s) (s : Screen) (call : Call) :
    proj (call.after s) = proj s := by
  cases call with
  | printChar c => exact h.afterPrintChar hput c s
  | backspace => exact h.afterBackspace hput s
  | clear => exact h.afterClear s

theorem Call.width_after (s : Screen) (call : Call) : (call.after s).width = s.width :=
  Call.untouched ⟨fun _ _ => rfl, fun _ _ _ => rfl⟩ (fun _ _ => rfl) s call

theorem Call.height_after (s : Screen) (call : Call) : (call.after s).height = s.height :=
  Call.untouched ⟨fun _ _ => rfl, fun _ _ _ => rfl⟩ (fun _ _ => rfl) s call

theorem Call.visible_iff (s : Screen) (call : Call) :
    (∀ p ∈ call.plots s, s.Visible p) ↔ call.Fits s := by
  cases call with
  | printChar c =>
    unfold Call.plots Call.Fits
    dsimp only
    by_cases hc : c = '\n'.toUInt8
    · simp [hc]
    · rw [if_neg hc, cell_visible_iff]
      exact ⟨fun h _ => h, fun h => h hc⟩
  | backspace =>
    unfold Call.plots Call.Fits
    dsimp only
    by_cases hx : s.cursorX = 0
    · simp [hx]
    · rw [if_neg hx, cell_visible_iff]
      exact ⟨fun h _ => h (by decide), fun h _ => h hx⟩
  | clear => simp [Call.plots, Call.Fits]

/-! ## Every sequence -/

/-- Each call of the sequence finds the cell it draws into on the screen. -/
def AllFit (s : Screen) (calls : List Call) : Prop :=
  Fold.Each Call.after (fun s call => call.Fits s) s calls

theorem plots_subset (calls : List Call) :
    ∀ s : Screen, s.plots ⊆ (calls.foldl Call.after s).plots := by
  induction calls with
  | nil => exact fun s => List.Subset.refl _
  | cons call calls ih =>
    intro s p hp
    apply ih (call.after s)
    rw [Call.plots_after]
    exact List.mem_append_left _ hp

/-- Nothing is taken off the log, so the log at the end tells about every call. -/
theorem plots_visible_iff (calls : List Call) :
    ∀ s : Screen, (∀ p ∈ s.plots, s.Visible p) →
      ((∀ p ∈ (calls.foldl Call.after s).plots, s.Visible p) ↔ AllFit s calls) := by
  induction calls with
  | nil =>
    intro s hs
    exact ⟨fun _ => Fold.each_nil, fun _ => hs⟩
  | cons call calls ih =>
    intro s hs
    have hvisible : ∀ p, (call.after s).Visible p ↔ s.Visible p := fun p => by
      unfold Screen.Visible
      rw [Call.width_after, Call.height_after]
    have hgrow : ∀ p ∈ (call.after s).plots, p ∈ ((call :: calls).foldl Call.after s).plots :=
      fun p hp => plots_subset calls (call.after s) hp
    have hstep : (∀ p ∈ (call.after s).plots, s.Visible p) ↔ call.Fits s := by
      rw [Call.plots_after, ← Call.visible_iff]
      simp only [List.mem_append]
      exact ⟨fun h p hp => h p (.inr hp), fun h p hp => hp.elim (hs p) (h p)⟩
    rw [AllFit, Fold.each_cons]
    constructor
    · intro h
      have hcall : ∀ p ∈ (call.after s).plots, s.Visible p := fun p hp => h p (hgrow p hp)
      refine ⟨hstep.mp hcall, (ih _ fun p hp => (hvisible p).mpr (hcall p hp)).mp ?_⟩
      exact fun p hp => (hvisible p).mpr (h p hp)
    · rintro ⟨hcall, hcalls⟩ p hp
      have hbefore : ∀ q ∈ (call.after s).plots, (call.after s).Visible q :=
        fun q hq => (hvisible q).mpr (hstep.mpr hcall q hq)
      exact (hvisible p).mp ((ih _ hbefore).mpr hcalls p hp)

/-- What the calls plot comes behind the log, and it is on the screen exactly when each call finds
its cell. -/
theorem exists_drawn (calls : List Call) :
    ∀ s : Screen, ∃ drawn, (calls.foldl Call.after s).plots = s.plots ++ drawn ∧
      ((∀ p ∈ drawn, s.Visible p) ↔ AllFit s calls) := by
  induction calls with
  | nil => exact fun s => ⟨[], (List.append_nil _).symm, iff_of_true (by simp) Fold.each_nil⟩
  | cons call calls ih =>
    intro s
    obtain ⟨drawn, hplots, hdrawn⟩ := ih (call.after s)
    unfold Screen.Visible at hdrawn
    rw [Call.width_after, Call.height_after] at hdrawn
    refine ⟨call.plots s ++ drawn, ?_, ?_⟩
    · rw [List.foldl_cons, hplots, Call.plots_after, List.append_assoc]
    · rw [List.forall_mem_append, Call.visible_iff, AllFit, Fold.each_cons]
      exact and_congr Iff.rfl hdrawn

/-- The calls end, and every pixel they write is on the screen and in the framebuffer. -/
def StaysOnScreen (s : Screen) (calls : List Call) : Prop :=
  ∃ s', (calls.forM Call.code).run s = .ok ((), s') ∧
    ∀ p ∈ s'.plots, s.Visible p ∧ s.InFramebuffer p

theorem run_calls (calls : List Call) (s : Screen) :
    (calls.forM Call.code).run s = .ok ((), calls.foldl Call.after s) :=
  run_forM (fun call s => Call.run call s) calls s

theorem StaysOnScreen.visible {s : Screen} {calls : List Call} (h : StaysOnScreen s calls) :
    ∀ p ∈ (calls.foldl Call.after s).plots, s.Visible p := by
  obtain ⟨s', hs', hvisible⟩ := h
  obtain rfl : calls.foldl Call.after s = s' := by
    rw [run_calls] at hs'
    exact (Prod.mk.inj (Except.ok.inj hs')).2
  exact fun p hp => (hvisible p hp).1

/-- From any cursor and on any screen, a sequence of calls stays on the screen exactly when each
call that draws finds its cell there. -/
theorem staysOnScreen_iff (s : Screen) (hpitch : 4 * s.width.toNat ≤ s.pitch.toNat)
    (hplots : s.plots = []) (calls : List Call) : StaysOnScreen s calls ↔ AllFit s calls := by
  rw [← plots_visible_iff calls s (by simp [hplots])]
  constructor
  · exact StaysOnScreen.visible
  · intro h
    exact ⟨_, run_calls calls s, fun p hp => ⟨h p hp, index_lt hpitch (h p hp)⟩⟩

theorem staysOnScreen_one_cell : StaysOnScreen (blank 8 8 32) [.printChar 'A'.toUInt8] := by
  apply (staysOnScreen_iff (blank 8 8 32) (by decide) rfl _).mpr
  exact Fold.each_cons.mpr ⟨fun _ _ => by decide, Fold.each_nil⟩

/-- The second character of a screen of one cell is drawn beside the screen. -/
theorem staysOnScreen_fails :
    ¬ ∀ s : Screen, 8 ≤ s.width → 8 ≤ s.height → 4 * s.width.toNat ≤ s.pitch.toNat →
      s.cursorX = 0 → s.cursorY = 0 → s.plots = [] → ∀ calls, StaysOnScreen s calls := by
  intro h
  have hstays := h (blank 8 8 32) (by decide) (by decide) (by decide) rfl rfl rfl
    [.printChar 'A'.toUInt8, .printChar 'A'.toUInt8]
  have hfit := (plots_visible_iff _ _ (by simp [blank])).mp hstays.visible
  have hfits := (Fold.each_cons.mp (Fold.each_cons.mp hfit).2).1
  have hcell := (hfits (by decide) (by decide)).1
  revert hcell
  decide

end EyaX.Console
