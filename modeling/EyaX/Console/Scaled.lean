import EyaX.Console.OnScreen

/-!
# Enlarged characters

`eX_DrawScaledChar` draws a square of `scale` by `scale` pixels for every bit that is set in the
glyph, and nothing for the others. It numbers the columns of a row from the lowest bit,
`eX_DrawChar` and `eX_DrawLogo` number them from the highest: what it draws is the enlargement of
the glyph's mirror image.
-/

namespace EyaX.Console

open Interrupt Code

/-- `glyph[row] & (1 << col)`. -/
def scaledLit (c : UInt8) (row col : Nat) : Bool := fontRow c row &&& 1 <<< UInt8.ofNat col ≠ 0

def drawScaledChar (x y : UInt32) (c : UInt8) (scale : UInt32) : Code Stop Screen Unit :=
  if c ≥ 128 then pure ()
  else
    (List.range 8).forM fun row =>
      (List.range 8).forM fun col =>
        if scaledLit c row col then
          (List.range scale.toNat).forM fun dy =>
            (List.range scale.toNat).forM fun dx => do
              let s ← get
              putPixel (x + UInt32.ofNat col * scale + UInt32.ofNat dx).toUInt64
                (y + UInt32.ofNat row * scale + UInt32.ofNat dy).toUInt64 s.foreground
        else pure ()

/-! ## Its effect -/

namespace Screen

variable (s : Screen)

/-- The pixel at `dx` and `dy` of the square for a row and a column of the glyph. -/
def squarePixel (x y scale : UInt32) (row col dy dx : Nat) : Plot :=
  ⟨(x + UInt32.ofNat col * scale + UInt32.ofNat dx).toUInt64,
    (y + UInt32.ofNat row * scale + UInt32.ofNat dy).toUInt64, s.foreground⟩

/-- What is plotted for a row and a column of the glyph. -/
def square (x y : UInt32) (c : UInt8) (scale : UInt32) (row col : Nat) : List Plot :=
  if scaledLit c row col then
    (List.range scale.toNat).flatMap fun dy =>
      (List.range scale.toNat).map (s.squarePixel x y scale row col dy)
  else []

/-- What `eX_DrawScaledChar` plots. -/
def scaledCell (x y : UInt32) (c : UInt8) (scale : UInt32) : List Plot :=
  if c ≥ 128 then []
  else (List.range 8).flatMap fun row => (List.range 8).flatMap (s.square x y c scale row)

end Screen

theorem run_drawScaledChar (x y : UInt32) (c : UInt8) (scale : UInt32) (s : Screen) :
    (drawScaledChar x y c scale).run s = .ok ((), s.putAll (s.scaledCell x y c scale)) := by
  unfold drawScaledChar Screen.scaledCell
  by_cases hc : c ≥ 128
  · rw [if_pos hc, if_pos hc]
    rfl
  rw [if_neg hc, if_neg hc]
  have hpixel : ∀ row col dy dx (s : Screen),
      (get >>= fun s => putPixel (x + UInt32.ofNat col * scale + UInt32.ofNat dx).toUInt64
        (y + UInt32.ofNat row * scale + UInt32.ofNat dy).toUInt64 s.foreground).run s =
        .ok ((), s.put (s.squarePixel x y scale row col dy dx)) := by
    intro row col dy dx s
    rw [run_get_bind, putPixel, run_modify]
    rfl
  have hsquare : ∀ row col (s : Screen),
      (if scaledLit c row col then
        (List.range scale.toNat).forM fun dy =>
          (List.range scale.toNat).forM fun dx => get >>= fun s =>
            putPixel (x + UInt32.ofNat col * scale + UInt32.ofNat dx).toUInt64
              (y + UInt32.ofNat row * scale + UInt32.ofNat dy).toUInt64 s.foreground
      else pure ()).run s = .ok ((), s.putAll (s.square x y c scale row col)) := by
    intro row col s
    unfold Screen.square
    by_cases hlit : scaledLit c row col = true
    · rw [if_pos hlit, if_pos hlit]
      exact run_forM_putAll (fun dy => run_forM_put (hpixel row col dy) (fun _ _ _ => rfl) _)
        (fun _ _ _ => rfl) _ s
    · rw [if_neg hlit, if_neg hlit]
      rfl
  exact run_forM_putAll (fun row => run_forM_putAll (hsquare row) (fun _ _ _ => rfl) _)
    (fun _ _ _ => rfl) _ s

/-! ## Coordinates -/

/-- The pixel that lies `X` to the right of and `Y` below `x` and `y`. -/
def offset (x y : UInt32) (X Y : Nat) (color : UInt32) : Plot :=
  ⟨UInt64.ofNat (x.toNat + X), UInt64.ofNat (y.toNat + Y), color⟩

theorem square_bound {scale i d : Nat} (hi : i < 8) (hd : d < scale) : i * scale + d < 8 * scale := by
  have hsquare : i * scale + scale ≤ 8 * scale := by
    rw [← Nat.succ_mul]
    exact Nat.mul_le_mul_right _ hi
  omega

section Coordinates

variable {x scale : UInt32} (hx : x.toNat + 8 * scale.toNat ≤ 2 ^ 32)

include hx

theorem coordinate_eq {i d : Nat} (hi : i < 8) (hd : d < scale.toNat) :
    (x + UInt32.ofNat i * scale + UInt32.ofNat d).toUInt64 =
      UInt64.ofNat (x.toNat + (i * scale.toNat + d)) := by
  have hbound : i * scale.toNat + d < 8 * scale.toNat := square_bound hi hd
  have hmul : (UInt32.ofNat i * scale).toNat = i * scale.toNat := by
    rw [UInt32.toNat_mul, UInt32.toNat_ofNat_of_lt' (by omega : i < 2 ^ 32),
      Nat.mod_eq_of_lt (by omega)]
  apply UInt64.toNat_inj.mp
  rw [UInt32.toNat_toUInt64, UInt32.toNat_add, UInt32.toNat_add, hmul,
    UInt32.toNat_ofNat_of_lt' (by omega : d < 2 ^ 32), toNat_ofNat (by omega)]
  omega

end Coordinates

theorem offset_inj {x y : UInt32} {n X Y X' Y' : Nat} {color color' : UInt32}
    (hx : x.toNat + n ≤ 2 ^ 32) (hy : y.toNat + n ≤ 2 ^ 32) (hX : X < n) (hY : Y < n) (hX' : X' < n)
    (hY' : Y' < n) (h : offset x y X Y color = offset x y X' Y' color') :
    X = X' ∧ Y = Y' ∧ color = color' := by
  obtain ⟨hcolumn, hrow, hcolor⟩ := Plot.mk.inj h
  have htoNat := congrArg UInt64.toNat hcolumn
  have htoNat' := congrArg UInt64.toNat hrow
  rw [toNat_ofNat (by omega), toNat_ofNat (by omega)] at htoNat htoNat'
  exact ⟨by omega, by omega, hcolor⟩

theorem square_div {scale i d : Nat} (hd : d < scale) : (i * scale + d) / scale = i := by
  rw [Nat.mul_comm, Nat.mul_add_div (by omega), Nat.div_eq_of_lt hd, Nat.add_zero]

theorem div_lt_eight {scale i : Nat} (h : i < 8 * scale) : i / scale < 8 :=
  Nat.div_lt_of_lt_mul (by omega)

theorem mem_square {x y scale : UInt32} {c : UInt8} {row col : Nat} {s : Screen} {p : Plot} :
    p ∈ s.square x y c scale row col ↔
      scaledLit c row col = true ∧
        ∃ dy < scale.toNat, ∃ dx < scale.toNat, s.squarePixel x y scale row col dy dx = p := by
  unfold Screen.square
  by_cases hlit : scaledLit c row col = true
  · simp [hlit]
  · simp [hlit]

section Square

variable {x y scale : UInt32} {c : UInt8} (hc : c < 128)
  (hx : x.toNat + 8 * scale.toNat ≤ 2 ^ 32) (hy : y.toNat + 8 * scale.toNat ≤ 2 ^ 32)

include hc hx hy

theorem mem_scaledCell {s : Screen} {p : Plot} :
    p ∈ s.scaledCell x y c scale ↔
      ∃ X < 8 * scale.toNat, ∃ Y < 8 * scale.toNat,
        scaledLit c (Y / scale.toNat) (X / scale.toNat) = true ∧ p = offset x y X Y s.foreground := by
  rw [Screen.scaledCell, if_neg (UInt8.not_le.mpr hc)]
  simp only [List.mem_flatMap, List.mem_range, mem_square]
  constructor
  · rintro ⟨row, hrow, col, hcol, hlit, dy, hdy, dx, hdx, rfl⟩
    refine ⟨_, square_bound hcol hdx, _, square_bound hrow hdy, ?_, ?_⟩
    · rwa [square_div hdx, square_div hdy]
    · rw [Screen.squarePixel, coordinate_eq hx hcol hdx, coordinate_eq hy hrow hdy]
      rfl
  · rintro ⟨X, hX, Y, hY, hlit, rfl⟩
    have hpos : 0 < scale.toNat := by omega
    have hdx : X % scale.toNat < scale.toNat := Nat.mod_lt _ hpos
    have hdy : Y % scale.toNat < scale.toNat := Nat.mod_lt _ hpos
    refine ⟨_, div_lt_eight hY, _, div_lt_eight hX, hlit, _, hdy, _, hdx, ?_⟩
    rw [Screen.squarePixel, coordinate_eq hx (div_lt_eight hX) hdx,
      coordinate_eq hy (div_lt_eight hY) hdy, Nat.div_add_mod', Nat.div_add_mod']
    rfl

end Square

/-! ## What `eX_DrawChar` plots -/

section Plain

variable {x y : UInt32} {c : UInt8} (hc : c < 128)
  (hx : x.toNat + 8 ≤ 2 ^ 32) (hy : y.toNat + 8 ≤ 2 ^ 32)

include hc hx hy

theorem mem_cell_offset {s : Screen} {p : Plot} :
    p ∈ s.cell c x.toUInt64 y.toUInt64 ↔
      ∃ X < 8, ∃ Y < 8, p = offset x y X Y (if lit c Y X then s.foreground else s.background) := by
  have hsum : ∀ {z : UInt32} {i : Nat}, z.toNat + 8 ≤ 2 ^ 32 → i < 8 →
      z.toUInt64 + UInt64.ofNat i = UInt64.ofNat (z.toNat + i) := by
    intro z i hz hi
    apply UInt64.toNat_inj.mp
    rw [toNat_ofNat (by omega), toNat_add, UInt32.toNat_toUInt64, toNat_ofNat (by omega)]
    rw [UInt32.toNat_toUInt64, toNat_ofNat (by omega)]
    omega
  rw [mem_cell]
  constructor
  · rintro ⟨-, Y, hY, X, hX, rfl⟩
    refine ⟨X, hX, Y, hY, ?_⟩
    rw [Screen.pixel, hsum hx hX, hsum hy hY]
    rfl
  · rintro ⟨X, hX, Y, hY, rfl⟩
    refine ⟨hc, Y, hY, X, hX, ?_⟩
    rw [Screen.pixel, hsum hx hX, hsum hy hY]
    rfl

end Plain

/-! ## Enlargement -/

/-- The code ends, and it has plotted `p`. -/
def Plotted (code : Code Stop Screen Unit) (s : Screen) (p : Plot) : Prop :=
  ∃ s' l, code.run s = .ok ((), s') ∧ s'.plots = s.plots ++ l ∧ p ∈ l

theorem plotted_iff {code : Code Stop Screen Unit} {s : Screen} {l : List Plot} {p : Plot}
    (h : code.run s = .ok ((), s.putAll l)) : Plotted code s p ↔ p ∈ l := by
  constructor
  · rintro ⟨s', l', hrun, hplots, hp⟩
    obtain rfl : s.putAll l = s' := (Prod.mk.inj (Except.ok.inj (h.symm.trans hrun))).2
    rw [Screen.putAll_plots] at hplots
    rwa [List.append_cancel_left hplots]
  · exact fun hp => ⟨_, l, h, Screen.putAll_plots s l, hp⟩

/-- `eX_DrawScaledChar` plots the enlargement of what `eX_DrawChar` plots. -/
structure Enlarges (x y : UInt32) (c : UInt8) (scale : UInt32) (s : Screen) : Prop where
  ends : ∃ s', (drawScaledChar x y c scale).run s = .ok ((), s')
  enlarged : ∀ X < 8 * scale.toNat, ∀ Y < 8 * scale.toNat,
    (Plotted (drawScaledChar x y c scale) s (offset x y X Y s.foreground) ↔
      Plotted (drawChar c 0 0) s
        ⟨UInt64.ofNat (X / scale.toNat), UInt64.ofNat (Y / scale.toNat), s.foreground⟩)
  inside : ∀ p, Plotted (drawScaledChar x y c scale) s p →
    (x.toNat ≤ p.x.toNat ∧ p.x.toNat < x.toNat + 8 * scale.toNat) ∧
      y.toNat ≤ p.y.toNat ∧ p.y.toNat < y.toNat + 8 * scale.toNat
  plain : scale = 1 → ∀ p, p.color = s.foreground →
    (Plotted (drawScaledChar x y c scale) s p ↔
      Plotted (drawChar c x.toUInt64 y.toUInt64) s p)

/-- The glyph is its own mirror image. -/
def Mirrored (c : UInt8) : Prop := ∀ row < 8, ∀ col < 8, lit c row (7 - col) = lit c row col

instance (c : UInt8) : Decidable (Mirrored c) :=
  inferInstanceAs (Decidable (∀ row < 8, ∀ col < 8, lit c row (7 - col) = lit c row col))

/-- The two routines take the bits of a row from opposite ends. -/
theorem scaledLit_eq (c : UInt8) (row : Nat) {col : Nat} (h : col < 8) :
    scaledLit c row col = lit c row (7 - col) := by
  rw [scaledLit, lit, Nat.sub_sub_self (by omega)]

theorem font_corner :
    (font.all fun glyph => glyph.2.getD 1 0 &&& 1 <<< UInt8.ofNat 7 == 0) = true := by decide

/-- In every glyph the first pixel of the second row is dark. -/
theorem lit_corner (c : UInt8) : lit c 1 0 = false := by
  rcases fontRow_mem c 1 with hrow | ⟨glyph, hglyph, hrow⟩
  · rw [lit, hrow]
    decide
  · have hdark := List.all_eq_true.mp font_corner glyph hglyph
    rw [lit, hrow, decide_eq_false_iff_not, not_not]
    exact eq_of_beq hdark

section Iff

variable {x y scale : UInt32} {c : UInt8} {s : Screen} (hc : c < 128)

include hc

theorem plotted_drawChar_iff {X Y : Nat} (hX : X < 8) (hY : Y < 8) :
    Plotted (drawChar c 0 0) s ⟨UInt64.ofNat X, UInt64.ofNat Y, s.foreground⟩ ↔
      lit c Y X = true ∨ s.foreground = s.background := by
  have hzero : (0 : UInt32).toNat + 8 ≤ 2 ^ 32 := by decide
  have hplot : (⟨UInt64.ofNat X, UInt64.ofNat Y, s.foreground⟩ : Plot) =
      offset 0 0 X Y s.foreground := by
    rw [offset, show (0 : UInt32).toNat = 0 from rfl, Nat.zero_add, Nat.zero_add]
  rw [plotted_iff (run_drawChar c 0 0 s), show (0 : UInt64) = (0 : UInt32).toUInt64 from rfl,
    mem_cell_offset hc hzero hzero, hplot]
  constructor
  · rintro ⟨X', hX', Y', hY', heq⟩
    obtain ⟨rfl, rfl, hcolor⟩ := offset_inj hzero hzero hX hY hX' hY' heq
    by_cases hlit : lit c Y X = true
    · exact .inl hlit
    · rw [if_neg hlit] at hcolor
      exact .inr hcolor
  · intro h
    refine ⟨X, hX, Y, hY, ?_⟩
    by_cases hlit : lit c Y X = true
    · rw [if_pos hlit]
    · rw [if_neg hlit, ← h.resolve_left hlit]

variable (hx : x.toNat + 8 * scale.toNat ≤ 2 ^ 32) (hy : y.toNat + 8 * scale.toNat ≤ 2 ^ 32)

include hx hy

theorem plotted_drawScaledChar_iff {X Y : Nat} (hX : X < 8 * scale.toNat)
    (hY : Y < 8 * scale.toNat) :
    Plotted (drawScaledChar x y c scale) s (offset x y X Y s.foreground) ↔
      lit c (Y / scale.toNat) (7 - X / scale.toNat) = true := by
  rw [plotted_iff (run_drawScaledChar x y c scale s), mem_scaledCell hc hx hy,
    ← scaledLit_eq c _ (div_lt_eight hX)]
  constructor
  · rintro ⟨X', hX', Y', hY', hlit, heq⟩
    obtain ⟨rfl, rfl, -⟩ := offset_inj hx hy hX hY hX' hY' heq
    exact hlit
  · exact fun hlit => ⟨X, hX, Y, hY, hlit, rfl⟩

theorem Enlarges.lit_iff (hscale : 1 ≤ scale) (h : Enlarges x y c scale s) {row col : Nat}
    (hrow : row < 8) (hcol : col < 8) :
    lit c row (7 - col) = true ↔ lit c row col = true ∨ s.foreground = s.background := by
  have hpos : 0 < scale.toNat := UInt32.le_iff_toNat_le.mp hscale
  have hX : col * scale.toNat < 8 * scale.toNat := Nat.mul_lt_mul_of_pos_right hcol hpos
  have hY : row * scale.toNat < 8 * scale.toNat := Nat.mul_lt_mul_of_pos_right hrow hpos
  have henlarged := h.enlarged _ hX _ hY
  rw [plotted_drawScaledChar_iff hc hx hy hX hY, Nat.mul_div_cancel _ hpos,
    Nat.mul_div_cancel _ hpos, plotted_drawChar_iff hc hcol hrow] at henlarged
  exact henlarged

theorem Enlarges.mirrored (hscale : 1 ≤ scale) (h : Enlarges x y c scale s) :
    Mirrored c ∧ s.foreground ≠ s.background := by
  have hcolors : s.foreground ≠ s.background := by
    intro hsame
    have hlit := (h.lit_iff hc hx hy hscale (by decide : 1 < 8) (by decide : 7 < 8)).mpr (.inr hsame)
    rw [lit_corner] at hlit
    cases hlit
  refine ⟨fun row hrow col hcol => ?_, hcolors⟩
  rw [Bool.eq_iff_iff, h.lit_iff hc hx hy hscale hrow hcol, or_iff_left hcolors]

theorem enlarges_of_mirrored (hmirrored : Mirrored c) (hcolors : s.foreground ≠ s.background) :
    Enlarges x y c scale s where
  ends := ⟨_, run_drawScaledChar x y c scale s⟩
  enlarged X hX Y hY := by
    have hcol := div_lt_eight hX
    have hrow := div_lt_eight hY
    rw [plotted_drawScaledChar_iff hc hx hy hX hY, plotted_drawChar_iff hc hcol hrow,
      hmirrored _ hrow _ hcol, or_iff_left hcolors]
  inside p hp := by
    rw [plotted_iff (run_drawScaledChar x y c scale s), mem_scaledCell hc hx hy] at hp
    obtain ⟨X, hX, Y, hY, -, rfl⟩ := hp
    rw [offset, toNat_ofNat (by omega), toNat_ofNat (by omega)]
    omega
  plain hscale p hp := by
    subst hscale
    have hlit : ∀ X < 8, ∀ Y < 8, scaledLit c (Y / (1 : UInt32).toNat) (X / (1 : UInt32).toNat) =
        lit c Y X := by
      intro X hX Y hY
      rw [show (1 : UInt32).toNat = 1 from rfl, Nat.div_one, Nat.div_one, scaledLit_eq c Y hX,
        hmirrored Y hY X hX]
    rw [plotted_iff (run_drawScaledChar x y c 1 s), mem_scaledCell hc hx hy,
      plotted_iff (run_drawChar c _ _ s), mem_cell_offset hc hx hy]
    constructor
    · rintro ⟨X, hX, Y, hY, hscaled, rfl⟩
      rw [hlit X hX Y hY] at hscaled
      exact ⟨X, hX, Y, hY, by rw [if_pos hscaled]⟩
    · rintro ⟨X, hX, Y, hY, rfl⟩
      by_cases hplain : lit c Y X = true
      · refine ⟨X, hX, Y, hY, ?_, by rw [if_pos hplain]⟩
        rwa [hlit X hX Y hY]
      · rw [if_neg hplain] at hp
        exact absurd hp.symm hcolors

/-- `eX_DrawScaledChar` enlarges exactly the characters whose glyph is its own mirror image, and
these as long as the two colours differ. -/
theorem enlarges_iff (hscale : 1 ≤ scale) :
    Enlarges x y c scale s ↔ Mirrored c ∧ s.foreground ≠ s.background := by
  constructor
  · exact fun h => h.mirrored hc hx hy hscale
  · rintro ⟨hmirrored, hcolors⟩
    exact enlarges_of_mirrored hc hx hy hmirrored hcolors

end Iff

theorem enlarges_A : Enlarges 16 16 'A'.toUInt8 4 (blank 64 64 256) :=
  (enlarges_iff (by decide) (by decide) (by decide) (by decide)).mpr ⟨by decide, by decide⟩

/-- A `B` opens to the left. -/
theorem enlarges_fails :
    ¬ ∀ (x y : UInt32) (c : UInt8) (scale : UInt32) (s : Screen), c < 128 → 1 ≤ scale →
      x.toNat + 8 * scale.toNat ≤ 2 ^ 32 → y.toNat + 8 * scale.toNat ≤ 2 ^ 32 →
      s.foreground ≠ s.background → Enlarges x y c scale s := by
  intro h
  have hB := h 0 0 'B'.toUInt8 1 (blank 8 8 32) (by decide) (by decide) (by decide) (by decide)
    (by decide)
  have hmirrored := (hB.mirrored (by decide) (by decide) (by decide) (by decide)).1
  revert hmirrored
  decide

end EyaX.Console
