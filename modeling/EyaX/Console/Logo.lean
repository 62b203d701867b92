import EyaX.Console.Scaled

/-!
# The logo

`eX_DrawLogo` takes the characters of its string from the last to the first and the columns of a row
from the highest bit, so it draws `eyaX` upright, four times as large as `eX_DrawChar` does, 16
pixels from the top and from the right edge. It lies on the screen exactly if there are 144 by 48
pixels.
-/

namespace EyaX.Console

open Interrupt Code

/-! ## `eX_DrawLogo` -/

def logo : List UInt8 := bytes "Xaye"

def logoScale : UInt32 := 4
def logoMargin : UInt32 := 16

/-- `x` for a framebuffer of this width. -/
def logoX (width : UInt64) : UInt32 :=
  let logoWidth : UInt32 := (4 * charWidth * logoScale.toUInt64).toUInt32
  (width - logoWidth.toUInt64 - logoMargin.toUInt64).toUInt32

/-- `char_x`. -/
def logoCharX (width : UInt64) (i : Nat) : UInt32 :=
  ((logoX width).toUInt64 + UInt64.ofNat i * charWidth * logoScale.toUInt64).toUInt32

def drawLogo : Code Stop Screen Unit := do
  let s ← get
  (List.range 4).forM fun i =>
    (List.range 8).forM fun row =>
      (List.range 8).forM fun col =>
        if lit (logo.getD (3 - i) 0) row col then
          (List.range 4).forM fun dy =>
            (List.range 4).forM fun dx => do
              let t ← get
              putPixel ((logoCharX s.width i).toUInt64 + UInt64.ofNat col * logoScale.toUInt64 +
                  UInt64.ofNat dx)
                (logoMargin.toUInt64 + UInt64.ofNat row * logoScale.toUInt64 + UInt64.ofNat dy)
                t.foreground
        else pure ()

/-! ## Its effect -/

namespace Screen

variable (s : Screen)

def logoPixel (width : UInt64) (i row col dy dx : Nat) : Plot :=
  ⟨(logoCharX width i).toUInt64 + UInt64.ofNat col * logoScale.toUInt64 + UInt64.ofNat dx,
    logoMargin.toUInt64 + UInt64.ofNat row * logoScale.toUInt64 + UInt64.ofNat dy, s.foreground⟩

def logoSquare (width : UInt64) (i row col : Nat) : List Plot :=
  if lit (logo.getD (3 - i) 0) row col then
    (List.range 4).flatMap fun dy => (List.range 4).map (s.logoPixel width i row col dy)
  else []

def logoChar (width : UInt64) (i : Nat) : List Plot :=
  (List.range 8).flatMap fun row => (List.range 8).flatMap (s.logoSquare width i row)

/-- What `eX_DrawLogo` plots. -/
def logoCells : List Plot := (List.range 4).flatMap (s.logoChar s.width)

end Screen

theorem run_logoPixel (width : UInt64) (i row col dy dx : Nat) (s : Screen) :
    (get >>= fun t =>
      putPixel ((logoCharX width i).toUInt64 + UInt64.ofNat col * logoScale.toUInt64 + UInt64.ofNat dx)
        (logoMargin.toUInt64 + UInt64.ofNat row * logoScale.toUInt64 + UInt64.ofNat dy)
        t.foreground).run s = .ok ((), s.put (s.logoPixel width i row col dy dx)) := by
  rw [run_get_bind, putPixel, run_modify]
  rfl

theorem run_logoSquare (width : UInt64) (i row col : Nat) (s : Screen) :
    ((if lit (logo.getD (3 - i) 0) row col then
      (List.range 4).forM fun dy =>
        (List.range 4).forM fun dx => get >>= fun t =>
          putPixel ((logoCharX width i).toUInt64 + UInt64.ofNat col * logoScale.toUInt64 +
              UInt64.ofNat dx)
            (logoMargin.toUInt64 + UInt64.ofNat row * logoScale.toUInt64 + UInt64.ofNat dy)
            t.foreground
    else pure ()) : Code Stop Screen Unit).run s = .ok ((), s.putAll (s.logoSquare width i row col)) := by
  unfold Screen.logoSquare
  generalize 4 = n
  by_cases hlit : lit (logo.getD (3 - i) 0) row col = true
  · rw [if_pos hlit, if_pos hlit]
    exact run_forM_putAll (fun dy => run_forM_put (run_logoPixel width i row col dy)
      (fun _ _ _ => rfl) _) (fun _ _ _ => rfl) _ s
  · rw [if_neg hlit, if_neg hlit]
    rfl

theorem run_drawLogo (s : Screen) : drawLogo.run s = .ok ((), s.putAll s.logoCells) := by
  unfold drawLogo Screen.logoCells
  rw [run_get_bind]
  refine run_forM_putAll (fun i => run_forM_putAll (fun row => run_forM_putAll
    (fun col => run_logoSquare s.width i row col) (fun _ _ _ => rfl) _) (fun _ _ _ => rfl) _)
    (fun _ _ _ => rfl) _ s

/-! ## Where it lies -/

theorem logoX_toNat {width : UInt64} (h : width.toNat < 2 ^ 32) :
    (logoX width).toNat = if 144 ≤ width.toNat then width.toNat - 144 else 2 ^ 32 + width.toNat - 144 := by
  have hsub : (logoX width).toNat = (width - 128 - 16).toNat % 2 ^ 32 := UInt64.toNat_toUInt32 _
  rw [hsub, UInt64.toNat_sub, UInt64.toNat_sub]
  show (2 ^ 64 - 16 + (2 ^ 64 - 128 + width.toNat) % 2 ^ 64) % 2 ^ 64 % 2 ^ 32 = _
  split_ifs <;> omega

theorem logoCharX_toNat {width : UInt64} {i : Nat} (hi : i < 4) (hlo : 144 ≤ width.toNat)
    (hhi : width.toNat < 2 ^ 32) : (logoCharX width i).toNat = width.toNat - 144 + 32 * i := by
  have hx := logoX_toNat hhi
  rw [if_pos hlo] at hx
  have hsum : (logoCharX width i).toNat =
      ((logoX width).toUInt64 + UInt64.ofNat i * charWidth * logoScale.toUInt64).toNat % 2 ^ 32 :=
    UInt64.toNat_toUInt32 _
  rw [hsum, UInt64.toNat_add, UInt64.toNat_mul, UInt64.toNat_mul, UInt32.toNat_toUInt64, hx,
    toNat_ofNat (by omega)]
  show (_ + i * 8 % 2 ^ 64 * 4 % 2 ^ 64) % 2 ^ 64 % 2 ^ 32 = _
  omega

theorem logoCharX_zero (width : UInt64) : logoCharX width 0 = logoX width := by
  rw [logoCharX, show UInt64.ofNat 0 = 0 from rfl, UInt64.zero_mul, UInt64.zero_mul, UInt64.add_zero]
  exact UInt32.toUInt32_toUInt64 _

theorem logo_coordinate (x : UInt32) {i d : Nat} (hi : i < 8) (hd : d < 4) :
    x.toUInt64 + UInt64.ofNat i * logoScale.toUInt64 + UInt64.ofNat d =
      UInt64.ofNat (x.toNat + (i * 4 + d)) := by
  have hx := x.toNat_lt
  apply UInt64.toNat_inj.mp
  rw [UInt64.toNat_add, UInt64.toNat_add, UInt64.toNat_mul, UInt32.toNat_toUInt64,
    toNat_ofNat (by omega), toNat_ofNat (by omega), toNat_ofNat (by omega)]
  show ((x.toNat + i * 4 % 2 ^ 64) % 2 ^ 64 + d) % 2 ^ 64 = _
  omega

/-- The pixel in column `X` and row `Y` of character `i`. -/
def Screen.logoOffset (s : Screen) (i X Y : Nat) : Plot :=
  ⟨UInt64.ofNat ((logoCharX s.width i).toNat + X), UInt64.ofNat (16 + Y), s.foreground⟩

theorem mem_logoSquare {s : Screen} {width : UInt64} {i row col : Nat} {p : Plot} :
    p ∈ s.logoSquare width i row col ↔ lit (logo.getD (3 - i) 0) row col = true ∧
      ∃ dy < 4, ∃ dx < 4, s.logoPixel width i row col dy dx = p := by
  rw [Screen.logoSquare, List.mem_ite_nil_right]
  simp only [List.mem_flatMap, List.mem_map, List.mem_range]

theorem mem_logoCells {s : Screen} {p : Plot} : p ∈ s.logoCells ↔
    ∃ i < 4, ∃ X < 32, ∃ Y < 32, lit (logo.getD (3 - i) 0) (Y / 4) (X / 4) = true ∧
      p = s.logoOffset i X Y := by
  unfold Screen.logoCells Screen.logoChar
  simp only [List.mem_flatMap, List.mem_range, mem_logoSquare]
  constructor
  · rintro ⟨i, hi, row, hrow, col, hcol, hlit, dy, hdy, dx, hdx, rfl⟩
    refine ⟨i, hi, _, square_bound hcol hdx, _, square_bound hrow hdy, ?_, ?_⟩
    · rwa [square_div hdx, square_div hdy]
    · rw [Screen.logoPixel, logo_coordinate _ hcol hdx, logo_coordinate _ hrow hdy]
      rfl
  · rintro ⟨i, hi, X, hX, Y, hY, hlit, rfl⟩
    refine ⟨i, hi, Y / 4, by omega, X / 4, by omega, hlit, Y % 4, by omega, X % 4, by omega, ?_⟩
    rw [Screen.logoPixel, logo_coordinate _ (by omega) (by omega),
      logo_coordinate _ (by omega) (by omega), Nat.div_add_mod', Nat.div_add_mod']
    rfl

/-! ## What it shows -/

theorem logo_reversed : ∀ i < 4, logo.getD (3 - i) 0 = (bytes "eyaX").getD i 0 := by decide

theorem logo_has_glyphs : ∀ i < 4, (bytes "eyaX").getD i 0 < 128 := by decide

theorem logo_visible_iff {s : Screen} (h : s.width.toNat < 2 ^ 32) :
    (∀ p ∈ s.logoCells, s.Visible p) ↔ 144 ≤ s.width.toNat ∧ 48 ≤ s.height.toNat := by
  constructor
  · intro hall
    constructor
    · -- the second lit row of the `e`
      by_contra hlt
      have hx := logoX_toNat h
      rw [if_neg hlt, ← logoCharX_zero] at hx
      have hmem : s.logoOffset 0 8 8 ∈ s.logoCells :=
        mem_logoCells.mpr ⟨0, by decide, 8, by decide, 8, by decide, by decide, rfl⟩
      have hvisible := UInt64.lt_iff_toNat_lt.mp (hall _ hmem).1
      rw [Screen.logoOffset, toNat_ofNat (by omega)] at hvisible
      omega
    · -- the last row of the `y`
      have hmem : s.logoOffset 1 4 31 ∈ s.logoCells :=
        mem_logoCells.mpr ⟨1, by decide, 4, by decide, 31, by decide, by decide, rfl⟩
      have hvisible := UInt64.lt_iff_toNat_lt.mp (hall _ hmem).2
      rw [Screen.logoOffset, toNat_ofNat (by decide)] at hvisible
      exact hvisible
  · rintro ⟨hwidth, hheight⟩ p hp
    obtain ⟨i, hi, X, hX, Y, hY, -, rfl⟩ := mem_logoCells.mp hp
    have hx := logoCharX_toNat hi hwidth h
    constructor
    · rw [UInt64.lt_iff_toNat_lt, Screen.logoOffset, toNat_ofNat (by omega)]
      omega
    · rw [UInt64.lt_iff_toNat_lt, Screen.logoOffset, toNat_ofNat (by omega)]
      omega

/-- The logo is `eyaX`, enlarged four times: it lights what lies `X` and `Y` from the corner of one
of its characters exactly if `eX_DrawChar` lights the pixel at a quarter of `X` and `Y`. It is on
the screen exactly if there is room for it. -/
theorem logo_enlarges (s : Screen) (hwidth : s.width.toNat < 2 ^ 32)
    (hcolors : s.foreground ≠ s.background) :
    ((∀ p, Plotted drawLogo s p → s.Visible p) ↔ 144 ≤ s.width.toNat ∧ 48 ≤ s.height.toNat) ∧
      (144 ≤ s.width.toNat → ∀ p, Plotted drawLogo s p ↔ ∃ i < 4, ∃ X < 32, ∃ Y < 32,
        p = ⟨UInt64.ofNat (s.width.toNat - 144 + 32 * i + X), UInt64.ofNat (16 + Y), s.foreground⟩ ∧
        Plotted (drawChar ((bytes "eyaX").getD i 0) 0 0) s
          ⟨UInt64.ofNat (X / 4), UInt64.ofNat (Y / 4), s.foreground⟩) := by
  have hplotted : ∀ p, Plotted drawLogo s p ↔ p ∈ s.logoCells := fun p => plotted_iff (run_drawLogo s)
  refine ⟨?_, fun hroom p => ?_⟩
  · simp only [hplotted]
    exact logo_visible_iff hwidth
  · rw [hplotted, mem_logoCells]
    refine exists_congr fun i => and_congr_right fun hi => exists_congr fun X =>
      and_congr_right fun hX => exists_congr fun Y => and_congr_right fun hY => ?_
    rw [plotted_drawChar_iff (logo_has_glyphs i hi) (by omega) (by omega), or_iff_left hcolors,
      logo_reversed i hi, Screen.logoOffset, logoCharX_toNat hi hroom hwidth]
    exact and_comm

theorem logo_enlarges_144 : (blank 144 48 576).width.toNat = 144 ∧
    ∀ p, Plotted drawLogo (blank 144 48 576) p → (blank 144 48 576).Visible p :=
  ⟨by decide, (logo_enlarges (blank 144 48 576) (by decide) (by decide)).1.mpr
    ⟨by decide, by decide⟩⟩

end EyaX.Console
