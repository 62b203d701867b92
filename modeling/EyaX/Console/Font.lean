import Mathlib.Data.List.Basic

/-!
# `eX_Font`

Eight rows of eight pixels for every character that has an initialiser; the leftmost pixel of a row
is its highest bit.
-/

namespace EyaX.Console

def font : List (Char × List UInt8) :=
  [('A', [0b00011000, 0b00100100, 0b01000010, 0b01000010,
      0b01111110, 0b01000010, 0b01000010, 0b00000000]),
   ('B', [0b01111100, 0b01000010, 0b01000010, 0b01111100,
      0b01000010, 0b01000010, 0b01111100, 0b00000000]),
   ('C', [0b00111110, 0b01000000, 0b01000000, 0b01000000,
      0b01000000, 0b01000000, 0b00111110, 0b00000000]),
   ('D', [0b01111100, 0b01000010, 0b01000010, 0b01000010,
      0b01000010, 0b01000010, 0b01111100, 0b00000000]),
   ('E', [0b01111110, 0b01000000, 0b01000000, 0b01111100,
      0b01000000, 0b01000000, 0b01111110, 0b00000000]),
   ('F', [0b01111110, 0b01000000, 0b01000000, 0b01111100,
      0b01000000, 0b01000000, 0b01000000, 0b00000000]),
   ('G', [0b00111110, 0b01000000, 0b01000000, 0b01001110,
      0b01000010, 0b01000010, 0b00111110, 0b00000000]),
   ('H', [0b01000010, 0b01000010, 0b01000010, 0b01111110,
      0b01000010, 0b01000010, 0b01000010, 0b00000000]),
   ('I', [0b00111110, 0b00001000, 0b00001000, 0b00001000,
      0b00001000, 0b00001000, 0b00111110, 0b00000000]),
   ('J', [0b00011110, 0b00000100, 0b00000100, 0b00000100,
      0b01000100, 0b01000100, 0b00111000, 0b00000000]),
   ('K', [0b01000010, 0b01000100, 0b01001000, 0b01110000,
      0b01001000, 0b01000100, 0b01000010, 0b00000000]),
   ('L', [0b01000000, 0b01000000, 0b01000000, 0b01000000,
      0b01000000, 0b01000000, 0b01111110, 0b00000000]),
   ('M', [0b01000010, 0b01100110, 0b01011010, 0b01000010,
      0b01000010, 0b01000010, 0b01000010, 0b00000000]),
   ('N', [0b01000010, 0b01100010, 0b01010010, 0b01001010,
      0b01000110, 0b01000010, 0b01000010, 0b00000000]),
   ('O', [0b00111100, 0b01000010, 0b01000010, 0b01000010,
      0b01000010, 0b01000010, 0b00111100, 0b00000000]),
   ('P', [0b01111100, 0b01000010, 0b01000010, 0b01111100,
      0b01000000, 0b01000000, 0b01000000, 0b00000000]),
   ('Q', [0b00111100, 0b01000010, 0b01000010, 0b01000010,
      0b01001010, 0b01000100, 0b00111010, 0b00000000]),
   ('R', [0b01111100, 0b01000010, 0b01000010, 0b01111100,
      0b01001000, 0b01000100, 0b01000010, 0b00000000]),
   ('S', [0b00111110, 0b01000000, 0b01000000, 0b00111100,
      0b00000010, 0b00000010, 0b01111100, 0b00000000]),
   ('T', [0b01111110, 0b00001000, 0b00001000, 0b00001000,
      0b00001000, 0b00001000, 0b00001000, 0b00000000]),
   ('U', [0b01000010, 0b01000010, 0b01000010, 0b01000010,
      0b01000010, 0b01000010, 0b00111100, 0b00000000]),
   ('V', [0b01000010, 0b01000010, 0b01000010, 0b01000010,
      0b00100100, 0b00100100, 0b00011000, 0b00000000]),
   ('W', [0b01000010, 0b01000010, 0b01000010, 0b01011010,
      0b01011010, 0b01100110, 0b01000010, 0b00000000]),
   ('X', [0b10000001, 0b01000010, 0b00100100, 0b00011000,
      0b00011000, 0b00100100, 0b01000010, 0b10000001]),
   ('Y', [0b01000010, 0b01000010, 0b00100100, 0b00011000,
      0b00001000, 0b00001000, 0b00001000, 0b00000000]),
   ('Z', [0b01111110, 0b00000010, 0b00000100, 0b00001000,
      0b00010000, 0b00100000, 0b01111110, 0b00000000]),
   ('a', [0b00000000, 0b00000000, 0b00111000, 0b00000100,
      0b00111100, 0b01000100, 0b00111100, 0b00000000]),
   ('b', [0b01000000, 0b01000000, 0b01011100, 0b01100010,
      0b01000010, 0b01100010, 0b01011100, 0b00000000]),
   ('c', [0b00000000, 0b00000000, 0b00111100, 0b01000000,
      0b01000000, 0b01000000, 0b00111100, 0b00000000]),
   ('d', [0b00000010, 0b00000010, 0b00111010, 0b01000110,
      0b01000010, 0b01000110, 0b00111010, 0b00000000]),
   ('e', [0b00000000, 0b00000000, 0b00111000, 0b01000100,
      0b01111100, 0b01000000, 0b00111100, 0b00000000]),
   ('f', [0b00011100, 0b00100000, 0b00100000, 0b01111000,
      0b00100000, 0b00100000, 0b00100000, 0b00000000]),
   ('g', [0b00000000, 0b00111010, 0b01000110, 0b01000010,
      0b01000110, 0b00111010, 0b00000010, 0b00111100]),
   ('h', [0b01000000, 0b01000000, 0b01011100, 0b01100010,
      0b01000010, 0b01000010, 0b01000010, 0b00000000]),
   ('i', [0b00001000, 0b00000000, 0b00111000, 0b00001000,
      0b00001000, 0b00001000, 0b00111110, 0b00000000]),
   ('j', [0b00000100, 0b00000000, 0b00011100, 0b00000100,
      0b00000100, 0b00000100, 0b01000100, 0b00111000]),
   ('k', [0b01000000, 0b01000000, 0b01000100, 0b01001000,
      0b01110000, 0b01001000, 0b01000100, 0b00000000]),
   ('l', [0b00110000, 0b00010000, 0b00010000, 0b00010000,
      0b00010000, 0b00010000, 0b00111000, 0b00000000]),
   ('m', [0b00000000, 0b00000000, 0b01101100, 0b01010010,
      0b01010010, 0b01010010, 0b01010010, 0b00000000]),
   ('n', [0b00000000, 0b00000000, 0b01011100, 0b01100010,
      0b01000010, 0b01000010, 0b01000010, 0b00000000]),
   ('o', [0b00000000, 0b00000000, 0b00111000, 0b01000100,
      0b01000100, 0b01000100, 0b00111000, 0b00000000]),
   ('p', [0b00000000, 0b01011100, 0b01100010, 0b01000010,
      0b01100010, 0b01011100, 0b01000000, 0b01000000]),
   ('q', [0b00000000, 0b00111010, 0b01000110, 0b01000010,
      0b01000110, 0b00111010, 0b00000010, 0b00000010]),
   ('r', [0b00000000, 0b00000000, 0b01011100, 0b01100010,
      0b01000000, 0b01000000, 0b01000000, 0b00000000]),
   ('s', [0b00000000, 0b00000000, 0b00111100, 0b01000000,
      0b00111000, 0b00000100, 0b01111000, 0b00000000]),
   ('t', [0b00100000, 0b00100000, 0b01111000, 0b00100000,
      0b00100000, 0b00100000, 0b00011100, 0b00000000]),
   ('u', [0b00000000, 0b00000000, 0b01000010, 0b01000010,
      0b01000010, 0b01000110, 0b00111010, 0b00000000]),
   ('v', [0b00000000, 0b00000000, 0b01000010, 0b01000010,
      0b00100100, 0b00100100, 0b00011000, 0b00000000]),
   ('w', [0b00000000, 0b00000000, 0b01000010, 0b01011010,
      0b01011010, 0b01100110, 0b01000010, 0b00000000]),
   ('x', [0b00000000, 0b00000000, 0b01000010, 0b00100100,
      0b00011000, 0b00100100, 0b01000010, 0b00000000]),
   ('y', [0b00000000, 0b01000010, 0b01000010, 0b00100100,
      0b00011000, 0b00001000, 0b00010000, 0b01100000]),
   ('z', [0b00000000, 0b00000000, 0b01111100, 0b00000100,
      0b00011000, 0b00100000, 0b01111100, 0b00000000]),
   ('0', [0b00111100, 0b01000010, 0b01000110, 0b01001010,
      0b01010010, 0b01100010, 0b00111100, 0b00000000]),
   ('1', [0b00001000, 0b00011000, 0b00101000, 0b00001000,
      0b00001000, 0b00001000, 0b00111110, 0b00000000]),
   ('2', [0b00111100, 0b01000010, 0b00000010, 0b00001100,
      0b00110000, 0b01000000, 0b01111110, 0b00000000]),
   ('3', [0b00111100, 0b01000010, 0b00000010, 0b00011100,
      0b00000010, 0b01000010, 0b00111100, 0b00000000]),
   ('4', [0b00000100, 0b00001100, 0b00010100, 0b00100100,
      0b01111110, 0b00000100, 0b00000100, 0b00000000]),
   ('5', [0b01111110, 0b01000000, 0b01000000, 0b01111100,
      0b00000010, 0b01000010, 0b00111100, 0b00000000]),
   ('6', [0b00111100, 0b01000000, 0b01000000, 0b01111100,
      0b01000010, 0b01000010, 0b00111100, 0b00000000]),
   ('7', [0b01111110, 0b00000010, 0b00000100, 0b00001000,
      0b00010000, 0b00010000, 0b00010000, 0b00000000]),
   ('8', [0b00111100, 0b01000010, 0b01000010, 0b00111100,
      0b01000010, 0b01000010, 0b00111100, 0b00000000]),
   ('9', [0b00111100, 0b01000010, 0b01000010, 0b00111110,
      0b00000010, 0b00000010, 0b00111100, 0b00000000]),
   ('.', [0b00000000, 0b00000000, 0b00000000, 0b00000000,
      0b00000000, 0b00011000, 0b00011000, 0b00000000]),
   (',', [0b00000000, 0b00000000, 0b00000000, 0b00000000,
      0b00000000, 0b00011000, 0b00011000, 0b00110000]),
   (':', [0b00000000, 0b00011000, 0b00011000, 0b00000000,
      0b00000000, 0b00011000, 0b00011000, 0b00000000]),
   ('!', [0b00011000, 0b00011000, 0b00011000, 0b00011000,
      0b00011000, 0b00000000, 0b00011000, 0b00000000]),
   ('?', [0b00111100, 0b01000010, 0b00000010, 0b00001100,
      0b00011000, 0b00000000, 0b00011000, 0b00000000]),
   ('-', [0b00000000, 0b00000000, 0b00000000, 0b01111110,
      0b00000000, 0b00000000, 0b00000000, 0b00000000]),
   ('_', [0b00000000, 0b00000000, 0b00000000, 0b00000000,
      0b00000000, 0b00000000, 0b00000000, 0b01111110]),
   ('(', [0b00001100, 0b00010000, 0b00100000, 0b00100000,
      0b00100000, 0b00010000, 0b00001100, 0b00000000]),
   (')', [0b00110000, 0b00001000, 0b00000100, 0b00000100,
      0b00000100, 0b00001000, 0b00110000, 0b00000000]),
   ('/', [0b00000010, 0b00000100, 0b00001000, 0b00010000,
      0b00100000, 0b01000000, 0b00000000, 0b00000000]),
   ('\x5C', [0b01000000, 0b00100000, 0b00010000, 0b00001000,
      0b00000100, 0b00000010, 0b00000000, 0b00000000]),
   ('=', [0b00000000, 0b00000000, 0b01111110, 0b00000000,
      0b01111110, 0b00000000, 0b00000000, 0b00000000]),
   ('+', [0b00000000, 0b00001000, 0b00001000, 0b00111110,
      0b00001000, 0b00001000, 0b00000000, 0b00000000]),
   ('%', [0b01100010, 0b01100100, 0b00001000, 0b00010000,
      0b00100000, 0b01001100, 0b10001100, 0b00000000]),
   ('#', [0b00010100, 0b00010100, 0b01111110, 0b00010100,
      0b01111110, 0b00010100, 0b00010100, 0b00000000]),
   ('@', [0b00111100, 0b01000010, 0b01001110, 0b01010010,
      0b01001110, 0b01000000, 0b00111100, 0b00000000]),
   ('*', [0b00000000, 0b00100100, 0b00011000, 0b01111110,
      0b00011000, 0b00100100, 0b00000000, 0b00000000]),
   ('\x22', [0b00100100, 0b00100100, 0b00000000, 0b00000000,
      0b00000000, 0b00000000, 0b00000000, 0b00000000]),
   ('\x27', [0b00001000, 0b00001000, 0b00000000, 0b00000000,
      0b00000000, 0b00000000, 0b00000000, 0b00000000]),
   ('>', [0b00000000, 0b00000000, 0b01000000, 0b00100000,
      0b00010000, 0b00100000, 0b01000000, 0b00000000]),
   ('<', [0b00000000, 0b00000000, 0b00000100, 0b00001000,
      0b00010000, 0b00001000, 0b00000100, 0b00000000])]

/-- `eX_Font[c][row]`; rows and characters without an initialiser hold zero. -/
def fontRow (c : UInt8) (row : Nat) : UInt8 := ((font.lookup (Char.ofUInt8 c)).getD []).getD row 0

theorem fontRow_mem (c : UInt8) (row : Nat) :
    fontRow c row = 0 ∨ ∃ glyph ∈ font, fontRow c row = glyph.2.getD row 0 := by
  unfold fontRow
  cases hlookup : font.lookup (Char.ofUInt8 c) with
  | none => exact .inl rfl
  | some rows =>
    obtain ⟨before, after, hfont, -⟩ := List.lookup_eq_some_iff.mp hlookup
    refine .inr ⟨(Char.ofUInt8 c, rows), ?_, rfl⟩
    rw [hfont]
    exact List.mem_append_right _ List.mem_cons_self

theorem fontRow_space (row : Nat) : fontRow ' '.toUInt8 row = 0 := by
  rw [fontRow, show font.lookup (Char.ofUInt8 ' '.toUInt8) = none by decide]
  rfl

end EyaX.Console
