import EyaX.Base
import EyaX.Console.Font
import EyaX.Lib.Interrupt
import Mathlib.Logic.Function.Basic

/-!
# The text console of `main.c`

The cursor is a cell of 8 by 8 pixels; a character is drawn into its cell pixel by pixel. The
framebuffer is what lies from `eX_Framebuffer->address` on, as one `uint32_t` for every index:
whether an index belongs to the framebuffer is a question about the log of what `eX_PutPixel` was
asked to write, and what lies beyond the framebuffer is not modelled. The reads of the statics that
one
expression makes are an atom, and every write is one, so that an interrupt may come between any two
of these.
-/

namespace EyaX.Console

open Interrupt Code

/-- A call of `eX_PutPixel`. -/
structure Plot where
  x : UInt64
  y : UInt64
  color : UInt32
  deriving DecidableEq, Repr

/-- The framebuffer and the statics of the console. -/
structure Screen where
  width : UInt64
  height : UInt64
  pitch : UInt64
  pixels : UInt64 → UInt32
  cursorX : UInt64
  cursorY : UInt64
  foreground : UInt32
  background : UInt32
  /-- Not in the source: the calls of `eX_PutPixel` so far. -/
  plots : List Plot

/-- A black screen, with the statics of the console as they are at boot. -/
def blank (width height pitch : UInt64) : Screen where
  width := width
  height := height
  pitch := pitch
  pixels := fun _ => 0
  cursorX := 0
  cursorY := 0
  foreground := 0xFFFFFFFF
  background := 0x00000000
  plots := []

def charWidth : UInt64 := 8
def charHeight : UInt64 := 8

/-- The index `y * (pitch / 4) + x`. -/
def Screen.index (s : Screen) (x y : UInt64) : UInt64 := y * (s.pitch / 4) + x

def Screen.put (s : Screen) (p : Plot) : Screen :=
  { s with
    pixels := Function.update s.pixels (s.index p.x p.y) p.color
    plots := s.plots ++ [p] }

def putPixel (x y : UInt64) (color : UInt32) : Code Stop Screen Unit :=
  modify fun s => s.put ⟨x, y, color⟩

/-! ## Characters -/

/-- `glyph[row] & (1 << (7 - col))`. -/
def lit (c : UInt8) (row col : Nat) : Bool := fontRow c row &&& 1 <<< UInt8.ofNat (7 - col) ≠ 0

def drawChar (c : UInt8) (x y : UInt64) : Code Stop Screen Unit :=
  if c ≥ 128 then pure ()
  else
    (List.range 8).forM fun row =>
      (List.range 8).forM fun col => do
        let s ← get
        if lit c row col then putPixel (x + UInt64.ofNat col) (y + UInt64.ofNat row) s.foreground
        else putPixel (x + UInt64.ofNat col) (y + UInt64.ofNat row) s.background

def printChar (c : UInt8) : Code Stop Screen Unit :=
  if c = '\n'.toUInt8 then do
    modify fun s => { s with cursorX := 0 }
    let s ← get
    modify fun t => { t with cursorY := s.cursorY + 1 }
  else do
    let s ← get
    drawChar c (s.cursorX * charWidth) (s.cursorY * charHeight)
    let s ← get
    modify fun t => { t with cursorX := s.cursorX + 1 }

/-- The string is the bytes of the object it points into; a string without a NUL is read past
its end. -/
def printString : List UInt8 → Code Stop Screen Unit
  | [] => .stop .outOfBounds
  | c :: rest =>
    if c = 0 then pure ()
    else do
      printChar c
      printString rest

/-- `pixel[index] = eX_Background`. -/
def Screen.fill (s : Screen) (index : UInt64) : Screen :=
  { s with pixels := Function.update s.pixels index s.background }

def clear : Code Stop Screen Unit := do
  let s ← get
  let pitchPixels := s.pitch / 4
  (List.range s.height.toNat).forM fun y =>
    (List.range s.width.toNat).forM fun x =>
      modify fun t => t.fill (UInt64.ofNat y * pitchPixels + UInt64.ofNat x)
  modify fun t => { t with cursorX := 0 }
  modify fun t => { t with cursorY := 0 }

def backspace : Code Stop Screen Unit := do
  let s ← get
  if s.cursorX = 0 then pure ()
  else do
    modify fun t => { t with cursorX := s.cursorX - 1 }
    let s ← get
    drawChar ' '.toUInt8 (s.cursorX * charWidth) (s.cursorY * charHeight)

/-! ## Numbers -/

/-- The characters of a string literal. -/
def bytes (s : String) : List UInt8 := s.toList.map Char.toUInt8

/-- A string literal, with its NUL. -/
def cString (s : String) : List UInt8 := bytes s ++ [0]

/-- The loop that fills `buffer`, which has room for `room` more characters. The last one written
comes first, as it is printed first. -/
def fillBuffer (digits : List UInt8) (base : UInt64) : Nat → UInt64 → List UInt8 → Exec (List UInt8)
  | room, value, buffer =>
    if value > 0 then
      match room, digits[(value % base).toNat]? with
      | room + 1, some d => fillBuffer digits base room (value / base) (d :: buffer)
      | _, _ => .error .outOfBounds
    else .ok buffer

def printNumberUnsigned (value : UInt64) (base : UInt32) (uppercase : Bool) :
    Code Stop Screen Unit := do
  let digits := if uppercase then cString "0123456789ABCDEF" else cString "0123456789abcdef"
  if value = 0 then printChar '0'.toUInt8
  else do
    let buffer ← ofExcept (fillBuffer digits base.toUInt64 32 value [])
    buffer.forM printChar

/-- The result of an `int64_t` operation. -/
def int64 (x : Int) : Exec Int := if -2 ^ 63 ≤ x ∧ x < 2 ^ 63 then .ok x else .error .signedOverflow

def printNumberSigned (value : Int64) : Code Stop Screen Unit :=
  if value < 0 then do
    printChar '-'.toUInt8
    let magnitude ← ofExcept do
      let successor ← int64 (value.toInt + 1)
      let negated ← int64 (-successor)
      return UInt64.ofInt negated + 1
    printNumberUnsigned magnitude 10 false
  else printNumberUnsigned value.toUInt64 10 false

/-! ## `eX_Print` -/

/-- A variadic argument: the contents of a register, or a pointer that is null or points to the
bytes of an object. -/
inductive Argument
  | word (w : UInt64)
  | pointer (p : Option (List UInt8))

/-- `va_arg(args, int)` or `va_arg(args, unsigned int)`: the low half of the next register. Without
one, or with a pointer in its place, the call has no meaning. -/
def vaWord : List Argument → Exec (UInt32 × List Argument)
  | .word w :: args => .ok (w.toUInt32, args)
  | _ => .error .outOfBounds

/-- `va_arg(args, const char *)`. -/
def vaPointer : List Argument → Exec (Option (List UInt8) × List Argument)
  | .pointer p :: args => .ok (p, args)
  | _ => .error .outOfBounds

/-- The `switch` on the character after a `%`. -/
def conversion (c : UInt8) (args : List Argument) : Code Stop Screen (List Argument) :=
  if c = '%'.toUInt8 then do
    printChar '%'.toUInt8
    return args
  else if c = 'c'.toUInt8 then do
    let (w, args) ← ofExcept (vaWord args)
    printChar w.toUInt8
    return args
  else if c = 's'.toUInt8 then do
    let (string, args) ← ofExcept (vaPointer args)
    match string with
    | none => printString (cString "(null)")
    | some bytes => printString bytes
    return args
  else if c = 'd'.toUInt8 then do
    let (w, args) ← ofExcept (vaWord args)
    printNumberSigned w.toInt32.toInt64
    return args
  else if c = 'u'.toUInt8 then do
    let (w, args) ← ofExcept (vaWord args)
    printNumberUnsigned w.toUInt64 10 false
    return args
  else if c = 'x'.toUInt8 then do
    let (w, args) ← ofExcept (vaWord args)
    printNumberUnsigned w.toUInt64 16 false
    return args
  else if c = 'X'.toUInt8 then do
    let (w, args) ← ofExcept (vaWord args)
    printNumberUnsigned w.toUInt64 16 true
    return args
  else do
    printChar '%'.toUInt8
    printChar c
    return args

/-- `eX_Print` on the bytes of the object that holds the format. -/
def print : List UInt8 → List Argument → Code Stop Screen Unit
  | [], _ => .stop .outOfBounds
  | c :: format, args =>
    if c = 0 then pure ()
    else if c ≠ '%'.toUInt8 then do
      printChar c
      print format args
    else
      match format with
      | [] => .stop .outOfBounds
      | c :: format => do
        let args ← conversion c args
        print format args

end EyaX.Console
