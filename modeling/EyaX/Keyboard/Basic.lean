import EyaX.Base
import EyaX.Lib.Ring

/-!
# The keyboard driver of `keyboard.c`

A decoder with three flags turns scancodes into characters, and a ring of 128 bytes with two 8-bit
indices queues them. The statics of the source are zero at boot and every function keeps the indices
below 128, so the bounds are part of the type. `eX_Keyboard_Poll` reads scancodes while the
controller reports one: a batch is the list of what it reads.
-/

namespace EyaX.Keyboard

/-! ## The queue -/

/-- `eX_KeyboardBuffer` and its two indices. -/
structure Queue where
  buffer : Vector UInt8 128
  readIndex : UInt8
  writeIndex : UInt8
  readIndex_lt : readIndex.toNat < 128
  writeIndex_lt : writeIndex.toNat < 128

/-- `(uint8_t)((index + 1) % eX_KEYBOARD_BUFFER_SIZE)`. -/
def nextIndex (index : UInt8) : UInt8 := UInt8.ofNat ((index.toNat + 1) % 128)

theorem nextIndex_toNat (index : UInt8) : (nextIndex index).toNat = (index.toNat + 1) % 128 := by
  rw [nextIndex, UInt8.toNat_ofNat']
  omega

theorem zero_lt_size : (0 : UInt8).toNat < 128 := by decide

theorem nextIndex_lt (index : UInt8) : (nextIndex index).toNat < 128 := by
  rw [nextIndex_toNat]
  omega

def pushChar (c : UInt8) (q : Queue) : Queue :=
  if nextIndex q.writeIndex = q.readIndex then q
  else
    { q with
      buffer := q.buffer.set q.writeIndex.toNat c q.writeIndex_lt
      writeIndex := nextIndex q.writeIndex
      writeIndex_lt := nextIndex_lt q.writeIndex }

/-- The character as an `int`, or -1. -/
def getChar (q : Queue) : Int × Queue :=
  if q.readIndex = q.writeIndex then (-1, q)
  else
    ((q.buffer.get ⟨q.readIndex.toNat, q.readIndex_lt⟩).toNat,
      { q with
        readIndex := nextIndex q.readIndex
        readIndex_lt := nextIndex_lt q.readIndex })

/-! ## The decoder -/

structure Modifiers where
  shiftPressed : Bool
  capsLock : Bool
  extendedScancode : Bool
  deriving DecidableEq, Repr

/-- `eX_KeyboardNormal`; an index without an initialiser holds zero. -/
def keyboardNormal : List (UInt8 × Char) :=
  [(0x02, '1'), (0x03, '2'), (0x04, '3'), (0x05, '4'), (0x06, '5'), (0x07, '6'), (0x08, '7'),
   (0x09, '8'), (0x0A, '9'), (0x0B, '0'), (0x0C, '-'), (0x0D, '='), (0x0E, '\x08'), (0x0F, '\t'),
   (0x10, 'q'), (0x11, 'w'), (0x12, 'e'), (0x13, 'r'), (0x14, 't'), (0x15, 'y'), (0x16, 'u'),
   (0x17, 'i'), (0x18, 'o'), (0x19, 'p'), (0x1A, '['), (0x1B, ']'), (0x1C, '\n'), (0x1E, 'a'),
   (0x1F, 's'), (0x20, 'd'), (0x21, 'f'), (0x22, 'g'), (0x23, 'h'), (0x24, 'j'), (0x25, 'k'),
   (0x26, 'l'), (0x27, ';'), (0x28, '\x27'), (0x29, '\x60'), (0x2B, '\x5C'), (0x2C, 'z'),
   (0x2D, 'x'), (0x2E, 'c'), (0x2F, 'v'), (0x30, 'b'), (0x31, 'n'), (0x32, 'm'), (0x33, ','),
   (0x34, '.'), (0x35, '/'), (0x39, ' ')]

/-- `eX_KeyboardShift`. -/
def keyboardShift : List (UInt8 × Char) :=
  [(0x02, '!'), (0x03, '@'), (0x04, '#'), (0x05, '$'), (0x06, '%'), (0x07, '^'), (0x08, '&'),
   (0x09, '*'), (0x0A, '('), (0x0B, ')'), (0x0C, '_'), (0x0D, '+'), (0x10, 'Q'), (0x11, 'W'),
   (0x12, 'E'), (0x13, 'R'), (0x14, 'T'), (0x15, 'Y'), (0x16, 'U'), (0x17, 'I'), (0x18, 'O'),
   (0x19, 'P'), (0x1A, '\x7B'), (0x1B, '\x7D'), (0x1E, 'A'), (0x1F, 'S'), (0x20, 'D'), (0x21, 'F'),
   (0x22, 'G'), (0x23, 'H'), (0x24, 'J'), (0x25, 'K'), (0x26, 'L'), (0x27, ':'), (0x28, '\x22'),
   (0x29, '~'), (0x2B, '|'), (0x2C, 'Z'), (0x2D, 'X'), (0x2E, 'C'), (0x2F, 'V'), (0x30, 'B'),
   (0x31, 'N'), (0x32, 'M'), (0x33, '<'), (0x34, '>'), (0x35, '?'), (0x39, ' ')]

/-- An entry of one of the two tables. -/
def entry (table : List (UInt8 × Char)) (code : UInt8) : UInt8 :=
  match table.lookup code with
  | some c => c.toUInt8
  | none => 0

/-- `eX_Keyboard_HandleScancode` up to the character it pushes, if any. -/
def decode (scancode : UInt8) (m : Modifiers) : Option UInt8 × Modifiers :=
  let released := scancode &&& 0x80 ≠ 0
  let code := scancode &&& 0x7F
  if scancode = 0xE0 then (none, { m with extendedScancode := true })
  else if m.extendedScancode then (none, { m with extendedScancode := false })
  else if code = 0x2A ∨ code = 0x36 then (none, { m with shiftPressed := !decide released })
  else if code = 0x3A then
    if ¬ released then (none, { m with capsLock := !m.capsLock }) else (none, m)
  else if released then (none, m)
  else
    let c := if m.shiftPressed then entry keyboardShift code else entry keyboardNormal code
    let c :=
      if m.capsLock ∧ 'a'.toUInt8 ≤ c ∧ c ≤ 'z'.toUInt8 then c - 'a'.toUInt8 + 'A'.toUInt8
      else if m.capsLock ∧ 'A'.toUInt8 ≤ c ∧ c ≤ 'Z'.toUInt8 then c - 'A'.toUInt8 + 'a'.toUInt8
      else c
    (if c ≠ 0 then some c else none, m)

/-! ## The driver -/

/-- The statics of `keyboard.c`. -/
structure Driver where
  queue : Queue
  modifiers : Modifiers

def handleScancode (k : Driver) (scancode : UInt8) : Driver :=
  match decode scancode k.modifiers with
  | (none, modifiers) => { k with modifiers := modifiers }
  | (some c, modifiers) => { queue := pushChar c k.queue, modifiers := modifiers }

def init (k : Driver) : Driver where
  queue := ⟨k.queue.buffer, 0, 0, by decide, by decide⟩
  modifiers := ⟨false, false, false⟩

def poll (batch : List UInt8) (k : Driver) : Driver := batch.foldl handleScancode k

end EyaX.Keyboard
