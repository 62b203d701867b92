import EyaX.Shell.Basic

/-!
# Interrupts in `main.c`

The kernel fills the interrupt descriptor table, programs the two 8259 interrupt controllers byte by
byte and sets the interrupt flag. A controller takes bytes at a command and at a data port: a
command byte with bit 4 set begins an initialisation, whose next data bytes are the vector base, the
wiring of the cascade and the mode; every other data byte is the mask. A request on a line whose
mask bit is clear is delivered through the descriptor of the base plus the line; the slave's
requests go through line 2 of the master. The processor calls the function a present descriptor
points to; without one it raises a fault that has no descriptor either, and resets.
-/

namespace EyaX.Kernel

open Console Shell

/-! ## Interrupt controllers -/

/-- What the next byte at the data port is. -/
inductive Awaiting
  | base
  | wiring
  | mode
  | mask
  deriving DecidableEq, Repr

/-- One 8259. -/
structure Pic where
  awaiting : Awaiting
  /-- No wiring byte follows the base. -/
  single : Bool
  /-- A mode byte ends the initialisation. -/
  modeNeeded : Bool
  base : UInt8
  wiring : UInt8
  mode : UInt8
  mask : UInt8
  deriving DecidableEq, Repr

def Pic.command (value : UInt8) (p : Pic) : Pic :=
  if value &&& 0x10 ≠ 0 then
    { p with
      awaiting := .base
      single := value &&& 0x02 ≠ 0
      modeNeeded := value &&& 0x01 ≠ 0
      mask := 0 }
  -- The end of an interrupt, or the register the next read returns.
  else p

def Pic.afterWiring (p : Pic) : Awaiting := if p.modeNeeded then .mode else .mask

def Pic.data (value : UInt8) (p : Pic) : Pic :=
  match p.awaiting with
  | .base =>
    { p with
      base := value &&& 0xF8
      awaiting := if p.single then p.afterWiring else .wiring }
  | .wiring => { p with wiring := value, awaiting := p.afterWiring }
  | .mode => { p with mode := value, awaiting := .mask }
  | .mask => { p with mask := value }

/-! ## State -/

structure IDTEntry where
  offsetLow : UInt16
  selector : UInt16
  ist : UInt8
  typeAttr : UInt8
  offsetMid : UInt16
  offsetHigh : UInt32
  zero : UInt32
  deriving DecidableEq, Repr

/-- The statics of `main.c` that belong to interrupts, and the controllers. -/
structure System where
  timerTicks : UInt64
  /-- `eX_IDT`, which `eX_IDT_Load` makes the processor's table. -/
  idt : Vector IDTEntry 256
  master : Pic
  slave : Pic

def outb (port : UInt16) (value : UInt8) (k : System) : System :=
  if port = 0x20 then { k with master := k.master.command value }
  else if port = 0x21 then { k with master := k.master.data value }
  else if port = 0xA0 then { k with slave := k.slave.command value }
  else if port = 0xA1 then { k with slave := k.slave.data value }
  else k

def picInit (k : System) : System :=
  let k := outb 0x20 0x11 k
  let k := outb 0xA0 0x11 k
  let k := outb 0x21 0x20 k
  let k := outb 0xA1 0x28 k
  let k := outb 0x21 0x04 k
  let k := outb 0xA1 0x02 k
  let k := outb 0x21 0x01 k
  let k := outb 0xA1 0x01 k
  -- Enable IRQ0: timer
  -- Enable IRQ1: keyboard
  let k := outb 0x21 0xFC k
  -- Mask all slave PIC IRQs.
  outb 0xA1 0xFF k

def pitInit (k : System) : System :=
  let divisor := UInt16.ofNat (1193182 / 100)
  let k := outb 0x43 0x36 k
  let k := outb 0x40 (divisor &&& 0xFF).toUInt8 k
  outb 0x40 (divisor >>> 8).toUInt8 k

/-! ## Descriptors -/

/-- Where the linker put the handlers. -/
structure Handlers where
  invalidOpcode : UInt64
  timer : UInt64
  pageFault : UInt64

def setGate (vector : UInt8) (handler : UInt64) (k : System) : System :=
  { k with
    idt := k.idt.set vector.toNat
      { offsetLow := (handler &&& 0xFFFF).toUInt16
        selector := 0x08
        ist := 0
        typeAttr := 0x8E
        offsetMid := ((handler >>> 16) &&& 0xFFFF).toUInt16
        offsetHigh := ((handler >>> 32) &&& 0xFFFFFFFF).toUInt32
        zero := 0 } vector.toNat_lt }

def IDTEntry.empty : IDTEntry := ⟨0, 0, 0, 0, 0, 0, 0⟩

/-- `eX_IDT[i] = (struct eX_IDTEntry){0}`. -/
def clearEntry (idt : Vector IDTEntry 256) (i : Fin 256) : Vector IDTEntry 256 :=
  idt.set i IDTEntry.empty

def idtInit (handlers : Handlers) (k : System) : System :=
  let idt := (List.finRange 256).foldl clearEntry k.idt
  let k : System := { k with idt := idt }
  let k := setGate 0x06 handlers.invalidOpcode k
  let k := setGate 0x20 handlers.timer k
  setGate 0x0E handlers.pageFault k

/-- The entry of a vector. -/
def System.gate (k : System) (vector : UInt8) : IDTEntry := k.idt.get ⟨vector.toNat, vector.toNat_lt⟩

/-- The present bit. -/
def IDTEntry.Present (entry : IDTEntry) : Prop := entry.typeAttr &&& 0x80 ≠ 0

instance (entry : IDTEntry) : Decidable entry.Present := inferInstanceAs (Decidable (_ ≠ _))

/-- The address the entry points to. -/
def IDTEntry.address (entry : IDTEntry) : UInt64 :=
  entry.offsetLow.toUInt64 ||| entry.offsetMid.toUInt64 <<< 16 ||| entry.offsetHigh.toUInt64 <<< 32

/-! ## Handlers -/

def timerHandler (screen : Screen) (k : System) : Exec (Screen × System) := do
  let k : System := { k with timerTicks := k.timerTicks + 1 }
  let screen ←
    if k.timerTicks = 1 then do
      let ((), screen) ← (print (cString "IRQ0 FIRED!\n") []).run screen
      pure screen
    else pure screen
  pure (screen, outb 0x20 0x20 k)

/-- An interrupt. The two other handlers end in `eX_BugCheck`, which halts. -/
def interrupt (handlers : Handlers) (vector : UInt8) (screen : Screen) (k : System) :
    Exec (Screen × System) :=
  if (k.gate vector).Present ∧ (k.gate vector).address = handlers.timer then timerHandler screen k
  else .error .halt

/-- What `kmain` does with interrupts before `sti`. -/
def setUp (handlers : Handlers) (screen : Screen) (k : System) : Exec (Screen × System) := do
  let k := idtInit handlers k
  let (screen, k) ← interrupt handlers 0x20 screen k
  let k := picInit k
  let k := pitInit k
  let k := outb 0x43 0x00 k
  let k := outb 0x43 0x00 k
  let k := outb 0x43 0x00 k
  -- `eX_PIC_ReadIRR`.
  let k := outb 0x20 0x0A k
  pure (screen, k)

/-! ## Requests -/

/-- An interrupt line. -/
inductive Line
  | master (n : Fin 8)
  | slave (n : Fin 8)
  deriving DecidableEq, Repr

def Pic.Unmasked (p : Pic) (n : Fin 8) : Prop := p.mask &&& 1 <<< UInt8.ofNat n = 0

instance (p : Pic) (n : Fin 8) : Decidable (p.Unmasked n) := inferInstanceAs (Decidable (_ = _))

def System.Unmasked (k : System) : Line → Prop
  | .master n => k.master.Unmasked n
  | .slave n => k.slave.Unmasked n ∧ k.master.Unmasked 2

instance (k : System) : (line : Line) → Decidable (k.Unmasked line)
  | .master n => inferInstanceAs (Decidable (k.master.Unmasked n))
  | .slave n => inferInstanceAs (Decidable (k.slave.Unmasked n ∧ k.master.Unmasked 2))

def System.vector (k : System) : Line → UInt8
  | .master n => k.master.base + UInt8.ofNat n
  | .slave n => k.slave.base + UInt8.ofNat n

/-- A request while interrupts are enabled; one on a masked line is not delivered. -/
def request (handlers : Handlers) (line : Line) (m : Machine) (k : System) : Exec (Machine × System) :=
  if k.Unmasked line then do
    let (screen, k) ← interrupt handlers (k.vector line) m.shell.screen k
    pure (m.setShell (m.shell.setScreen screen), k)
  else pure (m, k)

end EyaX.Kernel
