import EyaX.Console.BugCheck
import EyaX.Kernel.Basic
import EyaX.Pmm.Basic
import EyaX.Zmm.Basic

/-!
# The boot sequence of `kmain`

`kmain` asks the bootloader for a framebuffer, the memory map and the offset of the higher half, and
halts without them. It prints the memory map, sets up the descriptor tables, the page allocator, the
interrupt controllers, the heap and the ELF loader, reports what it read from the devices, and
enables interrupts. What the bootloader and the devices answer is a parameter; the delay loops are
left out.
-/

namespace EyaX.Kernel

open Interrupt Code Console Shell

/-! ## What the kernel is given -/

/-- `struct limine_framebuffer`, as far as the kernel reads it, and what its memory holds. -/
structure Framebuffer where
  width : UInt64
  height : UInt64
  pitch : UInt64
  bpp : UInt16
  contents : UInt64 → UInt32

/-- The answers of the bootloader; `none` is a null `response`. -/
structure Firmware where
  /-- `limine_base_revision[2]`. -/
  baseRevision : UInt64
  framebuffers : Option (List Framebuffer)
  memoryMap : Option Pmm.MemmapResponse
  /-- `entry_count` of a memory map whose `entries` is null. -/
  nullEntryCount : UInt64
  hhdm : Option UInt64

/-- What the kernel reads from the timer, the interrupt controller and the keyboard controller. -/
structure Devices where
  count1 : UInt8 × UInt8
  count2 : UInt8 × UInt8
  pitStatus : UInt8
  irr : UInt8
  keyboardStatus : UInt8

/-! ## State -/

/-- `struct eX_GDTEntry`. -/
structure GDTEntry where
  limitLow : UInt16
  baseLow : UInt16
  baseMid : UInt8
  access : UInt8
  granularity : UInt8
  baseHigh : UInt8
  deriving DecidableEq, Repr

/-- The statics that `kmain` initialises, and the segment registers. -/
structure Globals where
  machine : Machine
  system : System
  gdt : Vector GDTEntry 3
  cs : UInt16
  /-- `ds`, `es` and `ss`. -/
  dataSegments : UInt16
  pmm : Pmm.State
  blocks : Zmm.Blocks
  elfInitialized : Bool
  /-- `eX_FreePageCount`, which only `eX_PPA_Init` writes. -/
  freePageCount : UInt64

def Globals.screen (k : Globals) : Screen := k.machine.shell.screen

def Globals.setScreen (screen : Screen) (k : Globals) : Globals :=
  { k with machine := k.machine.setShell (k.machine.shell.setScreen screen) }

def Globals.setSystem (system : System) (k : Globals) : Globals := { k with system := system }

def Globals.setPmm (pmm : Pmm.State) (k : Globals) : Globals := { k with pmm := pmm }

def Globals.setBlocks (blocks : Zmm.Blocks) (k : Globals) : Globals := { k with blocks := blocks }

def Globals.setElfInitialized (k : Globals) : Globals := { k with elfInitialized := true }

def Globals.setKeyboard (keyboard : Keyboard.Driver) (k : Globals) : Globals :=
  { k with machine := { k.machine with keyboard := keyboard } }

def onDisplay {α : Type} : Code Stop Screen α → Code Stop Globals α :=
  zoom Globals.screen Globals.setScreen

/-- `eX_Print` in `kmain`. -/
def printf (format : String) (args : List Argument) : Code Stop Globals Unit :=
  onDisplay (print (cString format) args)

/-- A value converted to `unsigned int`. -/
def unsigned (w : UInt64) : Argument := .word w.toUInt32.toUInt64

/-- An `eX_Inb` from the data port of a controller: its mask. -/
def inb (port : UInt16) (k : System) : UInt8 := if port = 0x21 then k.master.mask else k.slave.mask

/-! ## Descriptors -/

/-- `eX_GDT` as `eX_GDT_Init` fills it. -/
def gdtTable : Vector GDTEntry 3 :=
  #v[⟨0, 0, 0, 0, 0, 0⟩, ⟨0xFFFF, 0, 0, 0x9A, 0xAF, 0⟩, ⟨0xFFFF, 0, 0, 0x92, 0xCF, 0⟩]

/-- `eX_GDT_Load` reloads the segment registers. -/
def gdtLoad (k : Globals) : Globals := { k with cs := 0x08, dataSegments := 0x10 }

def gdtInit (k : Globals) : Globals := gdtLoad { k with gdt := gdtTable }

/-! ## `kmain` -/

/-- Up to the choice of the framebuffer and `eX_Clear`. -/
def openScreen (firmware : Firmware) : Code Stop Globals Unit :=
  if firmware.baseRevision ≠ 0 then .stop .halt
  else
    match firmware.framebuffers with
    | none => .stop .halt
    | some [] => .stop .halt
    | some (framebuffer :: _) =>
      if firmware.memoryMap.isNone then .stop .halt
      else if framebuffer.bpp ≠ 32 then .stop .halt
      else do
        modify fun k => k.setScreen { k.screen with
          width := framebuffer.width
          height := framebuffer.height
          pitch := framebuffer.pitch
          pixels := framebuffer.contents }
        onDisplay Console.clear

def loadGDT : Code Stop Globals Unit := do
  let k ← get
  printf "Before GDT: CS = 0x%X\n" [.word k.cs.toUInt64]
  modify gdtInit
  let k ← get
  printf "After GDT: CS = 0x%X\n" [.word k.cs.toUInt64]

/-- The body of the loop over the memory map. -/
def listEntry (totalUsable : UInt64) (entry : Pmm.MemmapEntry) : Code Stop Globals UInt64 := do
  printf "Type: %u  Base: 0x%X  Length: 0x%X\n"
    [unsigned entry.type, unsigned entry.base, unsigned entry.length]
  return if entry.type = Pmm.limineMemmapUsable then totalUsable + entry.length else totalUsable

def listMemoryMap (firmware : Firmware) : Code Stop Globals UInt64 := do
  printf "\nMemory map:\n" []
  match firmware.memoryMap with
  | none => .stop .outOfBounds
  | some ⟨none⟩ => if firmware.nullEntryCount = 0 then return 0 else .stop .outOfBounds
  | some ⟨some entries⟩ => entries.foldlM listEntry 0

def initPmm (firmware : Firmware) : Code Stop Globals Unit := do
  printf "Initializing the Physical Memory Manager... " []
  let k ← get
  let (success, pmm) ← ofExcept (Pmm.pmmInit firmware.memoryMap k.pmm)
  modify fun k => k.setPmm pmm
  if !success then do
    printf "FAILED!\n" []
    onDisplay (bugCheck (some (cString "The PMM initialization failed.")) 0xE2 0)
  else printf "Success!\n" []

def reportMemory (totalUsable : UInt64) : Code Stop Globals Unit := do
  let k ← get
  printf "PMM: %lu free pages (%lu KiB)\n"
    [.word (Pmm.pmmFreePages k.pmm), .word (Pmm.pmmFreePages k.pmm * 4)]
  printf "Total usable memory: %u bytes\n" [unsigned totalUsable]

/-- `int $0x20`. -/
def testInterrupt (handlers : Handlers) : Code Stop Globals Unit := do
  let k ← get
  let (screen, system) ← ofExcept (interrupt handlers 0x20 k.screen k.system)
  modify fun k => (k.setSystem system).setScreen screen

def initInterrupts (handlers : Handlers) : Code Stop Globals Unit := do
  modify fun k => k.setSystem (idtInit handlers k.system)
  printf "Testing IDT...\n" []
  testInterrupt handlers
  printf "IDT test returned.\n" []
  modify fun k => k.setSystem (pitInit (picInit k.system))

/-- `((uint16_t)high << 8) | low`. -/
def counter (count : UInt8 × UInt8) : Argument :=
  .word (count.2.toUInt64 <<< 8 ||| count.1.toUInt64)

def reportDevices (devices : Devices) : Code Stop Globals Unit := do
  modify fun k => k.setSystem (outb 0x43 0x00 k.system)
  let k ← get
  printf "PPA initialized. Free pages: %u\n" [unsigned k.freePageCount]
  modify fun k => k.setSystem (outb 0x43 0x00 k.system)
  printf "PIT: %u -> %u\n" [counter devices.count1, counter devices.count2]
  modify fun k => k.setSystem (outb 0x43 0x00 k.system)
  let k ← get
  printf "PIC mask: 0x%X\n" [.word (inb 0x21 k.system).toUInt64]
  printf "PIT read: 0x%X\n" [.word devices.pitStatus.toUInt64]
  -- `eX_PIC_ReadIRR`.
  modify fun k => k.setSystem (outb 0x20 0x0A k.system)
  printf "PIC IRR: 0x%X\n" [.word devices.irr.toUInt64]
  printf "KBC STATUS: 0x%x\n" [.word devices.keyboardStatus.toUInt64]
  let k ← get
  printf "PIC MASK: 0x%x\n" [.word (inb 0x21 k.system).toUInt64]

/-- `elf_init`. -/
def elfInit (k : Globals) : Bool × Globals := (true, k.setElfInitialized)

def initHeapAndElf : Code Stop Globals Unit := do
  printf "Initializing the ZMM memory manager... " []
  modify fun k => k.setBlocks (Zmm.heapInit k.blocks)
  printf "Success!\n" []
  printf "Initializing the ELF loader... " []
  let k ← get
  let (success, k) := elfInit k
  modify fun _ => k
  if !success then do
    printf "FAILED!\n" []
    onDisplay
      (bugCheck (some (cString "The ELF initalization either failed or didn\x27t get called.")) 0xE1 0)
  else pure ()

def reportHHDM (firmware : Firmware) : Code Stop Globals Unit :=
  match firmware.hhdm with
  | none => onDisplay (bugCheck (some (cString "HHDM request failed.")) 0xE3 0)
  | some offset => do
    printf "HHDM offset: 0x%X\n" [unsigned offset]
    printf "HHDM offset high: %0X\n" [unsigned (offset >>> 32)]
    printf "HHDM offset low: %0X\n" [unsigned offset]

/-- `kmain` up to `sti`. -/
def boot (firmware : Firmware) (devices : Devices) (handlers : Handlers) : Code Stop Globals Unit := do
  openScreen firmware
  loadGDT
  let totalUsable ← listMemoryMap firmware
  initPmm firmware
  reportMemory totalUsable
  initInterrupts handlers
  reportDevices devices
  initHeapAndElf
  reportHHDM firmware
  modify fun k => k.setKeyboard (Keyboard.init k.machine.keyboard)

end EyaX.Kernel
