import EyaX.Console.CrashScreen
import EyaX.Console.Terminal
import EyaX.Kernel.Boot
import EyaX.Kernel.Refinement
import EyaX.Pmm.Init

/-!
# What the boot sequence reaches

Each part of the boot sequence prints a text and changes its part of the kernel. `kmain` reaches
`sti` exactly when the bootloader gave it what it asked for; then everything that the loop behind
`sti` relies on holds. Otherwise it halts: before it has drawn anything, or with a report that names
the request that failed.
-/

namespace EyaX.Kernel

open Interrupt Code Console Shell

/-! ## Texts of `kmain` -/

def Globals.afterText (text : List UInt8) (k : Globals) : Globals := k.setScreen (k.screen.afterText text)

-- The proofs are terms, as in `Interrupt.Code`: the kernel is not to compare texts.

@[simp] theorem Globals.screen_setScreen (screen : Screen) (k : Globals) :
    (k.setScreen screen).screen = screen := (rfl)

@[simp] theorem Globals.setScreen_setScreen (screen screen' : Screen) (k : Globals) :
    (k.setScreen screen').setScreen screen = k.setScreen screen := (rfl)

@[simp] theorem Globals.screen_afterText (text : List UInt8) (k : Globals) :
    (k.afterText text).screen = k.screen.afterText text := (rfl)

theorem Globals.afterText_append (text text' : List UInt8) (k : Globals) :
    k.afterText (text ++ text') = (k.afterText text).afterText text' := by
  unfold Globals.afterText
  rw [Shell.afterText_append, Globals.screen_setScreen, Globals.setScreen_setScreen]

theorem Globals.afterText_nil (k : Globals) : k.afterText [] = k := (rfl)

section fields

variable (text : List UInt8) (k : Globals)

@[simp] theorem Globals.afterText_system : (k.afterText text).system = k.system := (rfl)
@[simp] theorem Globals.afterText_cs : (k.afterText text).cs = k.cs := (rfl)
@[simp] theorem Globals.afterText_pmm : (k.afterText text).pmm = k.pmm := (rfl)
@[simp] theorem Globals.afterText_freePageCount : (k.afterText text).freePageCount = k.freePageCount := (rfl)
@[simp] theorem Globals.afterText_blocks : (k.afterText text).blocks = k.blocks := (rfl)

theorem setSystem_afterText (system : System) :
    (k.afterText text).setSystem system = (k.setSystem system).afterText text := (rfl)

theorem setPmm_afterText (pmm : Pmm.State) :
    (k.afterText text).setPmm pmm = (k.setPmm pmm).afterText text := (rfl)

theorem setBlocks_afterText (blocks : Zmm.Blocks) :
    (k.afterText text).setBlocks blocks = (k.setBlocks blocks).afterText text := (rfl)

@[simp] theorem Globals.afterText_keyboard :
    (k.afterText text).machine.keyboard = k.machine.keyboard := (rfl)

theorem setKeyboard_afterText (keyboard : Keyboard.Driver) :
    (k.afterText text).setKeyboard keyboard = (k.setKeyboard keyboard).afterText text := (rfl)

theorem setElfInitialized_afterText :
    (k.afterText text).setElfInitialized = k.setElfInitialized.afterText text := (rfl)

theorem setSystem_setSystem (system system' : System) :
    (k.setSystem system').setSystem system = k.setSystem system := (rfl)

theorem setSystem_self : k.setSystem k.system = k := (rfl)

theorem system_setSystem (system : System) : (k.setSystem system).system = system := (rfl)

end fields

theorem run_onDisplay {α : Type} {c : Code Stop Screen α} {k : Globals} {a : α} {screen : Screen}
    (h : c.run k.screen = .ok (a, screen)) :
    (onDisplay c).run k = .ok (a, k.setScreen screen) := by
  unfold onDisplay
  apply run_zoom
  · exact fun _ _ => rfl
  · exact fun _ _ _ => rfl
  · exact fun _ => rfl
  · exact h

/-- What a format prints. -/
def shownBy (format : String) (args : List Argument) : List UInt8 := expand (bytes format) args

/-- The argument is the contents of a register. -/
def isWord : Argument → Bool
  | .word _ => true
  | .pointer _ => false

/-- The format takes `n` words and ends where its NUL is. -/
def formats (text : List UInt8) (n : Nat) : Bool :=
  text.all (· != 0) && trailing text % 2 == 0 && (conversions text).all (· != 's'.toUInt8) &&
    (conversions text).length == n

theorem formats_ofList {l : List Char} {n : Nat} (h : formats (l.map Char.toUInt8) n = true) :
    formats (bytes (String.ofList l)) n = true := by
  rw [bytes, String.toList_ofList]
  exact h

theorem suppliesAll_words {text : List UInt8} {args : List Argument}
    (hlength : (conversions text).length = args.length)
    (htext : (conversions text).all (· != 's'.toUInt8) = true) (hargs : args.all isWord = true) :
    SuppliesAll text args := by
  unfold SuppliesAll
  generalize conversions text = cs at hlength htext ⊢
  induction cs generalizing args with
  | nil =>
    obtain rfl : args = [] := List.length_eq_zero_iff.mp hlength.symm
    exact .nil
  | cons c cs ih =>
    cases args with
    | nil => exact absurd hlength (by simp)
    | cons a args =>
      simp only [List.all_cons, Bool.and_eq_true, bne_iff_ne, List.length_cons,
        Nat.add_right_cancel_iff] at htext hargs hlength
      refine .cons ?_ (ih hargs.2 hlength htext.2)
      cases a with
      | word w => exact htext.1
      | pointer p => exact absurd hargs.1 (by simp [isWord])

theorem printf_prints {format : String} {n : Nat} {args : List Argument}
    (htext : formats (bytes format) n = true) (hlength : args.length = n)
    (hargs : args.all isWord = true) (more : List Argument) (k : Globals) :
    (printf format (args ++ more)).run k = .ok ((), k.afterText (shownBy format args)) := by
  simp only [formats, Bool.and_eq_true, beq_iff_eq] at htext
  obtain ⟨⟨⟨hnul, heven⟩, hwords⟩, hcount⟩ := htext
  have hsupplies := suppliesAll_words (hcount.trans hlength.symm) hwords hargs
  have hprints := print_prints (ne_zero_of_all hnul) hsupplies (Nat.even_iff.mpr heven) [] more
  exact run_onDisplay (hprints.run k.screen)

theorem run_printf {format : String} {n : Nat} {args : List Argument}
    (htext : formats (bytes format) n = true) (hlength : args.length = n)
    (hargs : args.all isWord = true) (k : Globals) :
    (printf format args).run k = .ok ((), k.afterText (shownBy format args)) := by
  have hprints := printf_prints htext hlength hargs [] k
  rw [List.append_nil] at hprints
  exact hprints

theorem run_printf_ignored {format : String} (htext : formats (bytes format) 0 = true)
    (args : List Argument) (k : Globals) :
    (printf format args).run k = .ok ((), k.afterText (shownBy format [])) := by
  have hprints : (printf format ([] ++ args)).run k = _ := printf_prints htext rfl rfl args k
  exact hprints

/-! ## The parts of the sequence -/

/-- The kernel once it has chosen a framebuffer and cleared it. -/
def Globals.opened (framebuffer : Framebuffer) (k : Globals) : Globals :=
  k.setScreen (Screen.afterClear { k.screen with
    width := framebuffer.width
    height := framebuffer.height
    pitch := framebuffer.pitch
    pixels := framebuffer.contents })

/-- The bootloader answered, and its framebuffer can be drawn into. -/
structure Answers (firmware : Firmware) (framebuffer : Framebuffer) (map : Pmm.MemmapResponse) :
    Prop where
  baseRevision : firmware.baseRevision = 0
  framebuffers : ∃ rest, firmware.framebuffers = some (framebuffer :: rest)
  memoryMap : firmware.memoryMap = some map
  bpp : framebuffer.bpp = 32

theorem run_openScreen {firmware : Firmware} {framebuffer : Framebuffer} {map : Pmm.MemmapResponse}
    (h : Answers firmware framebuffer map) (k : Globals) :
    (openScreen firmware).run k = .ok ((), k.opened framebuffer) := by
  obtain ⟨rest, hframebuffers⟩ := h.framebuffers
  unfold openScreen
  rw [if_neg (not_not_intro h.baseRevision), hframebuffers, h.memoryMap]
  simp only [Option.isNone_some, Bool.false_eq_true, if_false, h.bpp, ne_eq, not_true_eq_false]
  rw [run_modify_bind, run_onDisplay (run_clear _)]
  rfl

def gdtText (cs : UInt16) : List UInt8 :=
  shownBy "Before GDT: CS = 0x%X\n" [.word cs.toUInt64] ++
    shownBy "After GDT: CS = 0x%X\n" [.word 0x08]

theorem gdtInit_afterText (text : List UInt8) (k : Globals) :
    gdtInit (k.afterText text) = (gdtInit k).afterText text := (rfl)

theorem run_loadGDT (k : Globals) :
    loadGDT.run k = .ok ((), (gdtInit k).afterText (gdtText k.cs)) := by
  unfold loadGDT
  rw [run_get_bind, run_bind (run_printf (n := 1) ?_ rfl rfl k), run_modify_bind, run_get_bind,
    run_printf (n := 1) ?_ rfl rfl, gdtInit_afterText, gdtText, Globals.afterText_append]
  · rfl
  · apply formats_ofList
    decide +kernel
  · apply formats_ofList
    decide +kernel

/-! ### The memory map -/

def entryText (entry : Pmm.MemmapEntry) : List UInt8 :=
  shownBy "Type: %u  Base: 0x%X  Length: 0x%X\n"
    [unsigned entry.type, unsigned entry.base, unsigned entry.length]

/-- The sum of the lengths of the usable entries. -/
def totalUsable (entries : List Pmm.MemmapEntry) : UInt64 :=
  entries.foldr
    (fun entry total => if entry.type = Pmm.limineMemmapUsable then entry.length + total else total) 0

theorem run_listEntry (total : UInt64) (entry : Pmm.MemmapEntry) (k : Globals) :
    (listEntry total entry).run k =
      .ok (if entry.type = Pmm.limineMemmapUsable then total + entry.length else total,
        k.afterText (entryText entry)) := by
  unfold listEntry
  rw [run_bind (run_printf (n := 3) ?_ rfl rfl k)]
  · rfl
  · apply formats_ofList
    decide +kernel

theorem run_listEntries (entries : List Pmm.MemmapEntry) :
    ∀ (total : UInt64) (k : Globals), (entries.foldlM listEntry total).run k =
      .ok (total + totalUsable entries, k.afterText (entries.flatMap entryText)) := by
  induction entries with
  | nil =>
    intro total k
    show Except.ok (total, k) = .ok (total + 0, k)
    rw [UInt64.add_zero]
  | cons entry entries ih =>
    intro total k
    rw [List.foldlM_cons, run_bind (run_listEntry total entry k), ih, List.flatMap_cons,
      Globals.afterText_append]
    congr 2
    unfold totalUsable
    rw [List.foldr_cons]
    by_cases husable : entry.type = Pmm.limineMemmapUsable
    · rw [if_pos husable, if_pos husable, UInt64.add_assoc]
    · rw [if_neg husable, if_neg husable]

/-- The entries that the loop lists. -/
def mapEntries (map : Pmm.MemmapResponse) : List Pmm.MemmapEntry := map.entries.getD []

def mapText (entries : List Pmm.MemmapEntry) : List UInt8 :=
  shownBy "\nMemory map:\n" [] ++ entries.flatMap entryText

/-- A null `entries` comes with no entries. -/
def NullIsEmpty (firmware : Firmware) : Prop :=
  firmware.memoryMap = some ⟨none⟩ → firmware.nullEntryCount = 0

theorem run_listMemoryMap {firmware : Firmware} {map : Pmm.MemmapResponse}
    (hmap : firmware.memoryMap = some map) (hnull : NullIsEmpty firmware) (k : Globals) :
    (listMemoryMap firmware).run k =
      .ok (totalUsable (mapEntries map), k.afterText (mapText (mapEntries map))) := by
  unfold listMemoryMap
  rw [run_bind (run_printf (n := 0) ?_ rfl rfl k), hmap, mapText, Globals.afterText_append]
  · match map, hmap with
    | ⟨none⟩, hmap =>
      rw [if_pos (hnull hmap)]
      exact congrArg Except.ok (Prod.ext rfl (Globals.afterText_nil _).symm)
    | ⟨some entries⟩, _ => rw [run_listEntries, UInt64.zero_add, mapEntries, Option.getD_some]
  · apply formats_ofList
    decide +kernel

/-! ### The page allocator -/

def pmmText : List UInt8 :=
  shownBy "Initializing the Physical Memory Manager... " [] ++ shownBy "Success!\n" []

theorem run_initPmm {firmware : Firmware} {pmm : Pmm.State} {k : Globals}
    (hpmm : Pmm.pmmInit firmware.memoryMap k.pmm = .ok (true, pmm)) :
    (initPmm firmware).run k = .ok ((), (k.setPmm pmm).afterText pmmText) := by
  unfold initPmm
  rw [run_bind (run_printf (n := 0) ?_ rfl rfl k), run_get_bind, Globals.afterText_pmm, hpmm,
    ofExcept_ok, pure_bind_eq]
  · dsimp only
    rw [run_modify_bind, setPmm_afterText, pmmText, Globals.afterText_append]
    simp only [Bool.not_true, Bool.false_eq_true, if_false]
    refine run_printf (n := 0) ?_ rfl rfl _
    apply formats_ofList
    decide +kernel
  · apply formats_ofList
    decide +kernel

/-- `%lu` is no conversion of `eX_Print`, so the number of free pages is not shown. -/
def memoryText (total : UInt64) : List UInt8 :=
  shownBy "PMM: %lu free pages (%lu KiB)\n" [] ++
    shownBy "Total usable memory: %u bytes\n" [unsigned total]

theorem run_reportMemory (total : UInt64) (k : Globals) :
    (reportMemory total).run k = .ok ((), k.afterText (memoryText total)) := by
  unfold reportMemory
  rw [run_get_bind, run_bind (run_printf_ignored ?_ _ k), memoryText, Globals.afterText_append]
  · refine run_printf (n := 1) ?_ rfl rfl _
    apply formats_ofList
    decide +kernel
  · apply formats_ofList
    decide +kernel

/-! ### Interrupts -/

def irqText (ticks : UInt64) : List UInt8 := if ticks + 1 = 1 then bytes "IRQ0 FIRED!\n" else []

/-- `eX_IDT_Init` and the tick of `int $0x20`. -/
def tested (handlers : Handlers) (system : System) : System :=
  { idtInit handlers system with timerTicks := system.timerTicks + 1 }

theorem timerTicks_setGate (vector : UInt8) (handler : UInt64) (system : System) :
    (setGate vector handler system).timerTicks = system.timerTicks := rfl

theorem timerTicks_idtInit (handlers : Handlers) (system : System) :
    (idtInit handlers system).timerTicks = system.timerTicks := by
  unfold idtInit
  rw [timerTicks_setGate, timerTicks_setGate, timerTicks_setGate]

theorem run_testInterrupt {handlers : Handlers} {k : Globals}
    (hgate : k.system.gate 0x20 = installed handlers 0x20) :
    (testInterrupt handlers).run k =
      .ok ((), (k.setSystem { k.system with timerTicks := k.system.timerTicks + 1 }).afterText
        (irqText k.system.timerTicks)) := by
  unfold testInterrupt irqText
  rw [run_get_bind, interrupt_timer hgate, timerHandler_eq, ofExcept_ok, pure_bind_eq]
  by_cases hfirst : k.system.timerTicks + 1 = 1
  · rw [if_pos hfirst, if_pos hfirst]
    rfl
  · rw [if_neg hfirst, if_neg hfirst]
    rfl

def interruptText (ticks : UInt64) : List UInt8 :=
  shownBy "Testing IDT...\n" [] ++ irqText ticks ++ shownBy "IDT test returned.\n" []

theorem run_initInterrupts (handlers : Handlers) (k : Globals) :
    (initInterrupts handlers).run k =
      .ok ((), (k.setSystem (pitInit (picInit (tested handlers k.system)))).afterText
        (interruptText k.system.timerTicks)) := by
  have hgate : ∀ text : List UInt8,
      ((k.setSystem (idtInit handlers k.system)).afterText text).system.gate 0x20 =
        installed handlers 0x20 := fun text => gate_idtInit handlers k.system 0x20
  unfold initInterrupts
  rw [run_modify_bind, run_bind (run_printf (n := 0) ?_ rfl rfl _),
    run_bind (run_testInterrupt (hgate _)), run_bind (run_printf (n := 0) ?_ rfl rfl _), run_modify]
  · simp only [Globals.afterText_system, setSystem_afterText, timerTicks_idtInit, interruptText,
      Globals.afterText_append, setSystem_setSystem, system_setSystem, tested]
  · apply formats_ofList
    decide +kernel
  · apply formats_ofList
    decide +kernel

/-! ### The devices -/

theorem outb_pit (value : UInt8) (system : System) : outb 0x43 value system = system := by
  unfold outb
  rw [if_neg (by decide), if_neg (by decide), if_neg (by decide), if_neg (by decide)]

theorem outb_readIRR (system : System) : outb 0x20 0x0A system = system := by
  unfold outb Pic.command
  rw [if_pos rfl, if_neg (by decide)]

def deviceText (devices : Devices) (freePageCount : UInt64) (mask : UInt8) : List UInt8 :=
  shownBy "PPA initialized. Free pages: %u\n" [unsigned freePageCount] ++
    shownBy "PIT: %u -> %u\n" [counter devices.count1, counter devices.count2] ++
    shownBy "PIC mask: 0x%X\n" [.word mask.toUInt64] ++
    shownBy "PIT read: 0x%X\n" [.word devices.pitStatus.toUInt64] ++
    shownBy "PIC IRR: 0x%X\n" [.word devices.irr.toUInt64] ++
    shownBy "KBC STATUS: 0x%x\n" [.word devices.keyboardStatus.toUInt64] ++
    shownBy "PIC MASK: 0x%x\n" [.word mask.toUInt64]

theorem modify_pit (value : UInt8) :
    (modify fun k => k.setSystem (outb 0x43 value k.system) : Code Stop Globals Unit) =
      modify id := by
  have hself : ∀ k : Globals, k.setSystem (outb 0x43 value k.system) = k := fun k => by
    rw [outb_pit, setSystem_self]
  exact congrArg modify (funext hself)

theorem modify_readIRR :
    (modify fun k => k.setSystem (outb 0x20 0x0A k.system) : Code Stop Globals Unit) =
      modify id := by
  have hself : ∀ k : Globals, k.setSystem (outb 0x20 0x0A k.system) = k := fun k => by
    rw [outb_readIRR, setSystem_self]
  exact congrArg modify (funext hself)

theorem run_modify_id {σ β : Type} (g : Unit → Code Stop σ β) (s : σ) :
    (modify id >>= g).run s = (g ()).run s := rfl

theorem run_reportDevices (devices : Devices) (k : Globals) :
    (reportDevices devices).run k =
      .ok ((), k.afterText (deviceText devices k.freePageCount (inb 0x21 k.system))) := by
  unfold reportDevices
  simp only [modify_pit, modify_readIRR]
  rw [run_modify_id, run_get_bind, run_bind (run_printf (n := 1) ?_ rfl rfl _), run_modify_id,
    run_bind (run_printf (n := 2) ?_ rfl rfl _), run_modify_id, run_get_bind,
    run_bind (run_printf (n := 1) ?_ rfl rfl _), run_bind (run_printf (n := 1) ?_ rfl rfl _),
    run_modify_id, run_bind (run_printf (n := 1) ?_ rfl rfl _),
    run_bind (run_printf (n := 1) ?_ rfl rfl _), run_get_bind]
  · simp only [deviceText, Globals.afterText_append, Globals.afterText_system]
    refine run_printf (n := 1) ?_ rfl rfl _
    apply formats_ofList
    decide +kernel
  all_goals
    apply formats_ofList
    decide +kernel

/-! ### The heap, the ELF loader and the higher half -/

def heapText : List UInt8 :=
  shownBy "Initializing the ZMM memory manager... " [] ++ shownBy "Success!\n" [] ++
    shownBy "Initializing the ELF loader... " []

theorem run_initHeapAndElf (k : Globals) :
    initHeapAndElf.run k =
      .ok ((), (k.setBlocks (Zmm.heapInit k.blocks)).setElfInitialized.afterText heapText) := by
  unfold initHeapAndElf elfInit
  rw [run_bind (run_printf (n := 0) ?_ rfl rfl _), run_modify_bind,
    run_bind (run_printf (n := 0) ?_ rfl rfl _), run_bind (run_printf (n := 0) ?_ rfl rfl _),
    run_get_bind]
  · simp only [setBlocks_afterText, Globals.afterText_blocks, setElfInitialized_afterText, heapText,
      Globals.afterText_append, Bool.not_true, Bool.false_eq_true, if_false]
    rw [run_modify_bind, run_pure]
  all_goals
    apply formats_ofList
    decide +kernel

def hhdmText (offset : UInt64) : List UInt8 :=
  shownBy "HHDM offset: 0x%X\n" [unsigned offset] ++ shownBy "HHDM offset high: %0X\n" [] ++
    shownBy "HHDM offset low: %0X\n" []

theorem run_reportHHDM {firmware : Firmware} {offset : UInt64} (h : firmware.hhdm = some offset)
    (k : Globals) : (reportHHDM firmware).run k = .ok ((), k.afterText (hhdmText offset)) := by
  unfold reportHHDM
  rw [h]
  dsimp only
  rw [run_bind (run_printf (n := 1) ?_ rfl rfl _), run_bind (run_printf_ignored ?_ _ _), hhdmText,
    Globals.afterText_append, Globals.afterText_append]
  · refine run_printf_ignored ?_ _ _
    apply formats_ofList
    decide +kernel
  all_goals
    apply formats_ofList
    decide +kernel

/-! ## The crash screen -/

/-- What stands on the screen at `sti`; the mask is that of `eX_PIC_Init`. -/
def bootText (entries : List Pmm.MemmapEntry) (offset : UInt64) (devices : Devices) (k : Globals) :
    List UInt8 :=
  gdtText k.cs ++ mapText entries ++ pmmText ++ memoryText (totalUsable entries) ++
    interruptText k.system.timerTicks ++ deviceText devices k.freePageCount 0xFC ++ heapText ++
    hhdmText offset

/-- The kernel at `sti`, but for the text on its screen. -/
def Globals.started (framebuffer : Framebuffer) (pmm : Pmm.State) (handlers : Handlers) (k : Globals) :
    Globals :=
  ((((gdtInit (k.opened framebuffer)).setPmm pmm).setSystem
    (pitInit (picInit (tested handlers k.system)))).setBlocks
    (Zmm.heapInit k.blocks)).setElfInitialized.setKeyboard (Keyboard.init k.machine.keyboard)

theorem mask_picInit (system : System) : inb 0x21 (pitInit (picInit system)) = 0xFC := rfl

section fields

variable (framebuffer : Framebuffer) (pmm : Pmm.State) (system : System) (blocks : Zmm.Blocks)
  (keyboard : Keyboard.Driver) (k : Globals)

@[simp] theorem opened_system : (k.opened framebuffer).system = k.system := (rfl)
@[simp] theorem opened_cs : (k.opened framebuffer).cs = k.cs := (rfl)
@[simp] theorem opened_pmm : (k.opened framebuffer).pmm = k.pmm := (rfl)
@[simp] theorem opened_blocks : (k.opened framebuffer).blocks = k.blocks := (rfl)
@[simp] theorem opened_freePageCount : (k.opened framebuffer).freePageCount = k.freePageCount := (rfl)
@[simp] theorem opened_keyboard :
    (k.opened framebuffer).machine.keyboard = k.machine.keyboard := (rfl)

@[simp] theorem gdtInit_system : (gdtInit k).system = k.system := (rfl)
@[simp] theorem gdtInit_pmm : (gdtInit k).pmm = k.pmm := (rfl)
@[simp] theorem gdtInit_blocks : (gdtInit k).blocks = k.blocks := (rfl)
@[simp] theorem gdtInit_freePageCount : (gdtInit k).freePageCount = k.freePageCount := (rfl)
@[simp] theorem gdtInit_keyboard : (gdtInit k).machine.keyboard = k.machine.keyboard := (rfl)
@[simp] theorem gdtInit_screen : (gdtInit k).screen = k.screen := (rfl)

@[simp] theorem setPmm_system : (k.setPmm pmm).system = k.system := (rfl)
@[simp] theorem setPmm_blocks : (k.setPmm pmm).blocks = k.blocks := (rfl)
@[simp] theorem setPmm_freePageCount : (k.setPmm pmm).freePageCount = k.freePageCount := (rfl)
@[simp] theorem setPmm_keyboard : (k.setPmm pmm).machine.keyboard = k.machine.keyboard := (rfl)
@[simp] theorem setPmm_screen : (k.setPmm pmm).screen = k.screen := (rfl)

@[simp] theorem setSystem_blocks : (k.setSystem system).blocks = k.blocks := (rfl)
@[simp] theorem setSystem_freePageCount : (k.setSystem system).freePageCount = k.freePageCount := (rfl)
@[simp] theorem setSystem_keyboard :
    (k.setSystem system).machine.keyboard = k.machine.keyboard := (rfl)
@[simp] theorem setSystem_screen : (k.setSystem system).screen = k.screen := (rfl)

@[simp] theorem setBlocks_keyboard :
    (k.setBlocks blocks).machine.keyboard = k.machine.keyboard := (rfl)
@[simp] theorem setBlocks_screen : (k.setBlocks blocks).screen = k.screen := (rfl)

@[simp] theorem setElfInitialized_keyboard :
    k.setElfInitialized.machine.keyboard = k.machine.keyboard := (rfl)
@[simp] theorem setElfInitialized_screen : k.setElfInitialized.screen = k.screen := (rfl)

@[simp] theorem setKeyboard_screen : (k.setKeyboard keyboard).screen = k.screen := (rfl)

end fields

theorem Answers.nullIsEmpty {firmware : Firmware} {framebuffer : Framebuffer}
    {entries : List Pmm.MemmapEntry} (h : Answers firmware framebuffer ⟨some entries⟩) :
    NullIsEmpty firmware := fun hnone => by
  rw [h.memoryMap] at hnone
  cases hnone

theorem Answers.initPmm {firmware : Firmware} {framebuffer : Framebuffer}
    {entries : List Pmm.MemmapEntry} {pmm : Pmm.State} {k : Globals}
    (h : Answers firmware framebuffer ⟨some entries⟩)
    (hpmm : Pmm.pmmInit (some ⟨some entries⟩) k.pmm = .ok (true, pmm)) (text text' : List UInt8) :
    Pmm.pmmInit firmware.memoryMap
      (((gdtInit (k.opened framebuffer)).afterText text).afterText text').pmm = .ok (true, pmm) := by
  rw [Globals.afterText_pmm, Globals.afterText_pmm, gdtInit_pmm, opened_pmm, h.memoryMap, hpmm]

theorem run_boot {firmware : Firmware} {framebuffer : Framebuffer}
    {entries : List Pmm.MemmapEntry} {offset : UInt64} {pmm : Pmm.State} {k : Globals}
    (h : Answers firmware framebuffer ⟨some entries⟩) (hhhdm : firmware.hhdm = some offset)
    (hpmm : Pmm.pmmInit (some ⟨some entries⟩) k.pmm = .ok (true, pmm)) (devices : Devices)
    (handlers : Handlers) :
    (boot firmware devices handlers).run k =
      .ok ((), (k.started framebuffer pmm handlers).afterText (bootText entries offset devices k)) := by
  have hnull := h.nullIsEmpty
  have hinit := h.initPmm hpmm
  unfold boot
  rw [run_bind (run_openScreen h k), run_bind (run_loadGDT _),
    run_bind (run_listMemoryMap h.memoryMap hnull _), run_bind (run_initPmm (hinit _ _)),
    run_bind (run_reportMemory _ _), run_bind (run_initInterrupts handlers _),
    run_bind (run_reportDevices devices _), run_bind (run_initHeapAndElf _),
    run_bind (run_reportHHDM hhhdm _), run_modify]
  simp only [setKeyboard_afterText, setElfInitialized_afterText, setBlocks_afterText,
    setSystem_afterText, setPmm_afterText, Globals.afterText_keyboard, Globals.afterText_blocks,
    Globals.afterText_system, Globals.afterText_freePageCount, opened_system, opened_cs,
    opened_blocks, opened_freePageCount, opened_keyboard, gdtInit_system, gdtInit_blocks,
    gdtInit_freePageCount, gdtInit_keyboard, setPmm_system, setPmm_blocks, setPmm_freePageCount,
    setPmm_keyboard, setSystem_blocks, setSystem_freePageCount, setSystem_keyboard,
    setBlocks_keyboard, setElfInitialized_keyboard, system_setSystem, mask_picInit, bootText,
    Globals.started, Globals.afterText_append, mapEntries, Option.getD_some]

/-! ## How it ends -/

section failures

variable {firmware : Firmware} {framebuffer : Framebuffer} (devices : Devices) (handlers : Handlers)
  (k : Globals)

end failures

/-- The memory map is one that `pmm_init` can walk. -/
structure Firmware.WellFormed (firmware : Firmware) : Prop where
  nullIsEmpty : NullIsEmpty firmware
  positions : ∀ entries, firmware.memoryMap = some ⟨some entries⟩ → Pmm.PositionsInRange entries

/-- A framebuffer of 64 by 64 pixels, three usable frames, and the higher half where the bootloader
puts it. -/
def smallFirmware : Firmware where
  baseRevision := 0
  framebuffers := some [⟨64, 64, 256, 32, fun _ => 0⟩]
  memoryMap := some ⟨some [⟨0x1000, 0x3000, 0⟩]⟩
  nullEntryCount := 0
  hhdm := some 0xFFFF800000000000

/-- The kernel as it is loaded: the statics are zero. -/
def loaded : Globals where
  machine := Shell.boot
  system := atBoot
  gdt := Vector.replicate 3 ⟨0, 0, 0, 0, 0, 0⟩
  cs := 0x28
  dataSegments := 0x30
  pmm := ⟨Vector.replicate Pmm.pmmBitmapSize 0, Vector.replicate Pmm.pmmBitmapSize 0, 0, false⟩
  blocks := Vector.replicate 1024 ⟨0, 0, false⟩
  elfInitialized := false
  freePageCount := 0

def devices : Devices := ⟨(0xFF, 0x2E), (0x10, 0x2E), 0x00, 0x01, 0x1C⟩

theorem positions_one (entry : Pmm.MemmapEntry) : Pmm.PositionsInRange [entry] := by
  intro i hi hle
  rw [List.length_singleton] at hi
  omega

/-- A present descriptor of 64-bit code. -/
def GDTEntry.LongCode (entry : GDTEntry) : Prop :=
  entry.access &&& 0x98 = 0x98 ∧ entry.granularity &&& 0x60 = 0x20

/-- The descriptor that a selector chooses. -/
def Globals.descriptor (selector : UInt16) (k : Globals) : Option GDTEntry :=
  k.gdt[selector.toNat / 8]?

/-- An interrupt through a present gate goes on in the kernel's code segment. -/
def GatesSelectCode (k : Globals) : Prop :=
  ∀ vector, (k.system.gate vector).Present → (k.system.gate vector).selector = k.cs ∧
    ∃ entry, k.descriptor (k.system.gate vector).selector = some entry ∧ entry.LongCode

/-- What the loop of `kmain` finds at `sti`. -/
structure Started (entries : List Pmm.MemmapEntry) (handlers : Handlers) (k k' : Globals) : Prop where
  ready : Ready handlers k'.system
  timerTicks : k'.system.timerTicks = k.system.timerTicks + 1
  gates : GatesSelectCode k'
  pmm : Pmm.Fresh entries k'.pmm
  blocks : k'.blocks = Zmm.heapInit k.blocks
  elfInitialized : k'.elfInitialized = true
  empty : k'.machine.keyboard.queue.contents = []
  released : k'.machine.keyboard.modifiers = released
  handled : k'.machine.handled = k.machine.handled
  commands : k'.machine.shell.commands = k.machine.shell.commands

theorem ready_started (framebuffer : Framebuffer) (pmm : Pmm.State) (handlers : Handlers)
    (k : Globals) : Ready handlers (k.started framebuffer pmm handlers).system where
  gate := gate_idtInit handlers k.system
  master := rfl
  slave := rfl

theorem selector_of_present {handlers : Handlers} {vector : UInt8}
    (h : (installed handlers vector).Present) : (installed handlers vector).selector = 0x08 := by
  unfold installed at h ⊢
  split_ifs at h ⊢ with hpage htimer hopcode
  · rfl
  · rfl
  · rfl
  · exact absurd h (by decide)

theorem longCode : GDTEntry.LongCode ⟨0xFFFF, 0, 0, 0x9A, 0xAF, 0⟩ := ⟨by decide, by decide⟩

theorem started_started {entries : List Pmm.MemmapEntry} {pmm : Pmm.State}
    (hpmm : Pmm.Fresh entries pmm) (framebuffer : Framebuffer) (handlers : Handlers) (k : Globals) :
    Started entries handlers k (k.started framebuffer pmm handlers) where
  ready := ready_started framebuffer pmm handlers k
  timerTicks := rfl
  gates := by
    intro vector hpresent
    rw [(ready_started framebuffer pmm handlers k).gate] at hpresent ⊢
    rw [selector_of_present hpresent]
    exact ⟨rfl, _, rfl, longCode⟩
  pmm := hpmm
  blocks := rfl
  elfInitialized := rfl
  empty := Keyboard.contents_init _
  released := rfl
  handled := rfl
  commands := rfl

theorem Started.afterText {entries : List Pmm.MemmapEntry} {handlers : Handlers} {k k' : Globals}
    (h : Started entries handlers k k') (text : List UInt8) :
    Started entries handlers k (k'.afterText text) where
  ready := h.ready
  timerTicks := h.timerTicks
  gates := h.gates
  pmm := h.pmm
  blocks := h.blocks
  elfInitialized := h.elfInitialized
  empty := h.empty
  released := h.released
  handled := h.handled
  commands := h.commands

theorem screen_started (framebuffer : Framebuffer) (pmm : Pmm.State) (handlers : Handlers)
    (k : Globals) :
    (k.started framebuffer pmm handlers).screen = (k.opened framebuffer).screen := by
  simp only [Globals.started, setKeyboard_screen, setElfInitialized_screen, setBlocks_screen,
    setSystem_screen, setPmm_screen, gdtInit_screen]

/-- The calls of the console from the boot text on. -/
def sessionCalls (text : List UInt8) (k : Globals) (batches : List (List UInt8)) : List Call :=
  textCalls (text ++ greeting) ++ terminal.output (released, ⟨[], k.machine.shell.commands⟩) batches

/-- What the loop of `kmain` has done when it ends, with `calls` for all calls of the console since
the framebuffer was cleared. -/
structure Ran (framebuffer : Framebuffer) (handlers : Handlers) (k : Globals) (calls : List Call)
    (editor : Editor) (lines : List Line) (m : Machine) (system : System) : Prop where
  screen : m.shell.screen = calls.foldl Call.after (k.opened framebuffer).screen
  picture : 4 * framebuffer.width.toNat ≤ framebuffer.pitch.toNat →
    framebuffer.height.toNat * (framebuffer.pitch.toNat / 4) ≤ 2 ^ 64 → calls.length < 2 ^ 61 →
    Fold.Each Terminal.after (Terminal.Fits framebuffer.width.toNat framebuffer.height.toNat)
      Terminal.blank calls →
    Renders m.shell.screen (calls.foldl Terminal.after Terminal.blank)
  shell : Follows m.shell editor
  undisturbed : .master 1 ∉ lines
  ready : Ready handlers system
  timerTicks : system.timerTicks.toNat = 1 + ticks lines

theorem renders_opened {framebuffer : Framebuffer}
    (hpitch : 4 * framebuffer.width.toNat ≤ framebuffer.pitch.toNat)
    (hsize : framebuffer.height.toNat * (framebuffer.pitch.toNat / 4) ≤ 2 ^ 64) (k : Globals)
    {calls : List Call} (hlength : calls.length < 2 ^ 61)
    (hfit : Fold.Each Terminal.after
      (Terminal.Fits framebuffer.width.toNat framebuffer.height.toNat) Terminal.blank calls) :
    Renders (calls.foldl Call.after (k.opened framebuffer).screen)
      (calls.foldl Terminal.after Terminal.blank) := by
  have haddressable : Addressable { k.screen with
    width := framebuffer.width
    height := framebuffer.height
    pitch := framebuffer.pitch
    pixels := framebuffer.contents } := ⟨hpitch, hsize⟩
  exact renders_of_fits haddressable hlength hfit

theorem Started.ran {entries : List Pmm.MemmapEntry} {handlers : Handlers} {k k' : Globals}
    (h : Started entries handlers k k') (hticks : k.system.timerTicks = 0)
    {framebuffer : Framebuffer} {text : List UInt8}
    (hscreen : k'.screen = (k.opened framebuffer).screen.afterText text)
    {batches : List (List UInt8)} {lines : List Line} {m : Machine} {system : System}
    (hlines : 1 + ticks lines < 2 ^ 64)
    (hsteps : Steps (request handlers) lines (afterSti batches) k'.machine k'.system (.ret ()) m
      system) :
    Ran framebuffer handlers k (sessionCalls text k batches)
      (terminal.after (Shell.released, ⟨[], k.machine.shell.commands⟩) batches).2 lines m system := by
  have hone : k'.system.timerTicks.toNat = 1 := by
    rw [h.timerTicks, hticks]
    rfl
  obtain ⟨hreached, hkeyboard, hready, hcount⟩ := kmain_refines_under_requests h.ready
    (by rw [hone]) (by rw [hone]; exact hlines) h.empty hsteps
  rw [h.released] at hreached
  have hlast := hreached.screen
  have hshell := hreached.shell
  rw [h.commands] at hlast hshell
  have hboot : k'.machine.shell.screen =
      (textCalls text).foldl Call.after (k.opened framebuffer).screen := by
    rw [foldl_textCalls, ← hscreen]
    rfl
  rw [hboot, ← List.foldl_append, ← List.append_assoc, ← textCalls_append] at hlast
  refine ⟨hlast, fun hpitch hsize hlength hfit => ?_, hshell, hkeyboard, hready, by rw [hcount, hone]⟩
  rw [hlast]
  exact renders_opened hpitch hsize k hlength hfit

/-- With everything it asks for, and no frame to free at a position past the bitmap, `kmain` reaches
its loop, and under requests on any lines at any moments a run of the loop that ends has done what
the transducer from batches to calls does: what stands on the screen in the end are the calls of the
boot text, of the greeting and of the transducer, made one after the other on the cleared
framebuffer. If each of them finds its cell, the pixels are those of the terminal on which these
calls were made. The tick count is one more than the number of the timer's requests. -/
theorem kmain_runs {firmware : Firmware} {framebuffer : Framebuffer}
    {entries : List Pmm.MemmapEntry} {offset : UInt64} {k : Globals}
    (h : Answers firmware framebuffer ⟨some entries⟩) (hhhdm : firmware.hhdm = some offset)
    (hpositions : Pmm.PositionsInRange entries) (hticks : k.system.timerTicks = 0)
    (devices : Devices) (handlers : Handlers) :
    ∃ k', (boot firmware devices handlers).run k = .ok ((), k') ∧ Started entries handlers k k' ∧
      ∀ (batches : List (List UInt8)) (lines : List Line) (m : Machine) (system : System),
        1 + ticks lines < 2 ^ 64 →
        Steps (request handlers) lines (afterSti batches) k'.machine k'.system (.ret ()) m system →
        Ran framebuffer handlers k (sessionCalls (bootText entries offset devices k) k batches)
          (terminal.after (released, ⟨[], k.machine.shell.commands⟩) batches).2 lines m system := by
  obtain ⟨pmm, hpmm⟩ := (Pmm.pmmInit_total_iff entries k.pmm).mpr hpositions
  have hrun := run_boot h hhhdm hpmm devices handlers
  have hstarted := (started_started (Pmm.pmmInit_fresh hpmm).2 framebuffer handlers k).afterText
    (bootText entries offset devices k)
  have hscreen : ((k.started framebuffer pmm handlers).afterText
      (bootText entries offset devices k)).screen =
        (k.opened framebuffer).screen.afterText (bootText entries offset devices k) := by
    rw [Globals.screen_afterText, screen_started]
  generalize (k.started framebuffer pmm handlers).afterText (bootText entries offset devices k) = k'
    at hrun hstarted hscreen
  exact ⟨k', hrun, hstarted, fun batches lines m system hlines hsteps =>
    hstarted.ran hticks hscreen hlines hsteps⟩

theorem kmain_runs_small : ∃ k' m system,
    (boot smallFirmware devices handlers).run loaded = .ok ((), k') ∧
      Started [⟨0x1000, 0x3000, 0⟩] handlers loaded k' ∧
      Steps (request handlers) [.master 0, .slave 3] (afterSti [[0x1E]]) k'.machine k'.system
        (.ret ()) m system ∧
      Ran ⟨64, 64, 256, 32, fun _ => 0⟩ handlers loaded
        (sessionCalls (bootText [⟨0x1000, 0x3000, 0⟩] 0xFFFF800000000000 devices loaded) loaded
          [[0x1E]])
        (terminal.after (released, ⟨[], loaded.machine.shell.commands⟩) [[0x1E]]).2
        [.master 0, .slave 3] m system := by
  have hanswers : Answers smallFirmware ⟨64, 64, 256, 32, fun _ => 0⟩
      ⟨some [⟨0x1000, 0x3000, 0⟩]⟩ := ⟨rfl, ⟨_, rfl⟩, rfl, rfl⟩
  have hhhdm : smallFirmware.hhdm = some 0xFFFF800000000000 := rfl
  obtain ⟨k', hrun, hstarted, hran⟩ :=
    kmain_runs (k := loaded) hanswers hhhdm (positions_one _) rfl devices handlers
  obtain ⟨m, hloop, -⟩ := run_afterSti hstarted.empty [[0x1E]]
  have hone : k'.system.timerTicks = 0 + 1 := hstarted.timerTicks
  have hlater : k'.system.timerTicks + 1 ≠ 1 := by
    rw [hone]
    decide
  have hready : Ready handlers { k'.system with timerTicks := k'.system.timerTicks + 1 } :=
    ⟨hstarted.ready.gate, hstarted.ready.master, hstarted.ready.slave⟩
  have hsteps := Steps.interrupt (hstarted.ready.request_tick hlater k'.machine)
    (.interrupt (hready.request_masked (by decide : Line.slave 3 ≠ .master 0) (by decide) k'.machine)
      (.of_run hloop))
  exact ⟨k', m, _, hrun, hstarted, hsteps, hran _ _ _ _ (by decide) hsteps⟩

end EyaX.Kernel
