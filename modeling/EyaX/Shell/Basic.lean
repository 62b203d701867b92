import EyaX.Console.Basic
import EyaX.Keyboard.Basic

/-!
# The shell of `shell.c` and the loop of `kmain`

The shell keeps a line of at most 127 characters and its length, echoes what it takes into the line,
and runs the line at a newline. The loop of `kmain` drains the keyboard and then lets the shell
drain the queue; the scancodes that one `eX_Keyboard_Poll` finds are a batch. What was handled and
what was run is logged beside the state, which the source does not do.
-/

namespace EyaX.Shell

open Interrupt Code Console

/-- What `eX_Shell_Enter` chose to do. -/
inductive Command
  | help
  | clear
  | version
  | unknown (line : List UInt8)
  | empty
  deriving DecidableEq, Repr

/-- The statics of `shell.c` and the screen. -/
structure State where
  screen : Screen
  /-- `eX_ShellBuffer`. -/
  buffer : Vector UInt8 128
  /-- `eX_ShellLength`. -/
  length : UInt64
  /-- Not in the source: the commands so far. -/
  commands : List Command

def State.setScreen (screen : Screen) (s : State) : State := { s with screen := screen }

def onScreen {α : Type} : Code Stop Screen α → Code Stop State α := zoom State.screen State.setScreen

/-- `eX_ShellBuffer[index] = c`. -/
def store (index : UInt64) (c : UInt8) : Code Stop State Unit :=
  if h : index.toNat < 128 then modify fun s => { s with buffer := s.buffer.set index.toNat c h }
  else .stop .outOfBounds

def logCommand (command : Command) : Code Stop State Unit :=
  modify fun s => { s with commands := s.commands ++ [command] }

def prompt : Code Stop State Unit := onScreen (print (cString "eyaX> ") [])

def init : Code Stop State Unit := do
  modify fun s => { s with length := 0 }
  prompt

def backspace : Code Stop State Unit := do
  let s ← get
  if s.length = 0 then pure ()
  else do
    modify fun t => { t with length := s.length - 1 }
    onScreen Console.backspace

/-- The strings are the bytes of the objects they point into. -/
def stringEquals : List UInt8 → List UInt8 → Exec Bool
  | a :: as, b :: bs =>
    if a ≠ 0 ∧ b ≠ 0 then
      if a ≠ b then .ok false else stringEquals as bs
    else .ok (a = b)
  | _, _ => .error .outOfBounds

/-- The tests of `eX_Shell_Enter` on the line and what they lead to. -/
def runLine : Code Stop State Unit := do
  let s ← get
  if ← ofExcept (stringEquals s.buffer.toList (cString "help")) then do
    logCommand .help
    onScreen (print (cString "Available commands:\n") [])
    onScreen (print (cString "  help\n") [])
    onScreen (print (cString "  clear\n") [])
    onScreen (print (cString "  echo\n") [])
    onScreen (print (cString "  version\n") [])
  else if ← ofExcept (stringEquals s.buffer.toList (cString "clear")) then do
    logCommand .clear
    onScreen Console.clear
  else if ← ofExcept (stringEquals s.buffer.toList (cString "version")) then do
    logCommand .version
    onScreen (print (cString "eyaX kernel beta 0.1\n") [])
  else if s.length > 0 then do
    logCommand (.unknown (s.buffer.toList.takeWhile (· ≠ 0)))
    onScreen (print (cString "Unknown command: %s\n") [.pointer (some s.buffer.toList)])
  else logCommand .empty

def enter : Code Stop State Unit := do
  let s ← get
  store s.length 0
  onScreen (print (cString "\n") [])
  runLine
  modify fun s => { s with length := 0 }
  prompt

def character (c : UInt8) : Code Stop State Unit := do
  let s ← get
  if s.length ≥ 128 - 1 then pure ()
  else do
    store s.length c
    modify fun t => { t with length := s.length + 1 }
    onScreen (printChar c)

/-- The body of the loop of `eX_Shell_Update`. -/
def handleChar (c : Int) : Code Stop State Unit :=
  if c = '\n'.toNat then enter
  else if c = '\x08'.toNat then backspace
  else if c ≥ 32 ∧ c ≤ 126 then character (UInt8.ofInt c)
  else pure ()

/-! ## The loop -/

/-- The statics of `keyboard.c` and of the shell. -/
structure Machine where
  keyboard : Keyboard.Driver
  shell : State
  /-- Not in the source: the characters that `eX_Shell_Update` handled so far. -/
  handled : List UInt8

def Machine.setShell (shell : State) (m : Machine) : Machine := { m with shell := shell }

def onShell {α : Type} : Code Stop State α → Code Stop Machine α := zoom Machine.shell Machine.setShell

def getChar : Code Stop Machine Int := do
  let m ← get
  modify fun m => { m with keyboard := { m.keyboard with queue := (Keyboard.getChar m.keyboard.queue).2 } }
  return (Keyboard.getChar m.keyboard.queue).1

/-- At most `turns` turns of the loop of `eX_Shell_Update`. -/
def updateLoop : Nat → Code Stop Machine Unit
  | 0 => .stop .halt
  | turns + 1 => do
    let c ← getChar
    if c ≠ -1 then do
      modify fun m => { m with handled := m.handled ++ [UInt8.ofInt c] }
      onShell (handleChar c)
      updateLoop turns
    else pure ()

/-- The queue never holds more than 127 characters, so the loop ends within 128 turns. -/
def update : Code Stop Machine Unit := updateLoop 128

def poll (batch : List UInt8) : Code Stop Machine Unit :=
  batch.forM fun scancode =>
    modify fun m => { m with keyboard := Keyboard.handleScancode m.keyboard scancode }

/-- One turn of the loop of `kmain`. -/
def iteration (batch : List UInt8) : Code Stop Machine Unit := do
  poll batch
  update

/-- `kmain` from `sti` on, for as many turns of its loop as there are batches. -/
def afterSti (batches : List (List UInt8)) : Code Stop Machine Unit := do
  onShell (onScreen (print (cString "Tests completed\n") []))
  onShell (onScreen (print (cString "eyaX kernel, beta 0.1\n\n") []))
  onShell init
  batches.forM iteration

/-- `kmain` from `eX_Keyboard_Init` on. -/
def kmain (batches : List (List UInt8)) : Code Stop Machine Unit := do
  modify fun m => { m with keyboard := Keyboard.init m.keyboard }
  afterSti batches

end EyaX.Shell
