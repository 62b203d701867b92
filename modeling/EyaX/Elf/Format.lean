import EyaX.Lib.LittleEndian
import Mathlib.Data.Nat.ModEq

/-!
# Executable images, in exact arithmetic

What a loadable x86-64 executable is, as a predicate on byte strings over unbounded integers: the
header fields, the program headers, and no word about how anything is checked.
-/

namespace EyaX.Elf

open LittleEndian (field)

/-- The fields of the file header. -/
structure Ehdr where
  ident : List UInt8
  type : Nat
  machine : Nat
  version : Nat
  entry : Nat
  phoff : Nat
  ehsize : Nat
  phentsize : Nat
  phnum : Nat

/-- The fields of a program header. -/
structure Phdr where
  type : Nat
  flags : Nat
  offset : Nat
  vaddr : Nat
  filesz : Nat
  memsz : Nat
  align : Nat

def ehdr (bytes : List UInt8) : Ehdr where
  ident := bytes.take 16
  type := field bytes 16 2
  machine := field bytes 18 2
  version := field bytes 20 4
  entry := field bytes 24 8
  phoff := field bytes 32 8
  ehsize := field bytes 52 2
  phentsize := field bytes 54 2
  phnum := field bytes 56 2

/-- The program header at an offset. -/
def phdrAt (bytes : List UInt8) (offset : Nat) : Phdr where
  type := field bytes offset 4
  flags := field bytes (offset + 4) 4
  offset := field bytes (offset + 8) 8
  vaddr := field bytes (offset + 16) 8
  filesz := field bytes (offset + 32) 8
  memsz := field bytes (offset + 40) 8
  align := field bytes (offset + 48) 8

/-- Program header number `i`. -/
def phdr (bytes : List UInt8) (i : Nat) : Phdr := phdrAt bytes ((ehdr bytes).phoff + 56 * i)

/-- A supported header whose program header table lies inside the image. -/
structure Supported (bytes : List UInt8) : Prop where
  size : 64 ≤ bytes.length
  magic : (ehdr bytes).ident.take 4 = [0x7F, 0x45, 0x4C, 0x46]
  elfClass : (ehdr bytes).ident[4]? = some 2
  data : (ehdr bytes).ident[5]? = some 1
  identVersion : (ehdr bytes).ident[6]? = some 1
  version : (ehdr bytes).version = 1
  machine : (ehdr bytes).machine = 62
  type : (ehdr bytes).type = 2
  ehsize : (ehdr bytes).ehsize = 64
  phnum : 0 < (ehdr bytes).phnum
  phentsize : (ehdr bytes).phentsize = 56
  table : (ehdr bytes).phoff + 56 * (ehdr bytes).phnum ≤ bytes.length

/-- A loadable segment of an image of `size` bytes. -/
structure Phdr.Loadable (p : Phdr) (size : Nat) : Prop where
  filesz : p.filesz ≤ p.memsz
  file : p.offset + p.filesz ≤ size
  memory : p.vaddr + p.memsz < 2 ^ 64
  align : p.align = 0 ∨ ∃ k, p.align = 2 ^ k
  congruent : 1 < p.align → p.vaddr ≡ p.offset [MOD p.align]

/-- `PT_LOAD`. -/
def Phdr.IsLoad (p : Phdr) : Prop := p.type = 1

/-- The segment is executable and its memory holds the address. -/
def Phdr.Executes (p : Phdr) (address : Nat) : Prop :=
  p.flags.testBit 0 = true ∧ p.vaddr ≤ address ∧ address < p.vaddr + p.memsz

/-- A loadable executable: every `PT_LOAD` segment is loadable and one of them executes the entry
point. -/
structure Valid (bytes : List UInt8) : Prop where
  supported : Supported bytes
  segments : ∀ i < (ehdr bytes).phnum, (phdr bytes i).IsLoad → (phdr bytes i).Loadable bytes.length
  entry : ∃ i < (ehdr bytes).phnum, (phdr bytes i).IsLoad ∧ (phdr bytes i).Executes (ehdr bytes).entry

end EyaX.Elf
