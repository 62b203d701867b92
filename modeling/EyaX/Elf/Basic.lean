import EyaX.Base
import EyaX.Lib.LittleEndian

/-!
# The ELF validator of `elf.c`

An image is the byte string a pointer leads to, with the size that the caller passes beside it; a
header pointer is its offset in the image. Every field access is a load from the image, so a read
outside it has no result.
-/

namespace EyaX.Elf

/-- What `const void *image` points to; `none` is a null pointer. -/
abbrev Image := Option (List UInt8)

/-- An `n`-byte little-endian load. -/
def load (image : Image) (offset n : Nat) : Exec Nat :=
  match image with
  | none => .error .outOfBounds
  | some bytes =>
    if offset + n ≤ bytes.length then .ok (LittleEndian.field bytes offset n)
    else .error .outOfBounds

def load8 (image : Image) (offset : Nat) : Exec UInt8 := do
  return UInt8.ofNat (← load image offset 1)

def load16 (image : Image) (offset : Nat) : Exec UInt16 := do
  return UInt16.ofNat (← load image offset 2)

def load32 (image : Image) (offset : Nat) : Exec UInt32 := do
  return UInt32.ofNat (← load image offset 4)

def load64 (image : Image) (offset : Nat) : Exec UInt64 := do
  return UInt64.ofNat (← load image offset 8)

/-! ## Constants -/

def eiClass : Nat := 4
def eiData : Nat := 5
def eiVersion : Nat := 6

def elfClass64 : UInt8 := 2
def elfData2Lsb : UInt8 := 1
def etExec : UInt16 := 2
def emX86_64 : UInt16 := 62
def evCurrent : UInt8 := 1
def ptLoad : UInt32 := 1
def pfX : UInt32 := 1

/-- `sizeof(Elf64_Ehdr)`. -/
def sizeofEhdr : Nat := 64

/-- `sizeof(Elf64_Phdr)`. -/
def sizeofPhdr : Nat := 56

/-! ## The fields of the packed headers -/

def eIdent (image : Image) (index : Nat) : Exec UInt8 := load8 image index
def eType (image : Image) : Exec UInt16 := load16 image 16
def eMachine (image : Image) : Exec UInt16 := load16 image 18
def eVersion (image : Image) : Exec UInt32 := load32 image 20
def eEntry (image : Image) : Exec UInt64 := load64 image 24
def ePhoff (image : Image) : Exec UInt64 := load64 image 32
def eEhsize (image : Image) : Exec UInt16 := load16 image 52
def ePhentsize (image : Image) : Exec UInt16 := load16 image 54
def ePhnum (image : Image) : Exec UInt16 := load16 image 56

def pType (image : Image) (phdr : UInt64) : Exec UInt32 := load32 image phdr.toNat
def pFlags (image : Image) (phdr : UInt64) : Exec UInt32 := load32 image (phdr.toNat + 4)
def pOffset (image : Image) (phdr : UInt64) : Exec UInt64 := load64 image (phdr.toNat + 8)
def pVaddr (image : Image) (phdr : UInt64) : Exec UInt64 := load64 image (phdr.toNat + 16)
def pFilesz (image : Image) (phdr : UInt64) : Exec UInt64 := load64 image (phdr.toNat + 32)
def pMemsz (image : Image) (phdr : UInt64) : Exec UInt64 := load64 image (phdr.toNat + 40)
def pAlign (image : Image) (phdr : UInt64) : Exec UInt64 := load64 image (phdr.toNat + 48)

/-! ## The checks -/

def elfRangeValid (offset length bufferSize : UInt64) : Bool :=
  if offset > bufferSize then false
  else if length > bufferSize - offset then false
  else true

def elfAddOverflow (a b : UInt64) : Bool := b > 0xFFFFFFFFFFFFFFFF - a

def elfValidAlignment (alignment : UInt64) : Bool :=
  if alignment ≤ 1 then true
  else (alignment &&& (alignment - 1)) == 0

def elfCheckFile (image : Image) (imageSize : UInt64) : Exec Bool := do
  if image = none ∨ imageSize < 4 then return false
  if (← load8 image 0) ≠ 0x7F then return false
  if (← load8 image 1) ≠ 0x45 then return false
  if (← load8 image 2) ≠ 0x4C then return false
  if (← load8 image 3) ≠ 0x46 then return false
  return true

def elfCheckSupported (image : Image) (imageSize : UInt64) : Exec Bool := do
  if !(← elfCheckFile image imageSize) then return false
  if imageSize < UInt64.ofNat sizeofEhdr then return false
  if (← eIdent image eiClass) ≠ elfClass64 then return false
  if (← eIdent image eiData) ≠ elfData2Lsb then return false
  if (← eIdent image eiVersion) ≠ evCurrent then return false
  if (← eVersion image) ≠ evCurrent.toUInt32 then return false
  if (← eMachine image) ≠ emX86_64 then return false
  if (← eType image) ≠ etExec then return false
  if (← eEhsize image) ≠ UInt16.ofNat sizeofEhdr then return false
  if (← ePhnum image) = 0 then return false
  if (← ePhentsize image) ≠ UInt16.ofNat sizeofPhdr then return false
  let tableSize := (← ePhnum image).toUInt64 * UInt64.ofNat sizeofPhdr
  if !elfRangeValid (← ePhoff image) tableSize imageSize then return false
  return true

/-- The offset of a program header in the image, or `none` for the null pointer. -/
def elfProgramHeader (image : Image) (imageSize : UInt64) (index : UInt16) :
    Exec (Option UInt64) := do
  if !(← elfCheckSupported image imageSize) then return none
  if index ≥ (← ePhnum image) then return none
  let offset := (← ePhoff image) + index.toUInt64 * UInt64.ofNat sizeofPhdr
  if !elfRangeValid offset (UInt64.ofNat sizeofPhdr) imageSize then return none
  return some offset

def elfCheckLoadSegment (image : Image) (imageSize : UInt64) (phdr : Option UInt64) :
    Exec Bool :=
  match image, phdr with
  | none, _ => return false
  | some _, none => return false
  | some _, some phdr => do
    if (← pType image phdr) ≠ ptLoad then return false
    if (← pFilesz image phdr) > (← pMemsz image phdr) then return false
    if !elfRangeValid (← pOffset image phdr) (← pFilesz image phdr) imageSize then return false
    if elfAddOverflow (← pVaddr image phdr) (← pMemsz image phdr) then return false
    if !elfValidAlignment (← pAlign image phdr) then return false
    if (← pAlign image phdr) > 1 then
      if (← pVaddr image phdr) % (← pAlign image phdr) ≠
          (← pOffset image phdr) % (← pAlign image phdr) then return false
    return true

/-- Whether the entry point lies in the memory of an executable segment. -/
def entryInSegment (image : Image) (phdr : UInt64) : Exec Bool := do
  if (← pFlags image phdr) &&& pfX = 0 then return false
  if (← pMemsz image phdr) = 0 then return false
  if (← eEntry image) < (← pVaddr image phdr) then return false
  return (← eEntry image) - (← pVaddr image phdr) < (← pMemsz image phdr)

/-- The loop of `elf_validate_image` over the indices that are left, with its two flags. The 16-bit
index stays below `e_phnum`, so it does not wrap. -/
def validateLoop (image : Image) (imageSize : UInt64) : List Nat → Bool → Bool → Exec Bool
  | [], foundLoadSegment, entryIsExecutable =>
    if !foundLoadSegment then .ok false
    else if !entryIsExecutable then .ok false
    else .ok true
  | i :: rest, foundLoadSegment, entryIsExecutable => do
    match ← elfProgramHeader image imageSize (UInt16.ofNat i) with
    | none => return false
    | some phdr =>
      if (← pType image phdr) ≠ ptLoad then
        validateLoop image imageSize rest foundLoadSegment entryIsExecutable
      else if !(← elfCheckLoadSegment image imageSize (some phdr)) then return false
      else if ← entryInSegment image phdr then validateLoop image imageSize rest true true
      else validateLoop image imageSize rest true entryIsExecutable

def elfValidateImage (image : Image) (imageSize : UInt64) : Exec Bool := do
  if !(← elfCheckSupported image imageSize) then return false
  validateLoop image imageSize (List.range (← ePhnum image).toNat) false false

end EyaX.Elf
