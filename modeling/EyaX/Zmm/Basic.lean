import EyaX.Base

/-!
# The ZMM memory manager of `main.c`

A table of 1024 records over a heap of 1024 bytes. `malloc` takes the first record that is free and
large enough; where the record is larger, it keeps the front and writes the rest into the next
record, whatever that held. `free` clears the `used` field of every record that starts at the
pointer.
-/

namespace EyaX.Zmm

/-- `HEAP_SIZE`. -/
def heapSize : Int := 1024

/-- `struct block`, with `used` true for 1. Nothing but 0 and 1 is ever stored in it. -/
structure Block where
  start : Int
  size : Int
  used : Bool
  deriving DecidableEq, Repr

/-- `struct block blocks[1024]`. -/
abbrev Blocks := Vector Block 1024

/-- Where the array `heap` lies: it is an object, so it is not at the null pointer and the pointer
past its end does not wrap. -/
structure Heap where
  address : UInt64
  pos : 0 < address.toNat
  fits : address.toNat + 1024 < 2 ^ 64

/-- `heap + start`. -/
def Heap.pointer (heap : Heap) (start : Int) : UInt64 := heap.address + UInt64.ofInt start

/-- `(char *)p - heap`. -/
def Heap.offset (heap : Heap) (p : UInt64) : Int := (p - heap.address).toBitVec.toInt

def readBlock (blocks : Blocks) (i : Nat) : Exec Block :=
  if h : i < 1024 then .ok blocks[i] else .error .outOfBounds

def writeBlock (blocks : Blocks) (i : Nat) (b : Block) : Exec Blocks :=
  if h : i < 1024 then .ok (blocks.set i b) else .error .outOfBounds

def heapInit (blocks : Blocks) : Blocks := blocks.set 0 ⟨0, heapSize, false⟩

/-- The loop of `malloc` over the indices that are left. -/
def mallocLoop (heap : Heap) (size : Int) (blocks : Blocks) : List Nat → Exec (UInt64 × Blocks)
  | [] => .ok (0, blocks)
  | i :: rest => do
    let b ← readBlock blocks i
    if b.used = false then
      if b.size = size then
        let blocks ← writeBlock blocks i { b with used := true }
        return (heap.pointer b.start, blocks)
      else if b.size > size then
        let remainder ← Exec.int (b.size - size)
        let blocks ← writeBlock blocks i { b with size := size, used := true }
        -- the next record is overwritten without a look at what it holds
        let start ← Exec.int (b.start + size)
        let blocks ← writeBlock blocks (i + 1) ⟨start, remainder, false⟩
        return (heap.pointer b.start, blocks)
      else mallocLoop heap size blocks rest
    else mallocLoop heap size blocks rest

def malloc (heap : Heap) (size : Int) (blocks : Blocks) : Exec (UInt64 × Blocks) :=
  mallocLoop heap size blocks (List.range 1024)

def free (heap : Heap) (p : UInt64) (blocks : Blocks) : Blocks :=
  blocks.map fun b => if b.start = heap.offset p then { b with used := false } else b

/-- The table at boot: zeroed, then `heap_init`. -/
def booted : Blocks := heapInit (Vector.replicate 1024 ⟨0, 0, false⟩)

/-! ## Pointers into the heap -/

variable {heap : Heap}

theorem pointer_toNat (heap : Heap) {start : Int} (hlo : 0 ≤ start) (hhi : start ≤ 1024) :
    (heap.pointer start).toNat = heap.address.toNat + start.toNat := by
  have hfits := heap.fits
  have hofInt : (UInt64.ofInt start).toNat = start.toNat := by
    rw [UInt64.ofInt, UInt64.toNat_ofNat']
    omega
  rw [Heap.pointer, UInt64.toNat_add, hofInt]
  omega

theorem pointer_ne_zero {start : Int} (hlo : 0 ≤ start) (hhi : start ≤ 1024) :
    heap.pointer start ≠ 0 := by
  intro hzero
  have hto := pointer_toNat heap hlo hhi
  have hpos := heap.pos
  rw [hzero] at hto
  change 0 = heap.address.toNat + start.toNat at hto
  omega

theorem offset_pointer {start : Int} (hlo : 0 ≤ start) (hhi : start ≤ 1024) :
    heap.offset (heap.pointer start) = start := by
  have hto := pointer_toNat heap hlo hhi
  have hfits := heap.fits
  have hle : heap.address ≤ heap.pointer start := by
    rw [UInt64.le_iff_toNat_le]
    omega
  have hsub : (heap.pointer start - heap.address).toBitVec.toNat = start.toNat := by
    rw [UInt64.toNat_toBitVec, UInt64.toNat_sub_of_le _ _ hle]
    omega
  rw [Heap.offset, BitVec.toInt_eq_toNat_of_lt (by omega), hsub]
  omega

theorem offset_injective {p q : UInt64} (h : heap.offset p = heap.offset q) : p = q := by
  have hsub : p - heap.address = q - heap.address := by
    rw [← UInt64.toBitVec_inj]
    exact BitVec.toInt_inj.mp h
  rw [← UInt64.sub_add_cancel p heap.address, hsub, UInt64.sub_add_cancel]

/-! ## Reads and writes of the table -/

theorem readBlock_eq (blocks : Blocks) {i : Nat} (h : i < 1024) :
    readBlock blocks i = .ok blocks[i] := dif_pos h

theorem writeBlock_eq (blocks : Blocks) {i : Nat} (h : i < 1024) (b : Block) :
    writeBlock blocks i b = .ok (blocks.set i b) := dif_pos h

end EyaX.Zmm
