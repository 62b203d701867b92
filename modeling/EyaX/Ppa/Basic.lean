import EyaX.Console.Basic
import EyaX.Lib.ByteSet
import EyaX.Pmm.Basic

/-!
# The physical page allocator of `main.c`

One bitmap of the frames below the end of the highest entry of the memory map, a set bit for a used
frame. It has no array of its own: `eX_PPA_Init` puts it at the beginning of the first usable entry
that is long enough, so its bytes are bytes of the memory that it describes. The response of the
bootloader and the statics lie elsewhere.
-/

namespace EyaX.Ppa

open ByteSet (mask)
open Console (Screen print cString)
open Interrupt (Code)
open Pmm (MemmapEntry limineMemmapUsable)

/-- `eX_PAGE_SIZE`. -/
def pageSize : UInt64 := 4096

/-- The memory at its physical addresses, and the statics of the allocator. -/
structure State where
  memory : UInt64 → UInt8
  pageBitmap : UInt64
  pageCount : UInt64
  freePageCount : UInt64
  /-- Not in the source: the indices at which `eX_PageBitmap` was read or written so far. -/
  touched : List UInt64

/-- `eX_PageBitmap[i]`. -/
def State.byte (s : State) (i : UInt64) : UInt8 := s.memory (s.pageBitmap + i)

def State.touch (s : State) (i : UInt64) : State := { s with touched := s.touched ++ [i] }

/-- `eX_PageBitmap[i] = b`. -/
def State.store (s : State) (i : UInt64) (b : UInt8) : State :=
  { s.touch i with memory := Function.update s.memory (s.pageBitmap + i) b }

def pageSet (page : UInt64) (s : State) : State :=
  s.store (page / 8) (s.byte (page / 8) ||| mask page.toNat)

def pageClear (page : UInt64) (s : State) : State :=
  s.store (page / 8) (s.byte (page / 8) &&& ~~~mask page.toNat)

/-- The bit of a frame. -/
def State.used (s : State) (page : UInt64) : Bool := (s.byte (page / 8) &&& mask page.toNat) != 0

def pageIsUsed (page : UInt64) (s : State) : Bool × State := (s.used page, s.touch (page / 8))

def pageBitmapSize (s : State) : UInt64 := (s.pageCount + 7) / 8

/-! ## `eX_PPA_Init` -/

/-- The body of the first loop. -/
def higherEnd (highest : UInt64) (entry : MemmapEntry) : UInt64 :=
  let top := entry.base + entry.length
  if top > highest then top else highest

def highestAddress (entries : List MemmapEntry) : UInt64 := entries.foldl higherEnd 0

/-- The second loop, over the entries that are left: where the bitmap goes, or null. -/
def placeBitmap (size : UInt64) : List MemmapEntry → UInt64
  | [] => 0
  | entry :: rest =>
    if entry.type ≠ limineMemmapUsable then placeBitmap size rest
    else if entry.length ≥ size then entry.base
    else placeBitmap size rest

def fillBitmap (size : UInt64) (s : State) : State :=
  (List.range size.toNat).foldl (fun s i => s.store (UInt64.ofNat i) 0xFF) s

/-- The frames `[first, last)`. -/
def pages (first last : UInt64) : List UInt64 :=
  (List.range' first.toNat (last.toNat - first.toNat)).map UInt64.ofNat

/-- The body of the loop over the frames of a usable entry. -/
def freePage (s : State) (page : UInt64) : State :=
  let s := pageClear page s
  { s with freePageCount := s.freePageCount + 1 }

/-- The body of the third loop over the entries. -/
def freeEntry (s : State) (entry : MemmapEntry) : State :=
  if entry.type ≠ limineMemmapUsable then s
  else
    let firstPage := (entry.base + pageSize - 1) / pageSize
    let lastPage := (entry.base + entry.length) / pageSize
    (pages firstPage lastPage).foldl freePage s

/-- The body of the loop over the frames of the bitmap. -/
def reservePage (s : State) (page : UInt64) : State :=
  let (used, s) := pageIsUsed page s
  if !used then
    let s := pageSet page s
    { s with freePageCount := s.freePageCount - 1 }
  else s

/-- What `eX_PPA_Init` does once the bitmap has a place. -/
def buildBitmap (bitmapSize : UInt64) (entries : List MemmapEntry) (s : State) : State :=
  let s := fillBitmap bitmapSize s
  let s := { s with freePageCount := 0 }
  let s := entries.foldl freeEntry s
  let firstPage := s.pageBitmap / pageSize
  let lastPage := (s.pageBitmap + bitmapSize + pageSize - 1) / pageSize
  (pages firstPage lastPage).foldl reservePage s

def ppaInit (entries : List MemmapEntry) (s : State) : Code Stop Screen State :=
  let s := { s with pageCount := (highestAddress entries + pageSize - 1) / pageSize }
  let bitmapSize := (s.pageCount + 7) / 8
  let s := { s with pageBitmap := placeBitmap bitmapSize entries }
  if s.pageBitmap = 0 then do
    print (cString "PPA: Cannot place bitmap!\n") []
    .stop .halt
  else pure (buildBitmap bitmapSize entries s)

/-! ## The bitmap as a set of frames -/

variable {s : State}

theorem byte_store (s : State) (i j : UInt64) (b : UInt8) :
    (s.store i b).byte j = if j = i then b else s.byte j := by
  show Function.update s.memory (s.pageBitmap + i) b (s.pageBitmap + j) = _
  by_cases hj : j = i
  · rw [hj, Function.update_self, if_pos rfl]
  · rw [Function.update_of_ne (fun he => hj ((UInt64.add_right_inj _).mp he)), if_neg hj]
    rfl

theorem used_eq (s : State) (page : UInt64) :
    s.used page = (s.byte (page / 8)).toBitVec.getLsbD (page.toNat % 8) :=
  ByteSet.and_mask_ne_zero _ _

theorem used_store (s : State) (i page : UInt64) (b : UInt8) :
    (s.store i b).used page =
      if page / 8 = i then b.toBitVec.getLsbD (page.toNat % 8) else s.used page := by
  rw [used_eq, used_eq, byte_store]
  split
  · rfl
  · rfl

@[simp] theorem used_touch (s : State) (i page : UInt64) : (s.touch i).used page = s.used page := rfl

theorem toNat_div_eq {i j : UInt64} (h : j / 8 = i / 8) : j.toNat / 8 = i.toNat / 8 := by
  have htoNat := congrArg UInt64.toNat h
  rwa [UInt64.toNat_div, UInt64.toNat_div] at htoNat

theorem decide_toNat (i j : UInt64) : decide (j.toNat = i.toNat) = decide (j = i) :=
  decide_eq_decide.mpr UInt64.toNat_inj

theorem used_pageSet (s : State) (i j : UInt64) :
    (pageSet i s).used j = (decide (j = i) || s.used j) := by
  rw [pageSet, used_store]
  split
  · rename_i hj
    rw [ByteSet.getLsbD_or_mask _ (toNat_div_eq hj), decide_toNat, used_eq, hj]
  · rename_i hj
    have hne : j ≠ i := fun he => hj (by rw [he])
    simp [hne]

theorem used_pageClear (s : State) (i j : UInt64) :
    (pageClear i s).used j = (!decide (j = i) && s.used j) := by
  rw [pageClear, used_store]
  split
  · rename_i hj
    rw [ByteSet.getLsbD_and_mask _ (toNat_div_eq hj), decide_toNat, used_eq, hj]
  · rename_i hj
    have hne : j ≠ i := fun he => hj (by rw [he])
    simp [hne]

end EyaX.Ppa
