import EyaX.Base
import EyaX.Lib.ByteSet

/-!
# The physical page allocator of `pmm.c`

Two bitmaps of one bit per 4 KiB frame below 64 GiB, a counter, and the flag that `pmm_init` has
run. The functions are the source's, bit polarity included: `pmm_alloc_page` takes the first usable
frame whose bit in `pmm_bitmap` is set and sets that bit, `pmm_free_page` wants the bit set and
clears it.
-/

namespace EyaX.Pmm

open ByteSet (mask)

def pmmPageSize : UInt64 := 4096

def pmmMaxPhysAddr : UInt64 := 64 * 1024 * 1024 * 1024

def pmmMaxPages : UInt64 := pmmMaxPhysAddr / pmmPageSize

def pmmBitmapSize : Nat := ((pmmMaxPages + 7) / 8).toNat

def limineMemmapUsable : UInt64 := 0

/-- `struct limine_memmap_entry`. -/
structure MemmapEntry where
  base : UInt64
  length : UInt64
  type : UInt64
  deriving DecidableEq, Repr

/-- `struct limine_memmap_response`: `entry_count` is the length of `entries`, and `none` is a null
`entries`. -/
structure MemmapResponse where
  entries : Option (List MemmapEntry)

/-- A `uint8_t[PMM_BITMAP_SIZE]`. -/
abbrev Bitmap := Vector UInt8 pmmBitmapSize

/-- The globals of `pmm.c`. -/
structure State where
  bitmap : Bitmap
  usableBitmap : Bitmap
  availablePages : UInt64
  initialized : Bool

section Bitmaps

variable {n : Nat}

def bitmapGet (bitmap : Vector UInt8 n) (index : Nat) : Exec Bool :=
  if h : index / 8 < n then .ok ((bitmap[index / 8] &&& mask index) != 0)
  else .error .outOfBounds

def bitmapSet (bitmap : Vector UInt8 n) (index : Nat) : Exec (Vector UInt8 n) :=
  if h : index / 8 < n then .ok (bitmap.set (index / 8) (bitmap[index / 8] ||| mask index))
  else .error .outOfBounds

def bitmapClear (bitmap : Vector UInt8 n) (index : Nat) : Exec (Vector UInt8 n) :=
  if h : index / 8 < n then .ok (bitmap.set (index / 8) (bitmap[index / 8] &&& ~~~mask index))
  else .error .outOfBounds

end Bitmaps

/-! ## `pmm_init` -/

/-- The frames `[first_page, last_page)` that `pmm_init` visits for an entry, or `none` where it
continues with the next entry. -/
def entryPages (entry : MemmapEntry) : Option (UInt64 × UInt64) :=
  if entry.type ≠ limineMemmapUsable then none
  else if entry.base ≥ pmmMaxPhysAddr then none
  else
    let last :=
      if entry.length > pmmMaxPhysAddr - entry.base then pmmMaxPhysAddr
      else entry.base + entry.length
    let firstPage := (entry.base + pmmPageSize - 1) / pmmPageSize
    let lastPage := last / pmmPageSize
    if firstPage ≥ pmmMaxPages then none
    else some (firstPage, if lastPage > pmmMaxPages then pmmMaxPages else lastPage)

/-- The body of the inner loop, for entry number `i`. -/
def initPage (i : Nat) (s : State) (page : Nat) : Exec State := do
  let s := { s with usableBitmap := ← bitmapSet s.usableBitmap page }
  if page = 0 then return s
  -- the source tests the bit of the entry's number here, not the bit of the frame
  if !(← bitmapGet s.bitmap i) then
    return { s with
      bitmap := ← bitmapClear s.bitmap page
      availablePages := s.availablePages + 1 }
  return s

/-- The body of the outer loop. -/
def initEntry (s : State) (entry : MemmapEntry × Nat) : Exec State :=
  match entryPages entry.1 with
  | none => .ok s
  | some (first, last) =>
    (List.range' first.toNat (last.toNat - first.toNat)).foldlM (initPage entry.2) s

/-- The state in which `pmm_init` enters its loops: every frame reserved, none usable. -/
def reserved : State where
  bitmap := Vector.replicate pmmBitmapSize 0xFF
  usableBitmap := Vector.replicate pmmBitmapSize 0
  availablePages := 0
  initialized := false

def pmmInit (response : Option MemmapResponse) (s : State) : Exec (Bool × State) :=
  match response with
  | none => .ok (false, s)
  | some response =>
    match response.entries with
    | none => .ok (false, s)
    | some entries => do
      let s ← entries.zipIdx.foldlM initEntry reserved
      return (true, { s with initialized := true })

/-! ## `pmm_alloc_page`, `pmm_free_page`, `pmm_free_pages` -/

/-- The search loop of `pmm_alloc_page` over the indices that are left. -/
def allocLoop (s : State) : List Nat → Exec (UInt64 × State)
  | [] => .ok (0, s)
  | i :: rest => do
    if !(← bitmapGet s.usableBitmap i) then allocLoop s rest
    else if ← bitmapGet s.bitmap i then
      let bitmap ← bitmapSet s.bitmap i
      return (UInt64.ofNat i * pmmPageSize,
        { s with bitmap := bitmap, availablePages := s.availablePages - 1 })
    else allocLoop s rest

def pmmAllocPage (s : State) : Exec (UInt64 × State) :=
  if !s.initialized then .ok (0, s)
  else allocLoop s (List.range' 1 (pmmMaxPages.toNat - 1))

def pmmFreePage (address : UInt64) (s : State) : Exec (Bool × State) := do
  if !s.initialized || address == 0 then return (false, s)
  if address % pmmPageSize ≠ 0 then return (false, s)
  let page := address / pmmPageSize
  if page ≥ pmmMaxPages then return (false, s)
  if !(← bitmapGet s.usableBitmap page.toNat) then return (false, s)
  if !(← bitmapGet s.bitmap page.toNat) then return (false, s)
  let bitmap ← bitmapClear s.bitmap page.toNat
  return (true, { s with bitmap := bitmap, availablePages := s.availablePages + 1 })

def pmmFreePages (s : State) : UInt64 :=
  if !s.initialized then 0 else s.availablePages

/-! ## Constants -/

theorem pmmPageSize_toNat : pmmPageSize.toNat = 4096 := rfl

theorem pmmMaxPhysAddr_toNat : pmmMaxPhysAddr.toNat = 2 ^ 36 := rfl

theorem pmmMaxPages_toNat : pmmMaxPages.toNat = 2 ^ 24 := rfl

theorem pmmBitmapSize_eq : pmmBitmapSize = 2 ^ 21 := rfl

/-! ## The bitmaps as sets of frames -/

open ByteSet (test)

theorem inRange_iff {index : Nat} : index / 8 < pmmBitmapSize ↔ index < 2 ^ 24 := by
  rw [pmmBitmapSize_eq]
  omega

theorem lt_of_test {bitmap : Bitmap} {index : Nat} (h : test bitmap index = true) :
    index < 2 ^ 24 :=
  inRange_iff.mp (ByteSet.lt_of_test h)

section Bitmaps

variable {n index : Nat} (h : index / 8 < n)

include h

theorem bitmapGet_of_lt (bitmap : Vector UInt8 n) :
    bitmapGet bitmap index = .ok (test bitmap index) := by
  rw [bitmapGet, dif_pos h, test, dif_pos h]

theorem bitmapSet_of_lt (bitmap : Vector UInt8 n) :
    ∃ bitmap', bitmapSet bitmap index = .ok bitmap' ∧
      (∀ k, k ≠ index / 8 → bitmap'[k]? = bitmap[k]?) ∧
      ∀ j, test bitmap' j = (decide (j = index) || test bitmap j) := by
  refine ⟨_, by rw [bitmapSet, dif_pos h], fun k hk => ?_, fun j => ?_⟩
  · exact Vector.getElem?_set_ne h hk.symm
  · exact ByteSet.test_set_or bitmap h j

theorem bitmapClear_of_lt (bitmap : Vector UInt8 n) :
    ∃ bitmap', bitmapClear bitmap index = .ok bitmap' ∧
      (∀ k, k ≠ index / 8 → bitmap'[k]? = bitmap[k]?) ∧
      ∀ j, test bitmap' j = (!decide (j = index) && test bitmap j) := by
  refine ⟨_, by rw [bitmapClear, dif_pos h], fun k hk => ?_, fun j => ?_⟩
  · exact Vector.getElem?_set_ne h hk.symm
  · exact ByteSet.test_set_and bitmap h j

end Bitmaps

theorem bitmapGet_eq (bitmap : Bitmap) {index : Nat} (h : index < 2 ^ 24) :
    bitmapGet bitmap index = .ok (test bitmap index) :=
  bitmapGet_of_lt (inRange_iff.mpr h) bitmap

theorem bitmapGet_eq_ok {bitmap : Bitmap} {index : Nat} {b : Bool}
    (h : bitmapGet bitmap index = .ok b) : index < 2 ^ 24 ∧ b = test bitmap index := by
  by_cases hlt : index < 2 ^ 24
  · rw [bitmapGet_eq bitmap hlt] at h
    exact ⟨hlt, (Except.ok.inj h).symm⟩
  · rw [bitmapGet, dif_neg (fun hb => hlt (inRange_iff.mp hb))] at h
    cases h

theorem bitmapSet_spec (bitmap : Bitmap) {index : Nat} (h : index < 2 ^ 24) :
    ∃ bitmap', bitmapSet bitmap index = .ok bitmap' ∧
      ∀ j, test bitmap' j = (decide (j = index) || test bitmap j) := by
  obtain ⟨bitmap', hset, -, htest⟩ := bitmapSet_of_lt (inRange_iff.mpr h) bitmap
  exact ⟨bitmap', hset, htest⟩

theorem bitmapClear_spec (bitmap : Bitmap) {index : Nat} (h : index < 2 ^ 24) :
    ∃ bitmap', bitmapClear bitmap index = .ok bitmap' ∧
      ∀ j, test bitmap' j = (!decide (j = index) && test bitmap j) := by
  obtain ⟨bitmap', hclear, -, htest⟩ := bitmapClear_of_lt (inRange_iff.mpr h) bitmap
  exact ⟨bitmap', hclear, htest⟩

theorem bitmapSet_of_test {bitmap : Bitmap} {index : Nat} (h : test bitmap index = true) :
    bitmapSet bitmap index = .ok bitmap := by
  obtain ⟨bitmap', hset, htest⟩ := bitmapSet_spec bitmap (lt_of_test h)
  rw [hset]
  refine congrArg Except.ok (ByteSet.ext fun j => ?_)
  rw [htest]
  by_cases hj : j = index
  · simp [hj, h]
  · simp [hj]

end EyaX.Pmm
