import EyaX.Lib.Collection
import EyaX.Ppa.Basic

/-!
# The page bitmaps are sets of page numbers

`pmm.c` and `main.c` each have three functions on a bitmap. Those of `pmm.c` are given their bytes;
those of `main.c` find theirs in memory, behind `eX_PageBitmap`. Both ways the bytes are a set of
page numbers, and all that the allocators know of a page is whether it is in the set.
-/

namespace EyaX

open ByteSet (test)
open Collection (Ops)

/-! ## `pmm.c` -/

namespace Pmm

/-- `bitmap_get`, `bitmap_set` and `bitmap_clear` on an array of `n` bytes. -/
def bitmapOps (n : Nat) : Ops Stop (Vector UInt8 n) Nat Nat (Option UInt8) where
  InRange index := index / 8 < n
  get := bitmapGet
  set := bitmapSet
  clear := bitmapClear
  cell _ index := index / 8
  content bitmap k := bitmap[k]?

variable {n : Nat}

theorem bitmapOps_get_iff (bitmap : Vector UInt8 n) {index : Nat} (h : index / 8 < n) :
    (bitmapOps n).get bitmap index = .ok true ↔ test bitmap index = true := by
  show bitmapGet bitmap index = .ok true ↔ _
  rw [bitmapGet_of_lt h, Except.ok.injEq]

theorem bitmapOps_isSet (n : Nat) : (bitmapOps n).IsSet where
  get bitmap index h := ⟨_, bitmapGet_of_lt h bitmap⟩
  set bitmap index h := by
    obtain ⟨bitmap', hset, hframe, htest⟩ := bitmapSet_of_lt h bitmap
    refine ⟨bitmap', hset, ⟨hframe, rfl⟩, fun j hj => ?_⟩
    rw [bitmapOps_get_iff _ hj, bitmapOps_get_iff _ hj, htest, Bool.or_eq_true, decide_eq_true_iff]
  clear bitmap index h := by
    obtain ⟨bitmap', hclear, hframe, htest⟩ := bitmapClear_of_lt h bitmap
    refine ⟨bitmap', hclear, ⟨hframe, rfl⟩, fun j hj => ?_⟩
    rw [bitmapOps_get_iff _ hj, bitmapOps_get_iff _ hj, htest, Bool.and_eq_true,
      Bool.not_eq_true', decide_eq_false_iff_not]

end Pmm

/-! ## `main.c` -/

namespace Ppa

/-- `eX_PageIsUsed`, `eX_PageSet` and `eX_PageClear` on the `n` bytes behind `eX_PageBitmap`. -/
def pageOps (n : Nat) : Ops Stop State UInt64 UInt64 UInt8 where
  InRange page := page.toNat / 8 < n
  get s page := .ok (pageIsUsed page s).1
  set s page := .ok (pageSet page s)
  clear s page := .ok (pageClear page s)
  cell s page := s.pageBitmap + page / 8
  content := State.memory

variable {n : Nat}

theorem pageOps_get_iff (s : State) (page : UInt64) :
    (pageOps n).get s page = .ok true ↔ s.used page = true := by
  show Except.ok (s.used page) = .ok true ↔ _
  rw [Except.ok.injEq]

theorem onlyCell_store (s : State) (page : UInt64) (b : UInt8) :
    (pageOps n).OnlyCell page s (s.store (page / 8) b) where
  content _ hk := Function.update_of_ne hk _ _
  cell := rfl

theorem pageOps_isSet (n : Nat) : (pageOps n).IsSet where
  get s page _ := ⟨_, rfl⟩
  set s page _ := by
    refine ⟨pageSet page s, rfl, onlyCell_store s page _, fun j _ => ?_⟩
    rw [pageOps_get_iff, pageOps_get_iff, used_pageSet, Bool.or_eq_true, decide_eq_true_iff]
  clear s page _ := by
    refine ⟨pageClear page s, rfl, onlyCell_store s page _, fun j _ => ?_⟩
    rw [pageOps_get_iff, pageOps_get_iff, used_pageClear, Bool.and_eq_true, Bool.not_eq_true',
      decide_eq_false_iff_not]

end Ppa

/-- Whatever the bytes are, one operation and every sequence of them does to the bitmap what
insertions and removals do to a set of page numbers. -/
theorem bitmaps_are_sets (n : Nat) :
    ((Pmm.bitmapOps n).IsSet ∧ (Pmm.bitmapOps n).Follows) ∧
      ((Ppa.pageOps n).IsSet ∧ (Ppa.pageOps n).Follows) :=
  ⟨⟨Pmm.bitmapOps_isSet n, (Pmm.bitmapOps_isSet n).follows⟩,
    ⟨Ppa.pageOps_isSet n, (Ppa.pageOps_isSet n).follows⟩⟩

end EyaX
