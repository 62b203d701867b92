import EyaX.Base
import EyaX.Lib.Copy
import Mathlib.Data.List.Pairwise

/-!
# The memory functions of `main.c`

The compiler may call these functions on its own, so they have to do what the C standard says.
`memcpy` copies upwards whatever the regions are; `memmove` copies upwards or downwards, away from
the bytes that it has still to read, and so copies also where the regions overlap. `memset` fills a
region, `memcmp` compares two in the order of their first difference. The memory is a byte for every
address, and addresses wrap as they do in C.
-/

namespace EyaX.Kernel

open Copy (InOrder moves)

/-- `pdest[i] = psrc[i]`. -/
def copyByte (dest src : UInt64) (memory : UInt64 → UInt8) (i : Nat) : UInt64 → UInt8 :=
  Function.update memory (dest + UInt64.ofNat i) (memory (src + UInt64.ofNat i))

def memcpy (dest src n : UInt64) (memory : UInt64 → UInt8) : UInt64 × (UInt64 → UInt8) :=
  (dest, (List.range n.toNat).foldl (copyByte dest src) memory)

def memmove (dest src n : UInt64) (memory : UInt64 → UInt8) : UInt64 × (UInt64 → UInt8) :=
  if src > dest then (dest, (List.range n.toNat).foldl (copyByte dest src) memory)
  else if src < dest then
    -- the source counts from `n` down to 1 and copies byte `i - 1`
    (dest, (List.range n.toNat).reverse.foldl (copyByte dest src) memory)
  else (dest, memory)

def memset (s : UInt64) (c : Int32) (n : UInt64) (memory : UInt64 → UInt8) :
    UInt64 × (UInt64 → UInt8) :=
  (s, (List.range n.toNat).foldl
    (fun memory i => Function.update memory (s + UInt64.ofNat i) c.toUInt32.toUInt8) memory)

/-- The loop of `memcmp` over the indices that are left. -/
def memcmpLoop (s1 s2 : UInt64) (memory : UInt64 → UInt8) : List Nat → Int
  | [] => 0
  | i :: rest =>
    if memory (s1 + UInt64.ofNat i) ≠ memory (s2 + UInt64.ofNat i) then
      if memory (s1 + UInt64.ofNat i) < memory (s2 + UInt64.ofNat i) then -1 else 1
    else memcmpLoop s1 s2 memory rest

def memcmp (s1 s2 n : UInt64) (memory : UInt64 → UInt8) : Int :=
  memcmpLoop s1 s2 memory (List.range n.toNat)

/-! ## Loops as moves -/

/-- What the turns of a loop over the indices `l` move. -/
def turns (dest src : UInt64) (l : List Nat) : List (UInt64 × UInt64) :=
  l.map fun i => (dest + UInt64.ofNat i, src + UInt64.ofNat i)

theorem foldl_copyByte (dest src : UInt64) (l : List Nat) (memory : UInt64 → UInt8) :
    l.foldl (copyByte dest src) memory = moves (turns dest src l) memory := by
  rw [moves, turns, List.foldl_map]
  rfl

theorem toNat_address {base n : UInt64} {i : Nat} (h : base.toNat + n.toNat ≤ 2 ^ 64)
    (hi : i < n.toNat) : (base + UInt64.ofNat i).toNat = base.toNat + i := by
  have hi' : (UInt64.ofNat i).toNat = i := toNat_ofNat (by omega)
  rw [toNat_add (by omega), hi']

theorem address_ne {a b : UInt64} (h : a.toNat ≠ b.toNat) : a ≠ b := fun he => h (he ▸ rfl)

/-- The memory after a copy of `n` bytes. -/
structure Copied (dest src n : UInt64) (before after : UInt64 → UInt8) : Prop where
  copied : ∀ i < n, after (dest + i) = before (src + i)
  frame : ∀ a : UInt64, ¬ (dest.toNat ≤ a.toNat ∧ a.toNat < dest.toNat + n.toNat) →
    after a = before a

section Regions

variable {dest src n : UInt64} (hdest : dest.toNat + n.toNat ≤ 2 ^ 64)
  (hsrc : src.toNat + n.toNat ≤ 2 ^ 64)

include hdest

/-- A loop that goes once over the indices below `n`, in whatever order is safe, copies. -/
theorem copied_of_inOrder {l : List Nat} (hl : ∀ i, i ∈ l ↔ i < n.toNat)
    (horder : InOrder (turns dest src l)) (memory : UInt64 → UInt8) :
    Copied dest src n memory (l.foldl (copyByte dest src) memory) := by
  rw [foldl_copyByte]
  constructor
  · intro i hi
    have hturn : (dest + i, src + i) ∈ turns dest src l := by
      refine List.mem_map.mpr ⟨i.toNat, (hl _).mpr (UInt64.lt_iff_toNat_lt.mp hi), ?_⟩
      rw [UInt64.ofNat_toNat]
    exact horder.moves_eq memory _ hturn
  · intro a ha
    apply Copy.moves_of_ne
    intro p hp
    obtain ⟨i, hi, rfl⟩ := List.mem_map.mp hp
    have hi' := (hl i).mp hi
    apply address_ne
    rw [toNat_address hdest hi']
    omega

include hsrc

theorem inOrder_turns {l : List Nat} (hl : ∀ i ∈ l, i < n.toNat)
    (h : l.Pairwise fun i j => i ≠ j ∧ dest.toNat + i ≠ src.toNat + j) :
    InOrder (turns dest src l) := by
  refine List.pairwise_map.mpr (h.imp_of_mem ?_)
  rintro i j hi hj ⟨hne, hread⟩
  constructor
  · apply address_ne
    rwa [toNat_address hdest (hl i hi), toNat_address hsrc (hl j hj)]
  · apply address_ne
    rw [toNat_address hdest (hl i hi), toNat_address hdest (hl j hj)]
    omega

theorem copied_upwards (h : dest.toNat ≤ src.toNat ∨ src.toNat + n.toNat ≤ dest.toNat)
    (memory : UInt64 → UInt8) :
    Copied dest src n memory ((List.range n.toNat).foldl (copyByte dest src) memory) := by
  refine copied_of_inOrder hdest (fun i => List.mem_range)
    (inOrder_turns hdest hsrc (fun i => List.mem_range.mp) ?_) memory
  refine List.pairwise_lt_range.imp_of_mem ?_
  intro i j _ hj hij
  have hj' := List.mem_range.mp hj
  omega

theorem copied_downwards (h : src.toNat ≤ dest.toNat) (memory : UInt64 → UInt8) :
    Copied dest src n memory ((List.range n.toNat).reverse.foldl (copyByte dest src) memory) := by
  refine copied_of_inOrder hdest (fun i => ?_) (inOrder_turns hdest hsrc (fun i hi => ?_) ?_) memory
  · rw [List.mem_reverse, List.mem_range]
  · rwa [List.mem_reverse, List.mem_range] at hi
  · refine List.pairwise_reverse.mpr (List.pairwise_lt_range.imp ?_)
    intro i j hij
    omega

/-- `memcpy` copies between regions that do not overlap, which is all that `restrict` admits. -/
theorem memcpy_copied (h : dest.toNat + n.toNat ≤ src.toNat ∨ src.toNat + n.toNat ≤ dest.toNat)
    (memory : UInt64 → UInt8) : Copied dest src n memory (memcpy dest src n memory).2 :=
  copied_upwards hdest hsrc (by omega) memory

/-- `memmove` returns its destination and copies between any two regions. -/
theorem memmove_copied (memory : UInt64 → UInt8) :
    (memmove dest src n memory).1 = dest ∧
      Copied dest src n memory (memmove dest src n memory).2 := by
  unfold memmove
  by_cases hup : src > dest
  · rw [if_pos hup]
    have hle : dest.toNat ≤ src.toNat := Nat.le_of_lt (UInt64.lt_iff_toNat_lt.mp hup)
    exact ⟨rfl, copied_upwards hdest hsrc (.inl hle) memory⟩
  rw [if_neg hup]
  by_cases hdown : src < dest
  · rw [if_pos hdown]
    have hle : src.toNat ≤ dest.toNat := Nat.le_of_lt (UInt64.lt_iff_toNat_lt.mp hdown)
    exact ⟨rfl, copied_downwards hdest hsrc hle memory⟩
  · -- neither above nor below: every byte is its own copy
    rw [if_neg hdown]
    obtain rfl : dest = src :=
      UInt64.le_antisymm (UInt64.not_lt.mp hdown) (UInt64.not_lt.mp hup)
    exact ⟨rfl, fun i _ => rfl, fun a _ => rfl⟩

end Regions

theorem memmove_copied_overlap :
    (memmove 2 0 4 UInt64.toUInt8).1 = 2 ∧
      Copied 2 0 4 UInt64.toUInt8 (memmove 2 0 4 UInt64.toUInt8).2 :=
  memmove_copied (by decide) (by decide) UInt64.toUInt8

/-! ## `memset` and `memcmp` -/

/-- The addresses of the `n` bytes from `s` on. -/
def addresses (s n : UInt64) : List UInt64 := (List.range n.toNat).map fun i => s + UInt64.ofNat i

theorem mem_addresses {s n a : UInt64} (h : s.toNat + n.toNat ≤ 2 ^ 64) :
    a ∈ addresses s n ↔ s.toNat ≤ a.toNat ∧ a.toNat < s.toNat + n.toNat := by
  rw [addresses, List.mem_map]
  constructor
  · rintro ⟨i, hi, rfl⟩
    rw [List.mem_range] at hi
    rw [toNat_address h hi]
    omega
  · rintro ⟨hlo, hhi⟩
    have hi : a.toNat - s.toNat < n.toNat := by omega
    refine ⟨_, List.mem_range.mpr hi, UInt64.toNat_inj.mp ?_⟩
    rw [toNat_address h hi]
    omega

theorem memset_apply {s n : UInt64} (h : s.toNat + n.toNat ≤ 2 ^ 64) (c : Int32)
    (memory : UInt64 → UInt8) (a : UInt64) :
    (memset s c n memory).2 a =
      if s.toNat ≤ a.toNat ∧ a.toNat < s.toNat + n.toNat then c.toUInt32.toUInt8 else memory a := by
  have hfill : (memset s c n memory).2 = Copy.fill (addresses s n) c.toUInt32.toUInt8 memory := by
    rw [Copy.fill, addresses, List.foldl_map]
    rfl
  rw [hfill, Copy.fill_apply]
  simp only [mem_addresses h]

/-- The bytes of a region. -/
def region (memory : UInt64 → UInt8) (s n : UInt64) : List UInt8 := (addresses s n).map memory

section Compare

variable (s1 s2 : UInt64) (memory : UInt64 → UInt8)

theorem memcmpLoop_iff (l : List Nat) :
    (memcmpLoop s1 s2 memory l = 0 ↔
      l.map (fun i => memory (s1 + UInt64.ofNat i)) = l.map fun i => memory (s2 + UInt64.ofNat i)) ∧
      (memcmpLoop s1 s2 memory l < 0 ↔
        l.map (fun i => memory (s1 + UInt64.ofNat i)) <
          l.map fun i => memory (s2 + UInt64.ofNat i)) := by
  induction l with
  | nil => simp [memcmpLoop]
  | cons i l ih =>
    obtain ⟨hzero, hneg⟩ := ih
    simp only [memcmpLoop, List.map_cons, List.cons_lt_cons_iff, List.cons.injEq]
    by_cases heq : memory (s1 + UInt64.ofNat i) = memory (s2 + UInt64.ofNat i)
    · -- equal bytes leave the answer to the rest
      rw [if_neg (not_not_intro heq), heq]
      simp only [true_and, UInt8.lt_irrefl, false_or]
      exact ⟨hzero, hneg⟩
    · rw [if_pos heq]
      by_cases hlt : memory (s1 + UInt64.ofNat i) < memory (s2 + UInt64.ofNat i)
      · simp [heq, hlt]
      · simp [heq, hlt]

theorem region_eq (s n : UInt64) :
    region memory s n = (List.range n.toNat).map fun i => memory (s + UInt64.ofNat i) := by
  rw [region, addresses, List.map_map]
  rfl

theorem memcmp_eq_zero_iff (n : UInt64) :
    memcmp s1 s2 n memory = 0 ↔ region memory s1 n = region memory s2 n := by
  rw [region_eq, region_eq]
  exact (memcmpLoop_iff s1 s2 memory _).1

theorem memcmp_neg_iff (n : UInt64) :
    memcmp s1 s2 n memory < 0 ↔ region memory s1 n < region memory s2 n := by
  rw [region_eq, region_eq]
  exact (memcmpLoop_iff s1 s2 memory _).2

theorem memcmpLoop_swap (l : List Nat) :
    memcmpLoop s2 s1 memory l = -memcmpLoop s1 s2 memory l := by
  induction l with
  | nil => rfl
  | cons i l ih =>
    simp only [memcmpLoop]
    by_cases heq : memory (s1 + UInt64.ofNat i) = memory (s2 + UInt64.ofNat i)
    · rw [if_neg (not_not_intro heq), if_neg (not_not_intro heq.symm), ih]
    rw [if_pos heq, if_pos (Ne.symm heq)]
    by_cases hlt : memory (s1 + UInt64.ofNat i) < memory (s2 + UInt64.ofNat i)
    · rw [if_pos hlt, if_neg (UInt8.lt_asymm hlt)]
      rfl
    · have hgt := UInt8.lt_of_le_of_ne (UInt8.not_lt.mp hlt) (Ne.symm heq)
      rw [if_neg hlt, if_pos hgt]

theorem memcmpLoop_sign (l : List Nat) : memcmpLoop s1 s2 memory l = -1 ∨
    memcmpLoop s1 s2 memory l = 0 ∨ memcmpLoop s1 s2 memory l = 1 := by
  induction l with
  | nil => exact .inr (.inl rfl)
  | cons i l ih =>
    simp only [memcmpLoop]
    split_ifs
    · exact .inl rfl
    · exact .inr (.inr rfl)
    · exact ih

end Compare

/-- `memcmp` gives the order of the two regions in a dictionary as -1, 0 or 1, so it changes its
sign with its arguments, and "not above" is transitive. -/
theorem memcmp_orders (memory : UInt64 → UInt8) (n : UInt64) :
    (∀ s1 s2, (memcmp s1 s2 n memory = -1 ↔ region memory s1 n < region memory s2 n) ∧
      (memcmp s1 s2 n memory = 0 ↔ region memory s1 n = region memory s2 n) ∧
      (memcmp s1 s2 n memory = 1 ↔ region memory s2 n < region memory s1 n)) ∧
      (∀ s1 s2, memcmp s2 s1 n memory = -memcmp s1 s2 n memory) ∧
      ∀ s1 s2 s3, memcmp s1 s2 n memory ≤ 0 → memcmp s2 s3 n memory ≤ 0 →
        memcmp s1 s3 n memory ≤ 0 := by
  have hswap : ∀ s1 s2, memcmp s2 s1 n memory = -memcmp s1 s2 n memory :=
    fun s1 s2 => memcmpLoop_swap s1 s2 memory _
  refine ⟨fun s1 s2 => ?_, hswap, fun s1 s2 s3 h12 h23 => ?_⟩
  · have hsign : memcmp s1 s2 n memory = -1 ∨ memcmp s1 s2 n memory = 0 ∨
        memcmp s1 s2 n memory = 1 := memcmpLoop_sign s1 s2 memory _
    rw [← memcmp_neg_iff, ← memcmp_eq_zero_iff, ← memcmp_neg_iff, hswap s1 s2]
    omega
  · rw [Int.le_iff_lt_or_eq, memcmp_neg_iff, memcmp_eq_zero_iff] at h12 h23 ⊢
    rcases h12 with h12 | h12
    · rcases h23 with h23 | h23
      · exact .inl (List.lt_trans h12 h23)
      · exact .inl (h23 ▸ h12)
    · rw [h12]
      exact h23

end EyaX.Kernel
