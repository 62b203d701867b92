import EyaX.Lib.Fold
import EyaX.Pmm.Basic
import Mathlib.Tactic.SplitIfs

/-!
# What `pmm_init` leaves behind

The usable bitmap is exact: bit `p` is set when some usable entry of the map contains frame `p`
whole, in exact arithmetic. The other bitmap stays all ones and the counter stays zero, because the
inner loop clears a frame's bit only under a test of the bit of the entry's number, and every bit it
could test is still set.
-/

namespace EyaX.Pmm

open ByteSet (test)

/-- Frame `p` lies whole inside the usable entry `entry`, in exact arithmetic. -/
def Inside (entry : MemmapEntry) (p : Nat) : Prop :=
  entry.type = limineMemmapUsable ∧ entry.base.toNat ≤ 4096 * p ∧
    4096 * (p + 1) ≤ entry.base.toNat + entry.length.toNat

/-- The frames the inner loop visits for an entry. -/
def entryFrames (entry : MemmapEntry) : List Nat :=
  match entryPages entry with
  | none => []
  | some (first, last) => List.range' first.toNat (last.toNat - first.toNat)

theorem initEntry_eq (s : State) (entry : MemmapEntry) (i : Nat) :
    initEntry s (entry, i) = (entryFrames entry).foldlM (initPage i) s := by
  rw [initEntry, entryFrames]
  cases entryPages entry with
  | none => rfl
  | some range => rfl

/-! ## The frames of an entry -/

theorem entryEnd_toNat (base length : UInt64) (hbase : base.toNat < 2 ^ 36) :
    (if length > pmmMaxPhysAddr - base then pmmMaxPhysAddr else base + length).toNat =
      min (2 ^ 36) (base.toNat + length.toNat) := by
  have hle : base ≤ pmmMaxPhysAddr := by
    rw [UInt64.le_iff_toNat_le, pmmMaxPhysAddr_toNat]
    omega
  have hsub : (pmmMaxPhysAddr - base).toNat = 2 ^ 36 - base.toNat := by
    rw [UInt64.toNat_sub_of_le _ _ hle, pmmMaxPhysAddr_toNat]
  split_ifs with h
  · rw [gt_iff_lt, UInt64.lt_iff_toNat_lt, hsub] at h
    rw [pmmMaxPhysAddr_toNat]
    omega
  · rw [gt_iff_lt, UInt64.lt_iff_toNat_lt, hsub] at h
    rw [UInt64.toNat_add]
    omega

theorem entryFirst_toNat (base : UInt64) (hbase : base.toNat < 2 ^ 36) :
    ((base + pmmPageSize - 1) / pmmPageSize).toNat = (base.toNat + 4095) / 4096 := by
  have hadd : (base + pmmPageSize).toNat = base.toNat + 4096 := by
    rw [UInt64.toNat_add, pmmPageSize_toNat]
    omega
  rw [UInt64.toNat_div, toNat_pred (by omega), hadd, pmmPageSize_toNat]
  rfl

theorem mem_entryFrames (entry : MemmapEntry) (p : Nat) :
    p ∈ entryFrames entry ↔ p < 2 ^ 24 ∧ Inside entry p := by
  unfold entryFrames entryPages Inside
  by_cases htype : entry.type = limineMemmapUsable
  · rw [if_neg (not_not_intro htype)]
    by_cases hbase : entry.base ≥ pmmMaxPhysAddr
    · rw [if_pos hbase]
      rw [ge_iff_le, UInt64.le_iff_toNat_le, pmmMaxPhysAddr_toNat] at hbase
      simp only [List.not_mem_nil, false_iff]
      omega
    · rw [if_neg hbase]
      rw [ge_iff_le, UInt64.le_iff_toNat_le, pmmMaxPhysAddr_toNat] at hbase
      have hfirst := entryFirst_toNat entry.base (by omega)
      have hend := entryEnd_toNat entry.base entry.length (by omega)
      have hlast : ((if entry.length > pmmMaxPhysAddr - entry.base then pmmMaxPhysAddr
          else entry.base + entry.length) / pmmPageSize).toNat =
          min (2 ^ 36) (entry.base.toNat + entry.length.toNat) / 4096 := by
        rw [UInt64.toNat_div, hend, pmmPageSize_toNat]
      simp only
      generalize (entry.base + pmmPageSize - 1) / pmmPageSize = first at hfirst ⊢
      generalize (if entry.length > pmmMaxPhysAddr - entry.base then pmmMaxPhysAddr
        else entry.base + entry.length) / pmmPageSize = last at hlast ⊢
      have hclip : ¬ last > pmmMaxPages := by
        rw [gt_iff_lt, UInt64.lt_iff_toNat_lt, pmmMaxPages_toNat]
        omega
      rw [if_neg hclip]
      by_cases hpages : first ≥ pmmMaxPages
      · rw [if_pos hpages]
        rw [ge_iff_le, UInt64.le_iff_toNat_le, pmmMaxPages_toNat] at hpages
        simp only [List.not_mem_nil, false_iff]
        omega
      · rw [if_neg hpages]
        simp only [List.mem_range'_1, htype, true_and]
        omega
  · rw [if_pos htype]
    simp [htype]

/-! ## The loops -/

/-- `pmm_init` has not freed anything yet. -/
def Untouched (s : State) : Prop :=
  s.bitmap = reserved.bitmap ∧ s.availablePages = 0

theorem test_reserved {i : Nat} (h : i < 2 ^ 24) : test reserved.bitmap i = true :=
  ByteSet.test_replicate_ones (inRange_iff.mpr h)

/-- What one turn of the inner loop does while all bits of `pmm_bitmap` are set: the branch that
frees is dead, but its test reads the bit of the entry's number. -/
theorem initPage_spec {i page : Nat} {s s' : State} (hs : Untouched s)
    (h : initPage i s page = .ok s') :
    Untouched s' ∧ (page ≠ 0 → i < 2 ^ 24) ∧
      ∀ j, test s'.usableBitmap j = (decide (j = page) || test s.usableBitmap j) := by
  rw [initPage, Exec.bind_eq_ok] at h
  obtain ⟨usable, husable, h⟩ := h
  have hpage : page < 2 ^ 24 := by
    by_contra hn
    rw [bitmapSet, dif_neg (fun hb => hn (inRange_iff.mp hb))] at husable
    cases husable
  obtain ⟨usable', hset, htest⟩ := bitmapSet_spec s.usableBitmap hpage
  obtain rfl : usable' = usable := Except.ok.inj (hset.symm.trans husable)
  by_cases hzero : page = 0
  · rw [if_pos hzero] at h
    cases h
    exact ⟨hs, fun hne => absurd hzero hne, htest⟩
  · rw [if_neg hzero, Exec.bind_eq_ok] at h
    obtain ⟨b, hb, h⟩ := h
    obtain ⟨hi, rfl⟩ := bitmapGet_eq_ok hb
    have hset : test s.bitmap i = true := by
      rw [hs.1]
      exact test_reserved hi
    simp only [hset] at h
    cases h
    exact ⟨hs, fun _ => hi, htest⟩

theorem initPage_total {i page : Nat} {s : State} (hs : Untouched s) (hi : page ≠ 0 → i < 2 ^ 24)
    (hpage : page < 2 ^ 24) : ∃ s', initPage i s page = .ok s' := by
  obtain ⟨usable, hset, -⟩ := bitmapSet_spec s.usableBitmap hpage
  rw [initPage, hset]
  by_cases hzero : page = 0
  · exact ⟨_, by simp only [Exec.ok_bind, if_pos hzero]; rfl⟩
  · have hb : test s.bitmap i = true := by
      rw [hs.1]
      exact test_reserved (hi hzero)
    exact ⟨_, by simp only [Exec.ok_bind, if_neg hzero, bitmapGet_eq s.bitmap (hi hzero), hb]; rfl⟩

theorem initPages_spec {i : Nat} (pages : List Nat) {s s' : State} (hs : Untouched s)
    (h : pages.foldlM (initPage i) s = .ok s') :
    Untouched s' ∧ (∀ page ∈ pages, page ≠ 0 → i < 2 ^ 24) ∧
      ∀ j, test s'.usableBitmap j = true ↔ j ∈ pages ∨ test s.usableBitmap j = true := by
  have hturn : ∀ s page s', Untouched s → initPage i s page = .ok s' →
      Untouched s' ∧ (page ≠ 0 → i < 2 ^ 24) ∧
        ∀ j, test s'.usableBitmap j = true ↔ j = page ∨ test s.usableBitmap j = true := by
    intro s page s' hs h
    obtain ⟨hs', hi, htest⟩ := initPage_spec hs h
    refine ⟨hs', hi, fun j => ?_⟩
    rw [htest, Bool.or_eq_true, decide_eq_true_eq]
  obtain ⟨hs', hi, htest⟩ := Fold.foldlM_adds hturn pages s s' hs h
  refine ⟨hs', hi, fun j => ?_⟩
  rw [htest, exists_eq_right']

theorem initPages_total {i : Nat} (pages : List Nat) {s : State}
    (hpages : ∀ page ∈ pages, page < 2 ^ 24) (hi : ∀ page ∈ pages, page ≠ 0 → i < 2 ^ 24)
    (hs : Untouched s) : ∃ s', pages.foldlM (initPage i) s = .ok s' := by
  have hturn : ∀ s page, Untouched s → page < 2 ^ 24 ∧ (page ≠ 0 → i < 2 ^ 24) →
      ∃ s', initPage i s page = .ok s' ∧ Untouched s' := by
    intro s page hs hpage
    obtain ⟨s', h'⟩ := initPage_total hs hpage.2 hpage.1
    exact ⟨s', h', (initPage_spec hs h').1⟩
  apply Fold.foldlM_total hturn pages s hs
  exact fun page hmem => ⟨hpages page hmem, hi page hmem⟩

theorem initEntries_spec (entries : List (MemmapEntry × Nat)) {s s' : State} (hs : Untouched s)
    (h : entries.foldlM initEntry s = .ok s') :
    Untouched s' ∧
      (∀ entry ∈ entries, ∀ page ∈ entryFrames entry.1, page ≠ 0 → entry.2 < 2 ^ 24) ∧
      ∀ j, test s'.usableBitmap j = true ↔
        (∃ entry ∈ entries, j ∈ entryFrames entry.1) ∨ test s.usableBitmap j = true := by
  apply Fold.foldlM_adds _ entries s s' hs h
  rintro s ⟨entry, i⟩ s' hs h
  rw [initEntry_eq] at h
  exact initPages_spec (entryFrames entry) hs h

theorem initEntries_total (entries : List (MemmapEntry × Nat)) {s : State}
    (hentries : ∀ entry ∈ entries, ∀ page ∈ entryFrames entry.1, page ≠ 0 → entry.2 < 2 ^ 24)
    (hs : Untouched s) : ∃ s', entries.foldlM initEntry s = .ok s' := by
  apply Fold.foldlM_total _ entries s hs hentries
  rintro s ⟨entry, i⟩ hs hi
  have hframes : ∀ page ∈ entryFrames entry, page < 2 ^ 24 :=
    fun page hpage => ((mem_entryFrames _ _).mp hpage).1
  obtain ⟨s', h'⟩ := initPages_total (entryFrames entry) hframes hi hs
  exact ⟨s', (initEntry_eq s entry i).trans h', (initPages_spec _ hs h').1⟩

/-! ## The state after `pmm_init` -/

/-- The state in which `pmm_init` leaves the allocator for a map: every bit of `pmm_bitmap` set, the
counter zero, and the usable bitmap exact. -/
structure Fresh (entries : List MemmapEntry) (s : State) : Prop where
  initialized : s.initialized = true
  bitmap : s.bitmap = reserved.bitmap
  availablePages : s.availablePages = 0
  usable : ∀ p, test s.usableBitmap p = true ↔ p < 2 ^ 24 ∧ ∃ entry ∈ entries, Inside entry p

theorem pmmInit_fresh {entries : List MemmapEntry} {s s' : State} {b : Bool}
    (h : pmmInit (some ⟨some entries⟩) s = .ok (b, s')) : b = true ∧ Fresh entries s' := by
  simp only [pmmInit, Exec.bind_eq_ok] at h
  obtain ⟨s₁, h₁, h⟩ := h
  cases h
  obtain ⟨hs₁, -, htest⟩ := initEntries_spec entries.zipIdx (s := reserved) ⟨rfl, rfl⟩ h₁
  refine ⟨rfl, rfl, hs₁.1, hs₁.2, fun p => ?_⟩
  have hzero : test reserved.usableBitmap p = false := ByteSet.test_replicate_zero p
  simp only [htest, hzero, Bool.false_eq_true, or_false, mem_entryFrames]
  constructor
  · rintro ⟨entry, hentry, hp, hin⟩
    exact ⟨hp, entry.1, List.fst_mem_of_mem_zipIdx hentry, hin⟩
  · rintro ⟨hp, entry, hentry, hin⟩
    obtain ⟨i, hi, rfl⟩ := List.getElem_of_mem hentry
    exact ⟨(entries[i], i), List.mk_mem_zipIdx_iff_getElem?.mpr (by simp [hi]), hp, hin⟩

theorem pmmInit_true {response : Option MemmapResponse} {s s' : State}
    (h : pmmInit response s = .ok (true, s')) :
    ∃ entries, response = some ⟨some entries⟩ ∧ Fresh entries s' := by
  match response, h with
  | none, h => cases h
  | some ⟨none⟩, h => cases h
  | some ⟨some entries⟩, h => exact ⟨entries, rfl, (pmmInit_fresh h).2⟩

/-- The entries whose position the inner loop uses as an index are inside the bitmap. -/
def PositionsInRange (entries : List MemmapEntry) : Prop :=
  ∀ (i : Nat) (hi : i < entries.length), 2 ^ 24 ≤ i →
    ∀ p, p ≠ 0 → p < 2 ^ 24 → ¬ Inside entries[i] p

theorem positionsInRange_iff (entries : List MemmapEntry) :
    PositionsInRange entries ↔ ∀ entry ∈ entries.zipIdx,
      ∀ page ∈ entryFrames entry.1, page ≠ 0 → entry.2 < 2 ^ 24 := by
  constructor
  · rintro hpos ⟨entry, i⟩ hentry page hpage hne
    obtain ⟨hlt, hin⟩ := (mem_entryFrames _ _).mp hpage
    obtain ⟨hi, rfl⟩ := List.getElem?_eq_some_iff.mp (List.mk_mem_zipIdx_iff_getElem?.mp hentry)
    by_contra hle
    exact hpos i hi (Nat.le_of_not_lt hle) page hne hlt hin
  · intro hall i hi hle p hne hlt hin
    have hentry : (entries[i], i) ∈ entries.zipIdx :=
      List.mk_mem_zipIdx_iff_getElem?.mpr (List.getElem?_eq_getElem hi)
    have hbound := hall _ hentry p ((mem_entryFrames _ _).mpr ⟨hlt, hin⟩) hne
    exact absurd hbound (Nat.not_lt.mpr hle)

/-- `pmm_init` stays inside the bitmaps exactly when the positions it tests do. -/
theorem pmmInit_total_iff (entries : List MemmapEntry) (s : State) :
    (∃ s', pmmInit (some ⟨some entries⟩) s = .ok (true, s')) ↔ PositionsInRange entries := by
  rw [positionsInRange_iff]
  constructor
  · rintro ⟨s', h⟩
    simp only [pmmInit, Exec.bind_eq_ok] at h
    obtain ⟨s₁, h₁, -⟩ := h
    exact (initEntries_spec entries.zipIdx (s := reserved) ⟨rfl, rfl⟩ h₁).2.1
  · intro hall
    obtain ⟨s', h⟩ := initEntries_total entries.zipIdx (s := reserved) hall ⟨rfl, rfl⟩
    exact ⟨{ s' with initialized := true }, by simp only [pmmInit, h]; rfl⟩

theorem pmmInit_total {entries : List MemmapEntry} (hlen : entries.length ≤ 2 ^ 24) (s : State) :
    ∃ s', pmmInit (some ⟨some entries⟩) s = .ok (true, s') :=
  (pmmInit_total_iff entries s).mpr fun _ hi hle => absurd (hi.trans_le hlen) (Nat.not_lt.mpr hle)

end EyaX.Pmm
