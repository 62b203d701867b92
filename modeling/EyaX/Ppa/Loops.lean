import EyaX.Ppa.Basic
import Mathlib.Data.Finset.Card

/-!
# The loops of `eX_PPA_Init`

What each loop does to the bitmap as a set of frames and to `eX_FreePageCount`, whatever memory map
its frames come from. The filling sets every bit; the loop over the usable frames clears bits and
counts each turn, which is right only because no frame comes twice; the loop over the bitmap's own
frames asks first, so it may find a frame used already.
-/

namespace EyaX.Ppa

variable {s s' : State} {size : UInt64}

/-! ## Only the bitmap is touched -/

/-- From `s` to `s'` nothing but the first `size` bytes of the bitmap was read or written, and the
bitmap stayed where it is. -/
structure Within (size : UInt64) (s s' : State) : Prop where
  pageBitmap : s'.pageBitmap = s.pageBitmap
  pageCount : s'.pageCount = s.pageCount
  touched : ∃ l, s'.touched = s.touched ++ l ∧ ∀ i ∈ l, i < size
  memory : ∀ a, (∀ i, i < size → a ≠ s.pageBitmap + i) → s'.memory a = s.memory a

theorem Within.refl (size : UInt64) (s : State) : Within size s s where
  pageBitmap := rfl
  pageCount := rfl
  touched := ⟨[], by simp⟩
  memory := fun _ _ => rfl

theorem Within.trans {s'' : State} (h : Within size s s') (h' : Within size s' s'') :
    Within size s s'' where
  pageBitmap := h'.pageBitmap.trans h.pageBitmap
  pageCount := h'.pageCount.trans h.pageCount
  touched := by
    obtain ⟨l, hl, hlt⟩ := h.touched
    obtain ⟨l', hl', hlt'⟩ := h'.touched
    refine ⟨l ++ l', by rw [hl', hl, List.append_assoc], fun i hi => ?_⟩
    rcases List.mem_append.mp hi with hi | hi
    · exact hlt i hi
    · exact hlt' i hi
  memory := fun a ha => by
    rw [h'.memory a (by rw [h.pageBitmap]; exact ha), h.memory a ha]

theorem Within.touch (s : State) {i : UInt64} (hi : i < size) : Within size s (s.touch i) where
  pageBitmap := rfl
  pageCount := rfl
  touched := ⟨[i], rfl, by simpa using hi⟩
  memory := fun _ _ => rfl

theorem Within.store (s : State) {i : UInt64} (hi : i < size) (b : UInt8) :
    Within size s (s.store i b) where
  pageBitmap := rfl
  pageCount := rfl
  touched := ⟨[i], rfl, by simpa using hi⟩
  memory := fun a ha => Function.update_of_ne (ha i hi) _ _

theorem Within.count (h : Within size s s') (c : UInt64) :
    Within size s { s' with freePageCount := c } :=
  ⟨h.pageBitmap, h.pageCount, h.touched, h.memory⟩

theorem Within.foldl {α : Type} {f : State → α → State} (l : List α)
    (hf : ∀ a ∈ l, ∀ s, Within size s (f s a)) (s : State) : Within size s (l.foldl f s) :=
  List.foldlRecOn (motive := fun s' => Within size s s') l f (Within.refl size s)
    fun s' h a ha => h.trans (hf a ha s')

/-! ## The frames of a loop -/

theorem mem_pages {first last page : UInt64} :
    page ∈ pages first last ↔ first.toNat ≤ page.toNat ∧ page.toNat < last.toNat := by
  have hlast := last.toNat_lt
  simp only [pages, List.mem_map, List.mem_range'_1]
  constructor
  · rintro ⟨p, ⟨hlo, hhi⟩, rfl⟩
    rw [toNat_ofNat (by omega)]
    omega
  · rintro ⟨hlo, hhi⟩
    exact ⟨page.toNat, by omega, UInt64.ofNat_toNat⟩

theorem nodup_pages (first last : UInt64) : (pages first last).Nodup := by
  have hlast := last.toNat_lt
  refine List.Nodup.map_on ?_ List.nodup_range'
  intro p hp q hq h
  rw [List.mem_range'_1] at hp hq
  have htoNat := congrArg UInt64.toNat h
  rwa [toNat_ofNat (by omega), toNat_ofNat (by omega)] at htoNat

/-! ## `eX_FreePageCount` -/

/-- The clear bits below `eX_PageCount`. -/
def freePages (s : State) : Finset Nat :=
  (Finset.range s.pageCount.toNat).filter fun p => s.used (UInt64.ofNat p) = false

/-- The counter is the number of clear bits. -/
def Counted (s : State) : Prop := s.freePageCount.toNat = (freePages s).card

theorem mem_freePages {p : Nat} :
    p ∈ freePages s ↔ p < s.pageCount.toNat ∧ s.used (UInt64.ofNat p) = false := by
  simp [freePages]

theorem ofNat_eq_iff {p : Nat} {page : UInt64} (hp : p < 2 ^ 64) :
    UInt64.ofNat p = page ↔ p = page.toNat := by
  rw [← UInt64.toNat_inj, toNat_ofNat hp]

theorem freePages_clear {page : UInt64} (hpage : page.toNat < s.pageCount.toNat)
    (hcount : s'.pageCount = s.pageCount)
    (hused : ∀ j, s'.used j = (!decide (j = page) && s.used j)) :
    freePages s' = insert page.toNat (freePages s) := by
  have hlt := s.pageCount.toNat_lt
  ext p
  rw [Finset.mem_insert, mem_freePages, mem_freePages, hcount, hused]
  constructor
  · intro ⟨hp, h⟩
    by_cases he : p = page.toNat
    · exact Or.inl he
    · rw [decide_eq_false (fun h => he ((ofNat_eq_iff (by omega)).mp h))] at h
      exact Or.inr ⟨hp, h⟩
  · rintro (rfl | ⟨hp, h⟩)
    · exact ⟨hpage, by simp⟩
    · exact ⟨hp, by simp [h]⟩

theorem freePages_set {page : UInt64} (hcount : s'.pageCount = s.pageCount)
    (hused : ∀ j, s'.used j = (decide (j = page) || s.used j)) :
    freePages s' = (freePages s).erase page.toNat := by
  have hlt := s.pageCount.toNat_lt
  ext p
  rw [Finset.mem_erase, mem_freePages, mem_freePages, hcount, hused]
  constructor
  · intro ⟨hp, h⟩
    obtain ⟨hne, hfree⟩ := Bool.or_eq_false_iff.mp h
    refine ⟨fun he => of_decide_eq_false hne ?_, hp, hfree⟩
    exact (ofNat_eq_iff (by omega)).mpr he
  · intro ⟨hne, hp, hfree⟩
    refine ⟨hp, Bool.or_eq_false_iff.mpr ⟨decide_eq_false fun he => hne ?_, hfree⟩⟩
    exact (ofNat_eq_iff (by omega)).mp he

theorem card_freePages_le (s : State) : (freePages s).card ≤ s.pageCount.toNat := by
  refine (Finset.card_filter_le _ _).trans ?_
  rw [Finset.card_range]

/-! ## The loop over the usable frames -/

theorem freePage_spec {page : UInt64} (hused : s.used page = true)
    (hpage : page.toNat < s.pageCount.toNat) (hc : Counted s) :
    Counted (freePage s page) ∧ ∀ j, (freePage s page).used j = (!decide (j = page) && s.used j) := by
  have hbits : ∀ j, (freePage s page).used j = (!decide (j = page) && s.used j) :=
    used_pageClear s page
  have hfree : freePages (freePage s page) = insert page.toNat (freePages s) :=
    freePages_clear hpage rfl hbits
  have hnew : page.toNat ∉ freePages s := by
    rw [mem_freePages, UInt64.ofNat_toNat, hused]
    simp
  have hcard : (freePages (freePage s page)).card = (freePages s).card + 1 := by
    rw [hfree, Finset.card_insert_of_notMem hnew]
  have hle := card_freePages_le (freePage s page)
  have hlt := (freePage s page).pageCount.toNat_lt
  rw [Counted] at hc
  refine ⟨?_, hbits⟩
  rw [Counted, hcard]
  show (s.freePageCount + 1).toNat = _
  rw [toNat_succ (by omega), hc]

/-- The loop clears the bits of its frames; since no frame comes twice, it counts each once. -/
theorem freeLoop_spec (l : List UInt64) : ∀ s, l.Nodup →
    (∀ page ∈ l, s.used page = true ∧ page.toNat < s.pageCount.toNat) → Counted s →
    Counted (l.foldl freePage s) ∧
      ∀ j, (l.foldl freePage s).used j = (!decide (j ∈ l) && s.used j) := by
  induction l with
  | nil =>
    intro s _ _ hc
    exact ⟨hc, by simp⟩
  | cons page l ih =>
    intro s hnodup hl hc
    obtain ⟨hnotMem, hnodup⟩ := List.nodup_cons.mp hnodup
    obtain ⟨hused, hpage⟩ := hl page List.mem_cons_self
    obtain ⟨hc', hbits⟩ := freePage_spec hused hpage hc
    have hrest : ∀ q ∈ l, (freePage s page).used q = true ∧
        q.toNat < (freePage s page).pageCount.toNat := by
      intro q hq
      obtain ⟨hq', hlt⟩ := hl q (List.mem_cons_of_mem page hq)
      have hne : q ≠ page := fun he => hnotMem (he ▸ hq)
      exact ⟨by simp [hbits, hne, hq'], hlt⟩
    obtain ⟨hc'', hbits'⟩ := ih (freePage s page) hnodup hrest hc'
    refine ⟨hc'', fun j => ?_⟩
    rw [List.foldl_cons, hbits', hbits]
    simp [List.mem_cons, Bool.and_left_comm, Bool.and_assoc]

theorem within_freePage {page : UInt64} (hpage : page / 8 < size) (s : State) :
    Within size s (freePage s page) :=
  (Within.store s hpage _).count _

/-! ## The loop over the bitmap's own frames -/

theorem reservePage_of_used {page : UInt64} (h : s.used page = true) :
    reservePage s page = s.touch (page / 8) := by
  rw [reservePage, pageIsUsed, h]
  rfl

theorem reservePage_of_free {page : UInt64} (h : s.used page = false) :
    reservePage s page =
      { pageSet page (s.touch (page / 8)) with freePageCount := s.freePageCount - 1 } := by
  rw [reservePage, pageIsUsed, h]
  rfl

theorem pageCount_reservePage (s : State) (page : UInt64) :
    (reservePage s page).pageCount = s.pageCount := by
  cases h : s.used page with
  | true =>
    rw [reservePage_of_used h]
    rfl
  | false =>
    rw [reservePage_of_free h]
    rfl

theorem used_reservePage (s : State) (page j : UInt64) :
    (reservePage s page).used j = (decide (j = page) || s.used j) := by
  cases h : s.used page with
  | true =>
    rw [reservePage_of_used h, used_touch]
    by_cases hj : j = page
    · rw [hj, h, Bool.or_true]
    · rw [decide_eq_false hj, Bool.false_or]
  | false =>
    rw [reservePage_of_free h]
    exact used_pageSet (s.touch (page / 8)) page j

theorem within_reservePage {page : UInt64} (hpage : page / 8 < size) (s : State) :
    Within size s (reservePage s page) := by
  have htouch := Within.touch s hpage
  cases h : s.used page with
  | true =>
    rw [reservePage_of_used h]
    exact htouch
  | false =>
    rw [reservePage_of_free h]
    exact (htouch.trans (Within.store _ hpage _)).count _

theorem Counted.reservePage (hc : Counted s) {page : UInt64}
    (hpage : page.toNat < s.pageCount.toNat) : Counted (Ppa.reservePage s page) := by
  cases h : s.used page with
  | true =>
    rw [reservePage_of_used h]
    exact hc
  | false =>
    have hmem : page.toNat ∈ freePages s := by
      rw [mem_freePages, UInt64.ofNat_toNat]
      exact ⟨hpage, h⟩
    have hpos := Finset.card_pos.mpr ⟨_, hmem⟩
    have hfree := freePages_set (pageCount_reservePage s page) (used_reservePage s page)
    have hpred : (Ppa.reservePage s page).freePageCount = s.freePageCount - 1 := by
      rw [reservePage_of_free h]
    rw [Counted] at hc
    rw [Counted, hfree, Finset.card_erase_of_mem hmem, hpred, toNat_pred (by omega), hc]

/-- The loop sets the bits of its frames and keeps the counter right, whatever was set before. -/
theorem reserveLoop_spec (l : List UInt64) : ∀ s,
    (∀ page ∈ l, page.toNat < s.pageCount.toNat) → Counted s →
    Counted (l.foldl reservePage s) ∧
      ∀ j, (l.foldl reservePage s).used j = (decide (j ∈ l) || s.used j) := by
  induction l with
  | nil =>
    intro s _ hc
    exact ⟨hc, by simp⟩
  | cons page l ih =>
    intro s hl hc
    have hrest : ∀ q ∈ l, q.toNat < (reservePage s page).pageCount.toNat := by
      intro q hq
      rw [pageCount_reservePage]
      exact hl q (List.mem_cons_of_mem page hq)
    obtain ⟨hc', hbits⟩ := ih _ hrest (hc.reservePage (hl page List.mem_cons_self))
    refine ⟨hc', fun j => ?_⟩
    rw [List.foldl_cons, hbits, used_reservePage]
    simp [List.mem_cons, Bool.or_left_comm, Bool.or_assoc]

/-! ## Filling -/

theorem byte_fill (l : List Nat) (i : UInt64) : ∀ s : State,
    (l.foldl (fun s n => s.store (UInt64.ofNat n) 0xFF) s).byte i =
      if i ∈ l.map UInt64.ofNat then 0xFF else s.byte i := by
  induction l with
  | nil => exact fun s => rfl
  | cons n l ih =>
    intro s
    rw [List.foldl_cons, ih, byte_store]
    by_cases hi : i = UInt64.ofNat n
    · simp [hi]
    · simp [hi]

theorem used_fillBitmap (s : State) {page : UInt64} (hpage : page / 8 < size) :
    (fillBitmap size s).used page = true := by
  have hsize := size.toNat_lt
  have hmem : page / 8 ∈ (List.range size.toNat).map UInt64.ofNat := by
    rw [List.mem_map]
    exact ⟨(page / 8).toNat, List.mem_range.mpr (UInt64.lt_iff_toNat_lt.mp hpage),
      UInt64.ofNat_toNat⟩
  rw [used_eq, fillBitmap, byte_fill, if_pos hmem]
  exact ByteSet.getLsbD_ones (Nat.mod_lt _ (by decide))

theorem within_fillBitmap (size : UInt64) (s : State) : Within size s (fillBitmap size s) := by
  have hsize := size.toNat_lt
  apply Within.foldl
  intro n hn s
  rw [List.mem_range] at hn
  apply Within.store
  rw [UInt64.lt_iff_toNat_lt, toNat_ofNat (by omega)]
  exact hn

end EyaX.Ppa
