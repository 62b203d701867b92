import EyaX.Console.Format
import EyaX.Ppa.Loops
import Mathlib.Order.CompletePartialOrder
import Mathlib.Order.Interval.Set.Disjoint

/-!
# What `eX_PPA_Init` leaves behind

The free map is exact. A frame is cleared when it lies whole inside a usable entry, and since usable
entries are apart no frame is cleared twice. The last loop visits the frames that the bitmap meets.
No loop leaves the bitmap, because its size was computed from the end of the highest entry, and
every frame of an entry or of the bitmap lies below that end.
-/

namespace EyaX.Ppa

open Console (Screen)
open Interrupt (Code)
open Pmm (MemmapEntry limineMemmapUsable)

variable {s s' : State}

/-! ## Maps, frames and the bitmap's own bytes -/

def Usable (entry : MemmapEntry) : Prop := entry.type = limineMemmapUsable

/-- The addresses of an entry, in exact arithmetic. -/
def span (entry : MemmapEntry) : Set Nat :=
  Set.Ico entry.base.toNat (entry.base.toNat + entry.length.toNat)

/-- The addresses of a frame. -/
def frame (page : UInt64) : Set Nat := Set.Ico (4096 * page.toNat) (4096 * (page.toNat + 1))

/-- The addresses of the bitmap. -/
def region (s : State) : Set Nat :=
  Set.Ico s.pageBitmap.toNat (s.pageBitmap.toNat + (pageBitmapSize s).toNat)

/-- What is assumed of the bootloader: usable entries are apart and above the first frame, and no
entry comes within a frame of the end of the address space. -/
structure Regular (entries : List MemmapEntry) : Prop where
  apart : entries.Pairwise fun a b => Usable a → Usable b → Disjoint (span a) (span b)
  above : ∀ entry ∈ entries, Usable entry → 0x1000 ≤ entry.base.toNat
  fits : ∀ entry ∈ entries, entry.base.toNat + entry.length.toNat + 4095 < 2 ^ 64

/-! ## The frames of the map -/

/-- The frames that the third loop clears for an entry. -/
def framesOf (entry : MemmapEntry) : List UInt64 :=
  if entry.type ≠ limineMemmapUsable then []
  else pages ((entry.base + pageSize - 1) / pageSize) ((entry.base + entry.length) / pageSize)

theorem freeEntry_eq (s : State) (entry : MemmapEntry) :
    freeEntry s entry = (framesOf entry).foldl freePage s := by
  rw [freeEntry, framesOf]
  split
  · rfl
  · rfl

theorem roundUp_toNat {a : UInt64} (ha : a.toNat + 4095 < 2 ^ 64) :
    ((a + pageSize - 1) / pageSize).toNat = (a.toNat + 4095) / 4096 := by
  have hsub : a + pageSize - 1 = a + 4095 := by
    rw [UInt64.sub_eq_add_neg, UInt64.add_assoc]
    rfl
  have hadd : (a + 4095).toNat = a.toNat + 4095 := toNat_add ha
  rw [hsub, UInt64.toNat_div, hadd]
  rfl

theorem frame_subset {page : UInt64} {entry : MemmapEntry} :
    frame page ⊆ span entry ↔ entry.base.toNat ≤ 4096 * page.toNat ∧
      4096 * (page.toNat + 1) ≤ entry.base.toNat + entry.length.toNat :=
  Set.Ico_subset_Ico_iff (by omega)

theorem end_toNat {entry : MemmapEntry}
    (hfits : entry.base.toNat + entry.length.toNat + 4095 < 2 ^ 64) :
    (entry.base + entry.length).toNat = entry.base.toNat + entry.length.toNat :=
  toNat_add (by omega)

theorem mem_framesOf {entry : MemmapEntry}
    (hfits : entry.base.toNat + entry.length.toNat + 4095 < 2 ^ 64) {page : UInt64} :
    page ∈ framesOf entry ↔ Usable entry ∧ frame page ⊆ span entry := by
  rw [framesOf, frame_subset, Usable]
  by_cases htype : entry.type = limineMemmapUsable
  · have hlast : ((entry.base + entry.length) / pageSize).toNat =
        (entry.base.toNat + entry.length.toNat) / 4096 := by
      rw [UInt64.toNat_div, end_toNat hfits]
      rfl
    rw [if_neg (not_not_intro htype), mem_pages, roundUp_toNat (by omega), hlast,
      and_iff_right htype]
    omega
  · rw [if_pos htype]
    simp [htype]

theorem nodup_framesOf (entry : MemmapEntry) : (framesOf entry).Nodup := by
  rw [framesOf]
  split
  · exact List.nodup_nil
  · exact nodup_pages _ _

theorem Regular.nodup {entries : List MemmapEntry} (hr : Regular entries) :
    (entries.flatMap framesOf).Nodup := by
  rw [List.nodup_flatMap]
  refine ⟨fun entry _ => nodup_framesOf entry, ?_⟩
  refine hr.apart.imp_of_mem fun {a b} ha hb hdisj page hpa hpb => ?_
  obtain ⟨hua, hsa⟩ := (mem_framesOf (hr.fits a ha)).mp hpa
  obtain ⟨hub, hsb⟩ := (mem_framesOf (hr.fits b hb)).mp hpb
  have hfirst : 4096 * page.toNat ∈ frame page := ⟨le_refl _, by omega⟩
  exact Set.disjoint_left.mp (hdisj hua hub) (hsa hfirst) (hsb hfirst)

/-! ## The size of the bitmap -/

/-- The frames below the end of the highest entry. -/
def frameCount (entries : List MemmapEntry) : UInt64 :=
  (highestAddress entries + pageSize - 1) / pageSize

def bitmapSize (entries : List MemmapEntry) : UInt64 := (frameCount entries + 7) / 8

theorem higherEnd_toNat (highest : UInt64) (entry : MemmapEntry) :
    (higherEnd highest entry).toNat = max highest.toNat (entry.base + entry.length).toNat := by
  simp only [higherEnd, gt_iff_lt, UInt64.lt_iff_toNat_lt]
  split
  · omega
  · omega

theorem le_foldl_higherEnd (l : List MemmapEntry) : ∀ start : UInt64,
    start.toNat ≤ (l.foldl higherEnd start).toNat ∧
      ∀ entry ∈ l, (entry.base + entry.length).toNat ≤ (l.foldl higherEnd start).toNat := by
  induction l with
  | nil => exact fun start => ⟨le_refl _, by simp⟩
  | cons entry l ih =>
    intro start
    obtain ⟨hstart, hends⟩ := ih (higherEnd start entry)
    rw [higherEnd_toNat] at hstart
    refine ⟨by rw [List.foldl_cons]; omega, ?_⟩
    rw [List.forall_mem_cons, List.foldl_cons]
    exact ⟨by omega, hends⟩

variable {entries : List MemmapEntry}

theorem Regular.le_highest (hr : Regular entries) {entry : MemmapEntry} (h : entry ∈ entries) :
    entry.base.toNat + entry.length.toNat ≤ (highestAddress entries).toNat := by
  rw [← end_toNat (hr.fits entry h)]
  exact (le_foldl_higherEnd entries 0).2 entry h

theorem Regular.highest_lt (hr : Regular entries) :
    (highestAddress entries).toNat + 4095 < 2 ^ 64 := by
  have hzero : (0 : UInt64).toNat + 4095 < 2 ^ 64 := by decide
  refine List.foldlRecOn (motive := fun highest => highest.toNat + 4095 < 2 ^ 64) entries higherEnd
    hzero fun highest hhighest entry hentry => ?_
  have hfits := hr.fits entry hentry
  rw [higherEnd_toNat, end_toNat hfits]
  omega

theorem Regular.frameCount_toNat (hr : Regular entries) :
    (frameCount entries).toNat = ((highestAddress entries).toNat + 4095) / 4096 :=
  roundUp_toNat hr.highest_lt

theorem Regular.bitmapSize_toNat (hr : Regular entries) :
    (bitmapSize entries).toNat = ((frameCount entries).toNat + 7) / 8 := by
  have hcount := hr.frameCount_toNat
  have hhighest := hr.highest_lt
  have hadd : (frameCount entries + 7).toNat = (frameCount entries).toNat + 7 := by
    apply toNat_add
    show (frameCount entries).toNat + 7 < 2 ^ 64
    omega
  rw [bitmapSize, UInt64.toNat_div, hadd]
  rfl

theorem Regular.div_lt (hr : Regular entries) {page : UInt64}
    (hpage : page.toNat < (frameCount entries).toNat) : page / 8 < bitmapSize entries := by
  have hdiv : (page / 8).toNat = page.toNat / 8 := UInt64.toNat_div page 8
  rw [UInt64.lt_iff_toNat_lt, hr.bitmapSize_toNat, hdiv]
  omega

theorem Regular.lt_frameCount (hr : Regular entries) {page : UInt64} {entry : MemmapEntry}
    (hentry : entry ∈ entries) (hpage : frame page ⊆ span entry) :
    page.toNat < (frameCount entries).toNat := by
  have hhighest := hr.le_highest hentry
  rw [frame_subset] at hpage
  rw [hr.frameCount_toNat]
  omega

/-! ## The place of the bitmap -/

/-- The second loop finds no place only if every usable entry is too short. -/
theorem placeBitmap_cases (size : UInt64) (entries : List MemmapEntry) :
    (placeBitmap size entries = 0 ∧ ∀ entry ∈ entries, Usable entry → entry.length < size) ∨
      ∃ entry ∈ entries, Usable entry ∧ size ≤ entry.length ∧
        placeBitmap size entries = entry.base := by
  induction entries with
  | nil => exact Or.inl ⟨rfl, by simp⟩
  | cons entry rest ih =>
    rw [placeBitmap]
    by_cases htype : entry.type = limineMemmapUsable
    · rw [if_neg (not_not_intro htype)]
      by_cases hlength : entry.length ≥ size
      · rw [if_pos hlength]
        exact Or.inr ⟨entry, List.mem_cons_self, htype, hlength, rfl⟩
      · rw [if_neg hlength]
        rcases ih with ⟨hnull, hshort⟩ | ⟨found, hmem, h⟩
        · refine Or.inl ⟨hnull, List.forall_mem_cons.mpr ⟨fun _ => ?_, hshort⟩⟩
          exact UInt64.not_le.mp hlength
        · exact Or.inr ⟨found, List.mem_cons_of_mem entry hmem, h⟩
    · rw [if_pos htype]
      rcases ih with ⟨hnull, hshort⟩ | ⟨found, hmem, h⟩
      · exact Or.inl ⟨hnull, List.forall_mem_cons.mpr ⟨fun hu => absurd hu htype, hshort⟩⟩
      · exact Or.inr ⟨found, List.mem_cons_of_mem entry hmem, h⟩

/-! ## The free map -/

/-- `eX_PPA_Init` has gone from `s` to `s'`: the bitmap lies in a usable entry, nothing else was
touched, a frame's bit is clear exactly when a usable entry contains the frame whole and the bitmap
lies elsewhere, and the counter is the number of clear bits. -/
structure FreeMap (entries : List MemmapEntry) (s s' : State) : Prop where
  placed : ∃ entry ∈ entries, Usable entry ∧ entry.base.toNat ≤ s'.pageBitmap.toNat ∧
    s'.pageBitmap.toNat + (pageBitmapSize s').toNat ≤ entry.base.toNat + entry.length.toNat
  touched : ∃ l, s'.touched = s.touched ++ l ∧
    ∀ i ∈ l, 8 * i.toNat + 7 < 8 * (pageBitmapSize s').toNat
  kept : ∀ a : UInt64, a.toNat ∉ region s' → s'.memory a = s.memory a
  bits : ∀ page, page < s'.pageCount → (s'.used page = false ↔
    (∃ entry ∈ entries, Usable entry ∧ frame page ⊆ span entry) ∧
      Disjoint (frame page) (region s'))
  counted : s'.freePageCount.toNat = (freePages s').card

section build

variable {entry : MemmapEntry}

/-- A usable entry that is long enough for the bitmap. -/
structure Roomy (entries : List MemmapEntry) (entry : MemmapEntry) : Prop where
  mem : entry ∈ entries
  usable : Usable entry
  long : bitmapSize entries ≤ entry.length

/-- The state in which the filling begins. -/
def start (entries : List MemmapEntry) (entry : MemmapEntry) (s : State) : State :=
  { s with pageCount := frameCount entries, pageBitmap := entry.base }

/-- The state in which the third loop begins. -/
def filled (entries : List MemmapEntry) (entry : MemmapEntry) (s : State) : State :=
  { fillBitmap (bitmapSize entries) (start entries entry s) with freePageCount := 0 }

/-- The frames of the last loop. -/
def bitmapPages (entries : List MemmapEntry) (entry : MemmapEntry) : List UInt64 :=
  pages (entry.base / pageSize) ((entry.base + bitmapSize entries + pageSize - 1) / pageSize)

theorem within_filled (entries : List MemmapEntry) (entry : MemmapEntry) (s : State) :
    Within (bitmapSize entries) (start entries entry s) (filled entries entry s) :=
  (within_fillBitmap _ _).count 0

theorem Regular.within_freeLoop (hr : Regular entries) (s : State) :
    Within (bitmapSize entries) s ((entries.flatMap framesOf).foldl freePage s) := by
  apply Within.foldl
  intro page hpage s
  obtain ⟨entry, hentry, hmem⟩ := List.mem_flatMap.mp hpage
  have hsubset := ((mem_framesOf (hr.fits entry hentry)).mp hmem).2
  exact within_freePage (hr.div_lt (hr.lt_frameCount hentry hsubset)) s

theorem buildBitmap_eq (hr : Regular entries) (entry : MemmapEntry) (s : State) :
    buildBitmap (bitmapSize entries) entries (start entries entry s) =
      (bitmapPages entries entry).foldl reservePage
        ((entries.flatMap framesOf).foldl freePage (filled entries entry s)) := by
  have hloop : entries.foldl freeEntry (filled entries entry s) =
      (entries.flatMap framesOf).foldl freePage (filled entries entry s) := by
    rw [List.foldl_flatMap]
    congr 1
    funext s entry
    exact freeEntry_eq s entry
  have hbase := ((within_filled entries entry s).trans (hr.within_freeLoop _)).pageBitmap
  rw [← hloop] at hbase ⊢
  show (pages ((entries.foldl freeEntry (filled entries entry s)).pageBitmap / pageSize)
    (((entries.foldl freeEntry (filled entries entry s)).pageBitmap + bitmapSize entries + pageSize -
      1) / pageSize)).foldl reservePage (entries.foldl freeEntry (filled entries entry s)) = _
  rw [hbase]
  rfl

theorem Regular.used_filled (hr : Regular entries) (s : State) {page : UInt64}
    (hpage : page.toNat < (frameCount entries).toNat) :
    (filled entries entry s).used page = true :=
  used_fillBitmap (start entries entry s) (hr.div_lt hpage)

theorem pageCount_filled (entries : List MemmapEntry) (entry : MemmapEntry) (s : State) :
    (filled entries entry s).pageCount = frameCount entries :=
  (within_filled entries entry s).pageCount

theorem Regular.counted_filled (hr : Regular entries) (s : State) :
    Counted (filled entries entry s) := by
  have hlt := (frameCount entries).toNat_lt
  have hnone : freePages (filled entries entry s) = ∅ := by
    apply Finset.eq_empty_of_forall_notMem
    intro p hp
    rw [mem_freePages, pageCount_filled] at hp
    have htoNat : (UInt64.ofNat p).toNat = p := toNat_ofNat (by omega)
    rw [hr.used_filled s (by rw [htoNat]; exact hp.1)] at hp
    cases hp.2
  rw [Counted, hnone]
  rfl

theorem Regular.freeLoop_spec (hr : Regular entries) (entry : MemmapEntry) (s : State) :
    Counted ((entries.flatMap framesOf).foldl freePage (filled entries entry s)) ∧
      ∀ j, ((entries.flatMap framesOf).foldl freePage (filled entries entry s)).used j =
        (!decide (j ∈ entries.flatMap framesOf) && (filled entries entry s).used j) := by
  refine Ppa.freeLoop_spec _ _ hr.nodup (fun page hpage => ?_) (hr.counted_filled s)
  obtain ⟨e, he, hmem⟩ := List.mem_flatMap.mp hpage
  have hlt := hr.lt_frameCount he ((mem_framesOf (hr.fits e he)).mp hmem).2
  rw [pageCount_filled]
  exact ⟨hr.used_filled s hlt, hlt⟩

/-! ### The bitmap's own frames -/

theorem Regular.bitmapSize_pos (hr : Regular entries) (hroomy : Roomy entries entry) :
    0 < (bitmapSize entries).toNat := by
  have habove := hr.above entry hroomy.mem hroomy.usable
  have hhighest := hr.le_highest hroomy.mem
  rw [hr.bitmapSize_toNat, hr.frameCount_toNat]
  omega

theorem Regular.mem_bitmapPages (hr : Regular entries) (hroomy : Roomy entries entry)
    {page : UInt64} :
    page ∈ bitmapPages entries entry ↔ entry.base.toNat / 4096 ≤ page.toNat ∧
      page.toNat < (entry.base.toNat + (bitmapSize entries).toNat + 4095) / 4096 := by
  have hfits := hr.fits entry hroomy.mem
  have hlong := UInt64.le_iff_toNat_le.mp hroomy.long
  have hadd : (entry.base + bitmapSize entries).toNat =
      entry.base.toNat + (bitmapSize entries).toNat := toNat_add (by omega)
  have hfirst : (entry.base / pageSize).toNat = entry.base.toNat / 4096 :=
    UInt64.toNat_div entry.base pageSize
  rw [bitmapPages, mem_pages, hfirst, roundUp_toNat (by omega), hadd]

theorem Regular.bitmapPages_lt (hr : Regular entries) (hroomy : Roomy entries entry)
    {page : UInt64} (hpage : page ∈ bitmapPages entries entry) :
    page.toNat < (frameCount entries).toNat := by
  have hlong := UInt64.le_iff_toNat_le.mp hroomy.long
  have hhighest := hr.le_highest hroomy.mem
  have hlast := ((hr.mem_bitmapPages hroomy).mp hpage).2
  rw [hr.frameCount_toNat]
  omega

theorem Regular.not_mem_bitmapPages (hr : Regular entries) (hroomy : Roomy entries entry)
    {page : UInt64} :
    page ∉ bitmapPages entries entry ↔ Disjoint (frame page)
      (Set.Ico entry.base.toNat (entry.base.toNat + (bitmapSize entries).toNat)) := by
  have hpos := hr.bitmapSize_pos hroomy
  rw [hr.mem_bitmapPages hroomy, frame, Set.Ico_disjoint_Ico]
  omega

theorem Regular.within_build (hr : Regular entries) (hroomy : Roomy entries entry) (s : State) :
    Within (bitmapSize entries) (start entries entry s)
      (buildBitmap (bitmapSize entries) entries (start entries entry s)) := by
  have hreserve : ∀ page ∈ bitmapPages entries entry, ∀ s,
      Within (bitmapSize entries) s (reservePage s page) := fun page hpage s =>
    within_reservePage (hr.div_lt (hr.bitmapPages_lt hroomy hpage)) s
  have hbefore := (within_filled entries entry s).trans (hr.within_freeLoop _)
  rw [buildBitmap_eq hr]
  exact hbefore.trans (Within.foldl _ hreserve _)

theorem Regular.build_spec (hr : Regular entries) (hroomy : Roomy entries entry) (s : State) :
    Counted (buildBitmap (bitmapSize entries) entries (start entries entry s)) ∧
      ∀ page, page.toNat < (frameCount entries).toNat →
        ((buildBitmap (bitmapSize entries) entries (start entries entry s)).used page = false ↔
          page ∈ entries.flatMap framesOf ∧ page ∉ bitmapPages entries entry) := by
  obtain ⟨hcounted, hfreed⟩ := hr.freeLoop_spec entry s
  have hcount : ((entries.flatMap framesOf).foldl freePage (filled entries entry s)).pageCount =
      frameCount entries :=
    ((within_filled entries entry s).trans (hr.within_freeLoop _)).pageCount
  have hpages : ∀ page ∈ bitmapPages entries entry, page.toNat <
      ((entries.flatMap framesOf).foldl freePage (filled entries entry s)).pageCount.toNat := by
    intro page hpage
    rw [hcount]
    exact hr.bitmapPages_lt hroomy hpage
  obtain ⟨hcounted', hreserved⟩ := reserveLoop_spec _ _ hpages hcounted
  rw [buildBitmap_eq hr]
  refine ⟨hcounted', fun page hpage => ?_⟩
  rw [hreserved, hfreed, hr.used_filled s hpage]
  simp [and_comm]

theorem Regular.freeMap (hr : Regular entries) (hroomy : Roomy entries entry) (s : State) :
    FreeMap entries s (buildBitmap (bitmapSize entries) entries (start entries entry s)) := by
  have hwithin := hr.within_build hroomy s
  obtain ⟨hcounted, hbits⟩ := hr.build_spec hroomy s
  generalize buildBitmap (bitmapSize entries) entries (start entries entry s) = s' at *
  have hbase : s'.pageBitmap = entry.base := hwithin.pageBitmap
  have hcount : s'.pageCount = frameCount entries := hwithin.pageCount
  have hsize : pageBitmapSize s' = bitmapSize entries := by
    rw [pageBitmapSize, hcount]
    rfl
  have hregion : region s' =
      Set.Ico entry.base.toNat (entry.base.toNat + (bitmapSize entries).toNat) := by
    rw [region, hbase, hsize]
  have hfits := hr.fits entry hroomy.mem
  have hlong := UInt64.le_iff_toNat_le.mp hroomy.long
  refine ⟨⟨entry, hroomy.mem, hroomy.usable, ?_, ?_⟩, ?_, ?_, ?_, hcounted⟩
  · rw [hbase]
  · rw [hbase, hsize]
    omega
  · obtain ⟨l, hl, hlt⟩ := hwithin.touched
    refine ⟨l, hl, fun i hi => ?_⟩
    have hi := UInt64.lt_iff_toNat_lt.mp (hlt i hi)
    rw [hsize]
    omega
  · intro a ha
    refine hwithin.memory a fun i hi he => ha ?_
    have hi := UInt64.lt_iff_toNat_lt.mp hi
    have hadd : (entry.base + i).toNat = entry.base.toNat + i.toNat := toNat_add (by omega)
    have ha : a = entry.base + i := he
    rw [hregion, ha, hadd]
    exact ⟨by omega, by omega⟩
  · intro page hpage
    rw [UInt64.lt_iff_toNat_lt, hcount] at hpage
    rw [hbits page hpage, hregion, hr.not_mem_bitmapPages hroomy, List.mem_flatMap]
    refine and_congr_left fun _ => exists_congr fun e => and_congr_right fun he => ?_
    exact mem_framesOf (hr.fits e he)

/-! ## `eX_PPA_Init` -/

theorem ppaInit_null (h : placeBitmap (bitmapSize entries) entries = 0) (s : State)
    (screen : Screen) : (ppaInit entries s).run screen = .error .halt := by
  have hplain : Console.plain (Console.bytes "PPA: Cannot place bitmap!\n") = true := by
    apply Console.plain_ofList
    decide
  have hhalt : ppaInit entries s = (do
      Console.print (Console.cString "PPA: Cannot place bitmap!\n") []
      Code.stop .halt) := if_pos h
  rw [hhalt, Console.cString, Code.run_bind ((Console.print_text hplain).run screen)]
  rfl

theorem ppaInit_placed (h : placeBitmap (bitmapSize entries) entries = entry.base)
    (hne : entry.base ≠ 0) (s : State) :
    ppaInit entries s = pure (buildBitmap (bitmapSize entries) entries (start entries entry s)) := by
  have hbuild : ppaInit entries s = if placeBitmap (bitmapSize entries) entries = 0 then _ else
      pure (buildBitmap (bitmapSize entries) entries
        { s with
          pageCount := frameCount entries
          pageBitmap := placeBitmap (bitmapSize entries) entries }) := rfl
  rw [hbuild, h, if_neg hne]
  rfl

/-- For every memory map that keeps the bootloader's promises, `eX_PPA_Init` halts only if no usable
entry has room for the bitmap; otherwise it ends with the exact free map. -/
theorem ppaInit_exact (hr : Regular entries) (s : State) (screen : Screen) :
    ((ppaInit entries s).run screen = .error .halt ∧
      ∀ entry ∈ entries, Usable entry → entry.length < bitmapSize entries) ∨
    ∃ s', (ppaInit entries s).run screen = .ok (s', screen) ∧
      s'.pageCount = frameCount entries ∧ FreeMap entries s s' := by
  rcases placeBitmap_cases (bitmapSize entries) entries with ⟨hnull, hshort⟩ | ⟨entry, hmem, h⟩
  · exact Or.inl ⟨ppaInit_null hnull s screen, hshort⟩
  · obtain ⟨husable, hlong, hplace⟩ := h
    have hne : entry.base ≠ 0 := by
      intro hzero
      have habove := hr.above entry hmem husable
      rw [hzero] at habove
      exact absurd habove (by decide)
    have hroomy : Roomy entries entry := ⟨hmem, husable, hlong⟩
    refine Or.inr ⟨_, ?_, (hr.within_build hroomy s).pageCount, hr.freeMap hroomy s⟩
    rw [ppaInit_placed hplace hne]
    rfl

end build

/-- The allocator at boot, over zeroed memory. -/
def boot : State := ⟨fun _ => 0, 0, 0, 0, []⟩

/-- A reserved frame below three usable ones. -/
def smallMap : List MemmapEntry := [⟨0, 0x1000, 1⟩, ⟨0x1000, 0x3000, 0⟩]

theorem regular_smallMap : Regular smallMap := by
  constructor
  · simp [smallMap, Usable, limineMemmapUsable]
  · intro entry hmem husable
    rcases List.mem_pair.mp hmem with rfl | rfl
    · cases husable
    · decide
  · intro entry hmem
    rcases List.mem_pair.mp hmem with rfl | rfl
    · decide
    · decide

theorem ppaInit_exact_smallMap : ∃ s',
    (ppaInit smallMap boot).run (Console.blank 8 8 32) = .ok (s', Console.blank 8 8 32) ∧
      s'.pageCount = 4 ∧ FreeMap smallMap boot s' := by
  rcases ppaInit_exact regular_smallMap boot (Console.blank 8 8 32) with ⟨-, hshort⟩ | hbuilt
  · have hlt := hshort ⟨0x1000, 0x3000, 0⟩ (List.mem_pair.mpr (Or.inr rfl)) rfl
    exact absurd hlt (by decide)
  · exact hbuilt

end EyaX.Ppa
