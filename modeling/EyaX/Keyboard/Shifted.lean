import EyaX.Keyboard.Extended
import Mathlib.Data.List.Forall2

/-!
# Which keys the modifiers silence

Shift selects the second table and Caps Lock exchanges the cases: neither should make a key stop
giving a character, or start giving a newline, a backspace or a tab. The second table has no entry
for Backspace, Tab and Enter, so these three keys, and only they, are silent while Shift is down.
-/

namespace EyaX.Keyboard

/-! ## Scancodes and readers -/

/-- A call of the scancode handler or of a reader of the queue. -/
inductive Use
  | scancode (b : UInt8)
  | getChar

def Use.after (k : Driver) : Use → Driver
  | .scancode b => handleScancode k b
  | .getChar => { k with queue := (Keyboard.getChar k.queue).2 }

/-- The character that a reader gets. -/
def Use.taken (k : Driver) : Use → List UInt8
  | .scancode _ => []
  | .getChar =>
    if (Keyboard.getChar k.queue).1 = -1 then []
    else [UInt8.ofNat (Keyboard.getChar k.queue).1.toNat]

def scancodes (uses : List Use) : List UInt8 :=
  uses.filterMap fun
    | .scancode b => some b
    | .getChar => none

/-- The characters that reach the queue: those that readers get, and those left at the end. -/
def typed : List Use → Driver → List UInt8
  | [], k => k.queue.contents
  | u :: uses, k => u.taken k ++ typed uses (u.after k)

/-- Every pushed character finds room. -/
def HasRoom : List Use → Driver → Prop
  | [], _ => True
  | u :: uses, k =>
    (∀ b, u = .scancode b →
      k.queue.contents.length + (decode b k.modifiers).1.toList.length ≤ 127) ∧
      HasRoom uses (u.after k)

theorem typed_eq (uses : List Use) : ∀ k : Driver, HasRoom uses k →
    typed uses k = k.queue.contents ++ decoded (scancodes uses) k.modifiers := by
  induction uses with
  | nil =>
    intro k _
    exact (List.append_nil _).symm
  | cons u uses ih =>
    intro k ⟨hhead, htail⟩
    rw [typed, ih (u.after k) htail]
    cases u with
    | scancode b =>
      have hcontents := contents_handleScancode k b (hhead b rfl)
      show (handleScancode k b).queue.contents ++ decoded (scancodes uses) (handleScancode k b).modifiers =
        k.queue.contents ++ decoded (b :: scancodes uses) k.modifiers
      rw [hcontents, modifiers_handleScancode, decoded, List.append_assoc]
    | getChar =>
      show (if (getChar k.queue).1 = -1 then [] else [UInt8.ofNat (getChar k.queue).1.toNat]) ++
        ((getChar k.queue).2.contents ++ decoded (scancodes uses) k.modifiers) =
          k.queue.contents ++ decoded (scancodes uses) k.modifiers
      cases hcontents : k.queue.contents with
      | nil =>
        rw [getChar_empty k.queue hcontents, if_pos rfl, hcontents]
        rfl
      | cons c rest =>
        obtain ⟨hchar, hrest⟩ := getChar_cons k.queue hcontents
        rw [hchar, hrest, if_neg (by omega)]
        simp

/-! ## Streams without modifiers -/

/-- A make or break code of a Shift key. -/
def isShift (b : UInt8) : Bool := b &&& 0x7F = 0x2A || b &&& 0x7F = 0x36

/-- A make or break code of Shift or Caps Lock. -/
def isModifier (b : UInt8) : Bool := isShift b || b &&& 0x7F = 0x3A

/-- The stream without its Shift and Caps Lock bytes, except for those behind a prefix. -/
def withoutModifiers : Bool → List UInt8 → List UInt8
  | _, [] => []
  | extended, b :: stream =>
    if b = 0xE0 then b :: withoutModifiers true stream
    else if extended then b :: withoutModifiers false stream
    else if isModifier b then withoutModifiers false stream
    else b :: withoutModifiers false stream

theorem withoutModifiers_group (extended : Bool) (stream : List UInt8) :
    withoutModifiers extended (0xE0 :: stream) = 0xE0 :: withoutModifiers true stream := by
  rw [withoutModifiers, if_pos rfl]

theorem withoutModifiers_behind {b : UInt8} (h : b ≠ 0xE0) (stream : List UInt8) :
    withoutModifiers true (b :: stream) = b :: withoutModifiers false stream := by
  rw [withoutModifiers, if_neg h, if_pos rfl]

theorem withoutModifiers_plain {b : UInt8} (h : b ≠ 0xE0) (stream : List UInt8) :
    withoutModifiers false (b :: stream) =
      if isModifier b then withoutModifiers false stream
      else b :: withoutModifiers false stream := by
  rw [withoutModifiers, if_neg h, if_neg Bool.false_ne_true]

theorem afterGroup_withoutModifiers (stream : List UInt8) :
    afterGroup (withoutModifiers true stream) = withoutModifiers false (afterGroup stream) := by
  induction stream with
  | nil => rfl
  | cons b stream ih =>
    by_cases h : b = 0xE0
    · rw [h, withoutModifiers_group]
      exact ih
    · rw [withoutModifiers_behind h, afterGroup_cons h, afterGroup_cons h]

theorem deleteExtended_withoutModifiers (stream : List UInt8) :
    deleteExtended (withoutModifiers false stream) =
      (deleteExtended stream).filter fun b => !isModifier b := by
  induction stream using deleteExtended.induct with
  | case1 =>
    rw [withoutModifiers, deleteExtended_nil]
    rfl
  | case2 stream ih =>
    rw [withoutModifiers_group, deleteExtended_group, deleteExtended_group,
      afterGroup_withoutModifiers, ih]
  | case3 b stream hplain ih =>
    rw [withoutModifiers_plain hplain, deleteExtended_plain hplain]
    by_cases hb : isModifier b = true
    · rw [if_pos hb, ih, List.filter_cons_of_neg (by simp [hb])]
    · rw [if_neg hb, deleteExtended_plain hplain, ih, List.filter_cons_of_pos (by simp [hb])]

theorem ne_prefix_of_mem (stream : List UInt8) : ∀ b ∈ deleteExtended stream, b ≠ 0xE0 := by
  induction stream using deleteExtended.induct with
  | case1 =>
    rw [deleteExtended_nil]
    exact fun b hb => absurd hb List.not_mem_nil
  | case2 stream ih =>
    rw [deleteExtended_group]
    exact ih
  | case3 b stream hplain ih =>
    rw [deleteExtended_plain hplain]
    exact List.forall_mem_cons.mpr ⟨hplain, ih⟩

/-! ## One key -/

/-- Zero, for no character, and the characters that must not move. -/
def anchors : List UInt8 := [0, '\n'.toUInt8, '\x08'.toUInt8, '\t'.toUInt8]

/-- The two are the same anchor, or both are none. -/
def SameClass (c d : UInt8) : Prop := ∀ x ∈ anchors, c = x ↔ d = x

theorem SameClass.refl (c : UInt8) : SameClass c c := fun _ _ => Iff.rfl

theorem SameClass.trans {c d e : UInt8} (h : SameClass c d) (h' : SameClass d e) : SameClass c e :=
  fun x hx => (h x hx).trans (h' x hx)

/-- What Caps Lock makes of a character. -/
def swapCase (capsLock : Bool) (c : UInt8) : UInt8 :=
  if capsLock ∧ 'a'.toUInt8 ≤ c ∧ c ≤ 'z'.toUInt8 then c - 'a'.toUInt8 + 'A'.toUInt8
  else if capsLock ∧ 'A'.toUInt8 ≤ c ∧ c ≤ 'Z'.toUInt8 then c - 'A'.toUInt8 + 'a'.toUInt8
  else c

/-- The keys without an entry in the table for Shift: Backspace, Tab and Enter. -/
def shiftless : List UInt8 := [0x0E, 0x0F, 0x1C]

/-- The character of a make code, or zero. -/
def glyph (m : Modifiers) (code : UInt8) : UInt8 :=
  swapCase m.capsLock (if m.shiftPressed then entry keyboardShift code else entry keyboardNormal code)

theorem decode_glyph {m : Modifiers} (hm : m.extendedScancode = false) {b : UInt8} (h : b ≠ 0xE0)
    (hmodifier : isModifier b = false) :
    decode b m =
      (if b &&& 0x80 = 0 ∧ glyph m (b &&& 0x7F) ≠ 0 then some (glyph m (b &&& 0x7F)) else none,
        m) := by
  simp only [isModifier, isShift, Bool.or_eq_false_iff, decide_eq_false_iff_not] at hmodifier
  obtain ⟨⟨hleft, hright⟩, hcaps⟩ := hmodifier
  rw [decode, if_neg h, if_neg (by simp [hm]), if_neg (not_or.mpr ⟨hleft, hright⟩), if_neg hcaps]
  by_cases hmake : b &&& 0x80 = 0
  · rw [if_neg (not_not_intro hmake)]
    show (if glyph m (b &&& 0x7F) ≠ 0 then some (glyph m (b &&& 0x7F)) else none, m) = _
    simp only [hmake, true_and]
  · rw [if_pos hmake]
    simp only [hmake, false_and, if_false]

theorem entry_cases (table : List (UInt8 × Char)) (code : UInt8) :
    (code ∉ table.map Prod.fst ∧ entry table code = 0) ∨
      ∃ c, (code, c) ∈ table ∧ entry table code = c.toUInt8 := by
  unfold entry
  induction table with
  | nil => exact Or.inl ⟨List.not_mem_nil, rfl⟩
  | cons p table ih =>
    obtain ⟨k, c⟩ := p
    by_cases hk : code = k
    · subst hk
      right
      refine ⟨c, List.mem_cons_self, ?_⟩
      rw [List.lookup_cons_self]
    · have hlookup : List.lookup code ((k, c) :: table) = List.lookup code table := by
        rw [List.lookup_cons, beq_false_of_ne hk]
      rw [hlookup]
      rcases ih with ⟨hnot, hzero⟩ | ⟨d, hd, hentry⟩
      · left
        refine ⟨?_, hzero⟩
        rw [List.map_cons, List.mem_cons, not_or]
        exact ⟨hk, hnot⟩
      · right
        exact ⟨d, List.mem_cons_of_mem _ hd, hentry⟩

/-- Both tables have characters for the same keys, up to the three, and none of these characters is
an anchor. -/
theorem sameClass_entry {code : UInt8} (hcode : code ∉ shiftless) :
    SameClass (entry keyboardShift code) (entry keyboardNormal code) := by
  have hkeys : keyboardShift.map Prod.fst =
      (keyboardNormal.map Prod.fst).filter fun k => !shiftless.contains k := by decide +kernel
  have hshift : (keyboardShift.all fun p => !anchors.contains p.2.toUInt8) = true := by
    decide +kernel
  have hnormal : (keyboardNormal.all fun p =>
      shiftless.contains p.1 || !anchors.contains p.2.toUInt8) = true := by decide +kernel
  have hmem : code ∈ keyboardShift.map Prod.fst ↔ code ∈ keyboardNormal.map Prod.fst := by
    rw [hkeys, List.mem_filter]
    simp [hcode]
  rcases entry_cases keyboardShift code with ⟨hnot, hzero⟩ | ⟨c, hc, hentry⟩
  · rcases entry_cases keyboardNormal code with ⟨-, hzero'⟩ | ⟨d, hd, -⟩
    · rw [hzero, hzero']
      exact SameClass.refl 0
    · exact absurd (hmem.mpr (List.mem_map_of_mem hd)) hnot
  · rcases entry_cases keyboardNormal code with ⟨hnot, -⟩ | ⟨d, hd, hentry'⟩
    · exact absurd (hmem.mp (List.mem_map_of_mem hc)) hnot
    · have hc' := List.all_eq_true.mp hshift _ hc
      have hd' := List.all_eq_true.mp hnormal _ hd
      intro x hx
      rw [hentry, hentry']
      have hnc : c.toUInt8 ≠ x := by
        intro he
        subst he
        simp [hx] at hc'
      have hnd : d.toUInt8 ≠ x := by
        intro he
        subst he
        simp [hx, hcode] at hd'
      exact iff_of_false hnc hnd

theorem sameClass_swapCase (capsLock : Bool) (c : UInt8) : SameClass (swapCase capsLock c) c := by
  have hall : ∀ b : BitVec 8, (anchors.all fun x =>
      (swapCase true ⟨b⟩ == x) == ((⟨b⟩ : UInt8) == x)) = true := by decide +kernel
  cases capsLock with
  | false => exact SameClass.refl c
  | true =>
    intro x hx
    have hc := List.all_eq_true.mp (hall c.toBitVec) x hx
    rw [beq_iff_eq, Bool.eq_iff_iff, beq_iff_eq, beq_iff_eq] at hc
    exact hc

theorem sameClass_glyph {m : Modifiers} {code : UInt8}
    (h : ¬ (code ∈ shiftless ∧ m.shiftPressed = true)) :
    SameClass (glyph m code) (entry keyboardNormal code) := by
  unfold glyph
  refine (sameClass_swapCase _ _).trans ?_
  by_cases hshift : m.shiftPressed = true
  · rw [if_pos hshift]
    exact sameClass_entry fun hcode => h ⟨hcode, hshift⟩
  · rw [if_neg hshift]
    exact SameClass.refl _

theorem glyph_shiftless {m : Modifiers} {code : UInt8} (hcode : code ∈ shiftless)
    (hshift : m.shiftPressed = true) : glyph m code = 0 ∧ entry keyboardNormal code ≠ 0 := by
  have hentries : (shiftless.all fun code =>
      entry keyboardShift code == 0 && entry keyboardNormal code != 0) = true := by decide +kernel
  have hentry := List.all_eq_true.mp hentries code hcode
  rw [Bool.and_eq_true, beq_iff_eq, bne_iff_ne] at hentry
  have hzero : swapCase m.capsLock 0 = 0 := by cases m.capsLock <;> decide
  unfold glyph
  rw [if_pos hshift, hentry.1]
  exact ⟨hzero, hentry.2⟩

/-! ## One scancode -/

/-- The flags that `eX_Keyboard_Init` sets. -/
def cleared : Modifiers := ⟨false, false, false⟩

theorem make_code {b : UInt8} (h : b &&& 0x80 = 0) : b &&& 0x7F = b := by
  have hbits : ∀ v : BitVec 8, v &&& 0x80#8 = 0#8 → v &&& 0x7F#8 = v := by decide
  exact UInt8.toBitVec_inj.mp (hbits b.toBitVec (congrArg UInt8.toBitVec h))

section scancode

variable {m : Modifiers} {b : UInt8} (hm : m.extendedScancode = false) (hb : b ≠ 0xE0)

include hm hb

theorem decode_modifier (hmodifier : isModifier b = true) : (decode b m).1 = none := by
  simp only [isModifier, isShift, Bool.or_eq_true, decide_eq_true_iff] at hmodifier
  rw [decode, if_neg hb, if_neg (by simp [hm])]
  by_cases hshift : b &&& 0x7F = 0x2A ∨ b &&& 0x7F = 0x36
  · rw [if_pos hshift]
  · rw [if_neg hshift, if_pos (hmodifier.resolve_left hshift)]
    by_cases hmake : ¬ b &&& 0x80 ≠ 0
    · rw [if_pos hmake]
    · rw [if_neg hmake]

/-- A key that is not silenced gives a character of one class whatever the flags are, or none at
all. -/
theorem decode_sameClass (hmodifier : isModifier b = false)
    (h : ¬ (b ∈ shiftless ∧ m.shiftPressed = true)) :
    List.Forall₂ SameClass (decode b m).1.toList (decode b cleared).1.toList := by
  rw [decode_glyph hm hb hmodifier, decode_glyph rfl hb hmodifier]
  by_cases hmake : b &&& 0x80 = 0
  · rw [make_code hmake]
    have hclass : SameClass (glyph m b) (glyph cleared b) := sameClass_glyph h
    have hzero := hclass 0 List.mem_cons_self
    by_cases hsilent : glyph m b = 0
    · simp [hsilent, hzero.mp hsilent]
    · have hsilent' : ¬ glyph cleared b = 0 := fun he => hsilent (hzero.mpr he)
      simp [hmake, hsilent, hsilent', hclass]
  · simp [hmake]

theorem decode_shiftless (hcode : b ∈ shiftless) (hshift : m.shiftPressed = true) :
    (decode b m).1.toList.length = 0 ∧ (decode b cleared).1.toList.length = 1 := by
  have hkeys : (shiftless.all fun code => !isModifier code && code &&& 0x80 == 0) = true := by
    decide
  have hkey := List.all_eq_true.mp hkeys b hcode
  rw [Bool.and_eq_true, Bool.not_eq_true', beq_iff_eq] at hkey
  obtain ⟨hmodifier, hmake⟩ := hkey
  obtain ⟨hsilent, hnormal⟩ := glyph_shiftless hcode hshift
  have hgives : glyph cleared b ≠ 0 := hnormal
  rw [decode_glyph hm hb hmodifier, decode_glyph rfl hb hmodifier, make_code hmake]
  simp [hmake, hsilent, hgives]

theorem decode_keeps (hmodifier : isModifier b = false) : (decode b m).2 = m := by
  rw [decode_glyph hm hb hmodifier]

end scancode

/-! ## Streams of plain scancodes -/

/-- How often one of the three keys is pressed under Shift. -/
def lost : List UInt8 → Modifiers → Nat
  | [], _ => 0
  | b :: stream, m =>
    (if b ∈ shiftless ∧ m.shiftPressed = true then 1 else 0) + lost stream (decode b m).2

/-- The stream without its modifiers, decoded from cleared flags, has one character more for each
silenced key, and where there is none the characters are of the same classes. -/
theorem decoded_filter (stream : List UInt8) (hplain : ∀ b ∈ stream, b ≠ 0xE0) :
    ∀ m : Modifiers, m.extendedScancode = false →
      (decoded stream m).length + lost stream m =
          (decoded (stream.filter fun b => !isModifier b) cleared).length ∧
        (lost stream m = 0 → List.Forall₂ SameClass (decoded stream m)
          (decoded (stream.filter fun b => !isModifier b) cleared)) := by
  induction stream with
  | nil => exact fun m _ => ⟨rfl, fun _ => .nil⟩
  | cons b stream ih =>
    intro m hm
    obtain ⟨hb, hrest⟩ := List.forall_mem_cons.mp hplain
    obtain ⟨hlength, hclass⟩ := ih hrest (decode b m).2 (decode_plain_extended hm hb)
    rw [decoded, lost]
    cases hmodifier : isModifier b with
    | true =>
      have hnot : ¬ (b ∈ shiftless ∧ m.shiftPressed = true) := by
        intro h
        have hkeys : (shiftless.all fun code => !isModifier code) = true := by decide
        have hkey := List.all_eq_true.mp hkeys b h.1
        rw [hmodifier] at hkey
        cases hkey
      rw [List.filter_cons_of_neg (by simp [hmodifier]), decode_modifier hm hb hmodifier,
        if_neg hnot, Nat.zero_add]
      exact ⟨hlength, hclass⟩
    | false =>
      have hcleared : (decode b cleared).2 = cleared := decode_keeps rfl hb hmodifier
      rw [List.filter_cons_of_pos (by simp [hmodifier]), decoded, hcleared, List.length_append,
        List.length_append]
      by_cases hsilent : b ∈ shiftless ∧ m.shiftPressed = true
      · obtain ⟨hnone, hsome⟩ := decode_shiftless hm hb hsilent.1 hsilent.2
        rw [if_pos hsilent]
        exact ⟨by omega, fun h => absurd h (by omega)⟩
      · have hone := decode_sameClass hm hb hmodifier hsilent
        have hsame := hone.length_eq
        rw [if_neg hsilent]
        refine ⟨by omega, fun h => ?_⟩
        exact List.rel_append hone (hclass (by omega))

theorem lost_eq_zero_iff (stream : List UInt8) : ∀ m : Modifiers, lost stream m = 0 ↔
    ∀ pre b post, stream = pre ++ b :: post → b ∈ shiftless →
      ¬ (modifiersAfter pre m).shiftPressed = true := by
  induction stream with
  | nil =>
    intro m
    refine iff_of_true rfl fun pre b post he => ?_
    simp at he
  | cons c stream ih =>
    intro m
    rw [lost, Nat.add_eq_zero_iff, ih, ite_eq_right_iff]
    constructor
    · intro ⟨hhead, htail⟩ pre b post he hb
      cases pre with
      | nil =>
        obtain ⟨rfl, -⟩ := List.cons.inj he
        exact fun hshift => absurd (hhead ⟨hb, hshift⟩) Nat.one_ne_zero
      | cons d pre =>
        obtain ⟨rfl, he'⟩ := List.cons.inj he
        exact htail pre b post he' hb
    · intro h
      refine ⟨fun hc => absurd hc.2 (h [] c stream rfl hc.1), fun pre b post he hb => ?_⟩
      exact h (c :: pre) b post (by rw [he]; rfl) hb

/-- The last Shift byte of the stream is a make code. -/
def ShiftDown (stream : List UInt8) : Prop :=
  (stream.filter isShift).getLast? = some 0x2A ∨ (stream.filter isShift).getLast? = some 0x36

theorem modifiersAfter_snoc (stream : List UInt8) (b : UInt8) (m : Modifiers) :
    modifiersAfter (stream ++ [b]) m = (decode b (modifiersAfter stream m)).2 :=
  modifiersAfter_append stream [b] m

theorem modifiersAfter_plain_extended {stream : List UInt8} (hplain : ∀ b ∈ stream, b ≠ 0xE0) :
    (modifiersAfter stream cleared).extendedScancode = false := by
  induction stream using List.reverseRecOn with
  | nil => rfl
  | append_singleton stream b ih =>
    rw [modifiersAfter_snoc]
    exact decode_plain_extended (ih fun c hc => hplain c (by simp [hc])) (hplain b (by simp))

theorem shift_make {b : UInt8} (h : b &&& 0x7F = 0x2A ∨ b &&& 0x7F = 0x36) :
    b &&& 0x80 = 0 ↔ b = 0x2A ∨ b = 0x36 := by
  have hbits : ∀ v : BitVec 8, v &&& 0x7F#8 = 0x2A#8 ∨ v &&& 0x7F#8 = 0x36#8 →
      (v &&& 0x80#8 = 0#8 ↔ v = 0x2A#8 ∨ v = 0x36#8) := by decide
  have hv := hbits b.toBitVec (by
    simpa [← UInt8.toBitVec_inj] using h)
  simpa [← UInt8.toBitVec_inj] using hv

theorem shiftPressed_iff {stream : List UInt8} (hplain : ∀ b ∈ stream, b ≠ 0xE0) :
    (modifiersAfter stream cleared).shiftPressed = true ↔ ShiftDown stream := by
  induction stream using List.reverseRecOn with
  | nil => simp [ShiftDown, modifiersAfter, cleared]
  | append_singleton stream b ih =>
    have hb : b ≠ 0xE0 := hplain b (by simp)
    have hrest : ∀ c ∈ stream, c ≠ 0xE0 := fun c hc => hplain c (by simp [hc])
    have hextended := modifiersAfter_plain_extended hrest
    rw [modifiersAfter_snoc, decode_modifiers hextended hb]
    unfold ShiftDown at *
    rw [List.filter_append]
    by_cases hshift : b &&& 0x7F = 0x2A ∨ b &&& 0x7F = 0x36
    · have hfilter : [b].filter isShift = [b] := by
        rw [List.filter_cons_of_pos (by simpa [isShift] using hshift)]
        rfl
      rw [if_pos hshift, hfilter, List.getLast?_concat, Option.some_inj, Option.some_inj]
      have hmake := shift_make hshift
      simp [hmake]
    · have hfilter : [b].filter isShift = [] := by
        rw [List.filter_cons_of_neg (by simpa [isShift] using hshift)]
        rfl
      rw [if_neg hshift, hfilter, List.append_nil]
      refine Iff.trans ?_ (ih hrest)
      split
      · exact Iff.rfl
      · exact Iff.rfl

/-! ## The same keys -/

/-- As many characters, with the newlines, backspaces and tabs in the same places. -/
structure SameKeys (out out' : List UInt8) : Prop where
  length : out.length = out'.length
  places : ∀ i : Nat, ∀ x ∈ ['\n'.toUInt8, '\x08'.toUInt8, '\t'.toUInt8],
    out[i]? = some x ↔ out'[i]? = some x

theorem SameKeys.of_forall₂ {out out' : List UInt8} (h : List.Forall₂ SameClass out out') :
    SameKeys out out' := by
  refine ⟨h.length_eq, fun i x hx => ?_⟩
  induction h generalizing i with
  | nil => exact Iff.rfl
  | cons hcd _ ih =>
    cases i with
    | zero =>
      rw [List.getElem?_cons_zero, List.getElem?_cons_zero, Option.some_inj, Option.some_inj]
      exact hcd x (List.mem_cons_of_mem _ hx)
    | succ i =>
      rw [List.getElem?_cons_succ, List.getElem?_cons_succ]
      exact ih i

theorem typed_init {k : Driver} {uses : List Use} (hroom : HasRoom uses (init k)) :
    typed uses (init k) = decoded (scancodes uses) cleared := by
  rw [typed_eq uses (init k) hroom, contents_init]
  rfl

/-- While the queue has room, a stream gives the same keys as without its modifiers exactly when
none of Backspace, Tab and Enter is pressed where the last Shift byte before it is a make code. -/
theorem sameKeys_iff (k k' : Driver) (uses uses' : List Use) (hroom : HasRoom uses (init k))
    (hroom' : HasRoom uses' (init k'))
    (hwithout : scancodes uses' = withoutModifiers false (scancodes uses)) :
    SameKeys (typed uses (init k)) (typed uses' (init k')) ↔
      ∀ pre b post, deleteExtended (scancodes uses) = pre ++ b :: post → b ∈ shiftless →
        ¬ ShiftDown pre := by
  have hplain := ne_prefix_of_mem (scancodes uses)
  obtain ⟨hlength, hclass⟩ := decoded_filter (deleteExtended (scancodes uses)) hplain cleared rfl
  have hleft : typed uses (init k) = decoded (deleteExtended (scancodes uses)) cleared := by
    rw [typed_init hroom]
    exact (alike_deleteExtended _ cleared rfl).decoded
  have hright : typed uses' (init k') =
      decoded ((deleteExtended (scancodes uses)).filter fun b => !isModifier b) cleared := by
    rw [typed_init hroom', hwithout, ← deleteExtended_withoutModifiers]
    exact (alike_deleteExtended _ cleared rfl).decoded
  have hlost : lost (deleteExtended (scancodes uses)) cleared = 0 ↔
      ∀ pre b post, deleteExtended (scancodes uses) = pre ++ b :: post → b ∈ shiftless →
        ¬ ShiftDown pre := by
    rw [lost_eq_zero_iff]
    refine forall_congr' fun pre => forall_congr' fun b => forall_congr' fun post => ?_
    refine imp_congr_right fun he => imp_congr_right fun _ => not_congr ?_
    exact shiftPressed_iff fun c hc => hplain c (by rw [he]; simp [hc])
  rw [← hlost, hleft, hright]
  constructor
  · intro h
    have hsame := h.length
    omega
  · exact fun h => SameKeys.of_forall₂ (hclass h)

theorem room_of_empty {k : Driver} (h : k.queue.contents = []) (b : UInt8) :
    k.queue.contents.length + (decode b k.modifiers).1.toList.length ≤ 127 := by
  have hone : (decode b k.modifiers).1.toList.length ≤ 1 := by
    rcases (decode b k.modifiers).1 with _ | c
    · exact Nat.zero_le 1
    · exact Nat.le_refl 1
  rw [h, List.length_nil]
  omega

theorem hasRoom_key (k : Driver) (b : UInt8) : HasRoom [.scancode b] (init k) :=
  ⟨fun c _ => room_of_empty (contents_init k) c, trivial⟩

theorem hasRoom_shift (k : Driver) (b : UInt8) :
    HasRoom [.scancode 0x2A, .scancode b] (init k) := by
  have hfirst : decode 0x2A (init k).modifiers = (none, ⟨true, false, false⟩) := rfl
  have hempty : (handleScancode (init k) 0x2A).queue.contents = [] := by
    unfold handleScancode
    rw [hfirst]
    exact contents_init k
  exact ⟨fun c _ => room_of_empty (contents_init k) c, fun c _ => room_of_empty hempty c, trivial⟩

theorem sameKeys_letter :
    SameKeys (typed [.scancode 0x2A, .scancode 0x1E] (init boot))
      (typed [.scancode 0x1E] (init boot)) := by
  refine (sameKeys_iff boot boot [.scancode 0x2A, .scancode 0x1E] [.scancode 0x1E]
    (hasRoom_shift boot 0x1E) (hasRoom_key boot 0x1E) rfl).mpr fun pre b post he hb => ?_
  have hstream : deleteExtended (scancodes [.scancode 0x2A, .scancode 0x1E]) = [0x2A, 0x1E] := by
    simp [scancodes, deleteExtended]
  have hmem : b ∈ [0x2A, 0x1E] := by
    rw [← hstream, he]
    simp
  have hnone : ([0x2A, 0x1E].all fun c => !shiftless.contains c) = true := by decide
  have hnot := List.all_eq_true.mp hnone b hmem
  simp [hb] at hnot

/-- Shift and Enter. -/
theorem sameKeys_fails :
    ¬ ∀ (k k' : Driver) (uses uses' : List Use), HasRoom uses (init k) → HasRoom uses' (init k') →
      scancodes uses' = withoutModifiers false (scancodes uses) →
      SameKeys (typed uses (init k)) (typed uses' (init k')) := by
  intro h
  have hsame := h boot boot [.scancode 0x2A, .scancode 0x1C] [.scancode 0x1C]
    (hasRoom_shift boot 0x1C) (hasRoom_key boot 0x1C) rfl
  rw [typed_init (hasRoom_shift boot 0x1C), typed_init (hasRoom_key boot 0x1C)] at hsame
  exact absurd hsame.length (by decide)

end EyaX.Keyboard
