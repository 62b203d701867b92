import EyaX.Keyboard.Shifted

/-!
# Typing a text

The two tables have a key for every printable character, for newline, backspace and tab, and for
nothing else. So a text of these characters can be typed, and what the decoder makes of the
keystrokes is the text; a stream of scancodes, whatever it is, decodes to such a text.
-/

namespace EyaX.Keyboard

/-! ## The characters of the keyboard -/

/-- A printable character, a newline, a backspace or a tab. -/
def Typable (c : UInt8) : Prop :=
  (32 ≤ c ∧ c ≤ 126) ∨ c = '\n'.toUInt8 ∨ c = '\x08'.toUInt8 ∨ c = '\t'.toUInt8

instance (c : UInt8) : Decidable (Typable c) := inferInstanceAs (Decidable (_ ∨ _))

/-- The first key of a table with this character. -/
def keyFor (table : List (UInt8 × Char)) (c : UInt8) : Option UInt8 :=
  (table.find? fun p => p.2.toUInt8 == c).map Prod.fst

theorem keyFor_eq_none {table : List (UInt8 × Char)} {c : UInt8} (h : keyFor table c = none) :
    ∀ p ∈ table, p.2.toUInt8 ≠ c := by
  intro p hp he
  have hfind := List.find?_eq_none.mp (Option.map_eq_none_iff.mp h) p hp
  exact hfind (beq_iff_eq.mpr he)

theorem keyFor_eq_some {table : List (UInt8 × Char)} {c code : UInt8}
    (h : keyFor table c = some code) : ∃ p ∈ table, p.1 = code ∧ p.2.toUInt8 = c := by
  obtain ⟨p, hp, rfl⟩ := Option.map_eq_some_iff.mp h
  exact ⟨p, List.mem_of_find?_eq_some hp, rfl, by simpa using List.find?_some hp⟩

theorem typable_iff (c : UInt8) :
    Typable c ↔ ∃ p ∈ keyboardNormal ++ keyboardShift, p.2.toUInt8 = c := by
  have hkeys : ∀ b : BitVec 8, Typable ⟨b⟩ →
      ((keyboardNormal ++ keyboardShift).any fun p => p.2.toUInt8 == ⟨b⟩) = true := by
    decide +kernel
  have htypable : ∀ p ∈ keyboardNormal ++ keyboardShift, Typable p.2.toUInt8 := by decide +kernel
  constructor
  · intro h
    obtain ⟨p, hp, he⟩ := List.any_eq_true.mp (hkeys c.toBitVec h)
    exact ⟨p, hp, by simpa using he⟩
  · rintro ⟨p, hp, rfl⟩
    exact htypable p hp

theorem typable_swapCase {c : UInt8} (h : Typable c) (capsLock : Bool) :
    Typable (swapCase capsLock c) := by
  have hall : ∀ b : BitVec 8, Typable ⟨b⟩ → Typable (swapCase true ⟨b⟩) := by decide +kernel
  cases capsLock with
  | false => exact h
  | true => exact hall c.toBitVec h

theorem swapCase_swapCase (capsLock : Bool) (c : UInt8) :
    swapCase capsLock (swapCase capsLock c) = c := by
  have hall : ∀ b : BitVec 8, swapCase true (swapCase true ⟨b⟩) = ⟨b⟩ := by decide +kernel
  cases capsLock with
  | false => rfl
  | true => exact hall c.toBitVec

/-! ## What a stream decodes to -/

theorem typable_entry {table : List (UInt8 × Char)}
    (htable : ∀ p ∈ table, p ∈ keyboardNormal ++ keyboardShift) {code : UInt8}
    (h : entry table code ≠ 0) : Typable (entry table code) := by
  rcases entry_cases table code with ⟨-, hzero⟩ | ⟨c, hc, hentry⟩
  · exact absurd hzero h
  · rw [hentry]
    exact (typable_iff _).mpr ⟨(code, c), htable _ hc, rfl⟩

theorem typable_glyph {m : Modifiers} {code : UInt8} (h : glyph m code ≠ 0) :
    Typable (glyph m code) := by
  have hzero : swapCase m.capsLock 0 = 0 := by cases m.capsLock <;> decide
  unfold glyph at h ⊢
  apply typable_swapCase
  by_cases hshift : m.shiftPressed = true
  · rw [if_pos hshift] at h ⊢
    refine typable_entry (fun p hp => List.mem_append_right _ hp) fun he => h ?_
    rw [he, hzero]
  · rw [if_neg hshift] at h ⊢
    refine typable_entry (fun p hp => List.mem_append_left _ hp) fun he => h ?_
    rw [he, hzero]

theorem typable_decode {scancode : UInt8} {m : Modifiers} :
    ∀ c ∈ (decode scancode m).1, Typable c := by
  intro c hc
  by_cases hgroup : scancode = 0xE0
  · rw [hgroup, decode_group] at hc
    cases hc
  by_cases hextended : m.extendedScancode = true
  · rw [decode_behind hextended hgroup] at hc
    cases hc
  rw [Bool.not_eq_true] at hextended
  by_cases hmodifier : isModifier scancode = true
  · rw [decode_modifier hextended hgroup hmodifier] at hc
    cases hc
  rw [Bool.not_eq_true] at hmodifier
  rw [decode_glyph hextended hgroup hmodifier] at hc
  split_ifs at hc with hmake
  · obtain rfl : glyph m (scancode &&& 0x7F) = c := Option.some.inj hc
    exact typable_glyph hmake.2
  · cases hc

theorem decoded_typable (stream : List UInt8) : ∀ m, ∀ c ∈ decoded stream m, Typable c := by
  induction stream with
  | nil => exact fun m c hc => absurd hc List.not_mem_nil
  | cons scancode stream ih =>
    intro m c hc
    rcases List.mem_append.mp hc with hfirst | hrest
    · exact typable_decode c (Option.mem_toList.mp hfirst)
    · exact ih _ c hrest

/-! ## Keystrokes -/

/-- The scancodes of the keys that type a character: its key, and Shift around it where only the
second table has it. -/
def keystrokes (c : UInt8) : List UInt8 :=
  match keyFor keyboardNormal c, keyFor keyboardShift c with
  | some code, _ => [code, code ||| 0x80]
  | none, some code => [0x2A, code, code ||| 0x80, 0xAA]
  | none, none => []

def typing (text : List UInt8) : List UInt8 := text.flatMap keystrokes

/-- No key is held. -/
def atRest (capsLock : Bool) : Modifiers := ⟨false, capsLock, false⟩

/-- The decoder makes one character of the scancodes and is then where it was. -/
def Types (scancodes : List UInt8) (c : UInt8) : Prop :=
  ∀ capsLock, decoded scancodes (atRest capsLock) = [swapCase capsLock c] ∧
    modifiersAfter scancodes (atRest capsLock) = atRest capsLock

instance (scancodes : List UInt8) (c : UInt8) : Decidable (Types scancodes c) :=
  inferInstanceAs (Decidable (∀ _ : Bool, _))

theorem types_normal : ∀ p ∈ keyboardNormal, Types [p.1, p.1 ||| 0x80] p.2.toUInt8 := by
  decide +kernel

theorem types_shift : ∀ p ∈ keyboardShift,
    Types [0x2A, p.1, p.1 ||| 0x80, 0xAA] p.2.toUInt8 := by
  decide +kernel

theorem types_keystrokes {c : UInt8} (h : Typable c) : Types (keystrokes c) c := by
  unfold keystrokes
  cases hnormal : keyFor keyboardNormal c with
  | some code =>
    obtain ⟨p, hp, rfl, rfl⟩ := keyFor_eq_some hnormal
    exact types_normal p hp
  | none =>
    cases hshift : keyFor keyboardShift c with
    | some code =>
      obtain ⟨p, hp, rfl, rfl⟩ := keyFor_eq_some hshift
      exact types_shift p hp
    | none =>
      obtain ⟨p, hp, he⟩ := (typable_iff c).mp h
      rcases List.mem_append.mp hp with hp | hp
      · exact absurd he (keyFor_eq_none hnormal p hp)
      · exact absurd he (keyFor_eq_none hshift p hp)

/-- A text that is typed with no key held is decoded as it is, up to Caps Lock. -/
theorem decoded_typing {text : List UInt8} (h : ∀ c ∈ text, Typable c) (capsLock : Bool) :
    decoded (typing text) (atRest capsLock) = text.map (swapCase capsLock) ∧
      modifiersAfter (typing text) (atRest capsLock) = atRest capsLock := by
  induction text with
  | nil => exact ⟨rfl, rfl⟩
  | cons c text ih =>
    obtain ⟨hc, htext⟩ := List.forall_mem_cons.mp h
    obtain ⟨hdecoded, hmodifiers⟩ := types_keystrokes hc capsLock
    obtain ⟨hrest, hlast⟩ := ih htext
    have htyping : typing (c :: text) = keystrokes c ++ typing text := List.flatMap_cons
    rw [htyping, decoded_append, modifiersAfter_append, hdecoded, hmodifiers, hrest, hlast]
    exact ⟨rfl, rfl⟩

/-! ## The alphabet of the decoder -/

theorem modifiersAfter_rest (m : Modifiers) :
    modifiersAfter [0xAA, 0xAA] m = atRest m.capsLock := by
  obtain ⟨shiftPressed, capsLock, extendedScancode⟩ := m
  cases shiftPressed <;> cases capsLock <;> cases extendedScancode <;> rfl

/-- From any state of the flags, the characters that some stream of scancodes gives are the
printable ones, newline, backspace and tab. -/
theorem decoded_alphabet (m : Modifiers) (c : UInt8) :
    (∃ stream, c ∈ decoded stream m) ↔ Typable c := by
  constructor
  · rintro ⟨stream, hc⟩
    exact decoded_typable stream m c hc
  · intro h
    have hswapped : ∀ d ∈ [swapCase m.capsLock c], Typable d := by
      intro d hd
      rw [List.mem_singleton.mp hd]
      exact typable_swapCase h _
    refine ⟨[0xAA, 0xAA] ++ typing [swapCase m.capsLock c], ?_⟩
    rw [decoded_append, modifiersAfter_rest, (decoded_typing hswapped m.capsLock).1]
    apply List.mem_append_right
    rw [List.map_singleton, swapCase_swapCase]
    exact List.mem_singleton_self c

end EyaX.Keyboard
