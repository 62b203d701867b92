import EyaX.Keyboard.Basic
import Mathlib.Data.List.Induction

/-!
# Modifier flags and physical keys

A keyboard sends a make code when a key goes down and again while it is held, and a break code when
it goes up. The decoder keeps one flag for the two Shift keys and toggles Caps Lock on every make
code, so its flags follow the keys exactly as long as no Shift key goes up while the other is held
and Caps Lock is not repeated; the first event that breaks this leaves a wrong flag behind.
-/

namespace EyaX.Keyboard

/-! ## Keys and what they send -/

/-- A key: its make code, with or without the prefix `0xE0`. No code makes a byte equal to the
prefix. -/
structure Key where
  extended : Bool
  code : UInt8
  code_lt : code < 0x80
  code_ne : code ≠ 0x60
  deriving DecidableEq

def keyLeftShift : Key := ⟨false, 0x2A, by decide, by decide⟩
def keyRightShift : Key := ⟨false, 0x36, by decide, by decide⟩
def keyCapsLock : Key := ⟨false, 0x3A, by decide, by decide⟩

inductive KeyEvent
  | press (key : Key)
  | release (key : Key)
  deriving DecidableEq

/-- The scancodes of an event. -/
def KeyEvent.bytes : KeyEvent → List UInt8
  | .press key => if key.extended then [0xE0, key.code] else [key.code]
  | .release key => if key.extended then [0xE0, key.code ||| 0x80] else [key.code ||| 0x80]

/-- Which keys are held, and how often Caps Lock was pressed. -/
structure Physical where
  held : Key → Bool
  capsPresses : Nat

def Physical.step (p : Physical) : KeyEvent → Physical
  | .press key =>
    { held := Function.update p.held key true
      capsPresses :=
        if key = keyCapsLock ∧ p.held keyCapsLock = false then p.capsPresses + 1 else p.capsPresses }
  | .release key => { p with held := Function.update p.held key false }

def physical (events : List KeyEvent) : Physical := events.foldl Physical.step ⟨fun _ => false, 0⟩

/-- Keys go up only after they went down. -/
def Sendable (events : List KeyEvent) : Prop :=
  ∀ h₁ key h₂, events = h₁ ++ .release key :: h₂ → (physical h₁).held key = true

/-- The flags follow the keys. -/
def Tracks (p : Physical) (m : Modifiers) : Prop :=
  (m.shiftPressed = true ↔ p.held keyLeftShift = true ∨ p.held keyRightShift = true) ∧
    (m.capsLock = true ↔ p.capsPresses % 2 = 1)

/-- No Shift key goes up while the other is held, and Caps Lock is not repeated. -/
def Plain (p : Physical) : KeyEvent → Prop
  | .press key => key = keyCapsLock → p.held keyCapsLock = false
  | .release key =>
    (key = keyLeftShift → p.held keyRightShift = false) ∧ (key = keyRightShift → p.held keyLeftShift = false)

/-! ## What the decoder does with an event -/

theorem code_bits (c : UInt8) (h : c < 0x80) (hne : c ≠ 0x60) :
    c &&& 0x80 = 0 ∧ c &&& 0x7F = c ∧ c ≠ 0xE0 ∧
      (c ||| 0x80) &&& 0x80 ≠ 0 ∧ (c ||| 0x80) &&& 0x7F = c ∧ c ||| 0x80 ≠ 0xE0 := by
  have hbits : ∀ b : BitVec 8, b < 0x80#8 → b ≠ 0x60#8 →
      b &&& 0x80#8 = 0#8 ∧ b &&& 0x7F#8 = b ∧ b ≠ 0xE0#8 ∧
        (b ||| 0x80#8) &&& 0x80#8 ≠ 0#8 ∧ (b ||| 0x80#8) &&& 0x7F#8 = b ∧
        b ||| 0x80#8 ≠ 0xE0#8 := by decide
  obtain ⟨h₁, h₂, h₃, h₄, h₅, h₆⟩ := hbits c.toBitVec h fun he => hne (UInt8.toBitVec_inj.mp he)
  exact ⟨UInt8.toBitVec_inj.mp h₁, UInt8.toBitVec_inj.mp h₂,
    fun he => h₃ (congrArg UInt8.toBitVec he), fun he => h₄ (congrArg UInt8.toBitVec he),
    UInt8.toBitVec_inj.mp h₅, fun he => h₆ (congrArg UInt8.toBitVec he)⟩

/-- The flags after an event. -/
def Modifiers.after (m : Modifiers) : KeyEvent → Modifiers
  | .press key =>
    if key = keyLeftShift ∨ key = keyRightShift then { m with shiftPressed := true }
    else if key = keyCapsLock then { m with capsLock := !m.capsLock }
    else m
  | .release key =>
    if key = keyLeftShift ∨ key = keyRightShift then { m with shiftPressed := false } else m

/-- The flags after a stream of scancodes. -/
def modifiersAfter (stream : List UInt8) (m : Modifiers) : Modifiers :=
  stream.foldl (fun m scancode => (decode scancode m).2) m

theorem poll_modifiers (batch : List UInt8) :
    ∀ k : Driver, (poll batch k).modifiers = modifiersAfter batch k.modifiers := by
  induction batch with
  | nil => exact fun _ => rfl
  | cons scancode batch ih =>
    intro k
    have hhead : (handleScancode k scancode).modifiers = (decode scancode k.modifiers).2 := by
      rw [handleScancode]
      rcases decode scancode k.modifiers with ⟨_ | c, m⟩
      · rfl
      · rfl
    show (poll batch (handleScancode k scancode)).modifiers =
      modifiersAfter batch (decode scancode k.modifiers).2
    rw [ih, hhead]

theorem Key.eq_iff {key : Key} {code : UInt8} {h : code < 0x80} {hne : code ≠ 0x60} :
    key = ⟨false, code, h, hne⟩ ↔ key.extended = false ∧ key.code = code := by
  cases key
  simp

theorem modifiersAfter_extended {m : Modifiers} (hm : m.extendedScancode = false) {c : UInt8}
    (hc : c ≠ 0xE0) : modifiersAfter [0xE0, c] m = m := by
  have hfirst : (decode 0xE0 m).2 = { m with extendedScancode := true } := by
    simp [decode]
  show (decode c (decode 0xE0 m).2).2 = m
  rw [hfirst, decode, if_neg hc, if_pos rfl]
  cases m
  simp_all

/-- What the flags become on a scancode that is not a prefix and does not follow one. -/
theorem decode_modifiers {m : Modifiers} (hm : m.extendedScancode = false) {scancode : UInt8}
    (hplain : scancode ≠ 0xE0) :
    (decode scancode m).2 =
      if scancode &&& 0x7F = 0x2A ∨ scancode &&& 0x7F = 0x36 then
        { m with shiftPressed := !decide (scancode &&& 0x80 ≠ 0) }
      else if scancode &&& 0x7F = 0x3A ∧ scancode &&& 0x80 = 0 then
        { m with capsLock := !m.capsLock }
      else m := by
  rw [decode, if_neg hplain, if_neg (by simp [hm])]
  by_cases hshift : scancode &&& 0x7F = 0x2A ∨ scancode &&& 0x7F = 0x36
  · rw [if_pos hshift, if_pos hshift]
  rw [if_neg hshift, if_neg hshift]
  by_cases hcaps : scancode &&& 0x7F = 0x3A
  · by_cases hreleased : scancode &&& 0x80 = 0
    · rw [if_pos hcaps, if_pos (not_not_intro hreleased), if_pos ⟨hcaps, hreleased⟩]
    · rw [if_pos hcaps, if_neg (not_not_intro hreleased), if_neg fun h => hreleased h.2]
  have hnot : ¬ (scancode &&& 0x7F = 0x3A ∧ scancode &&& 0x80 = 0) := fun h => hcaps h.1
  rw [if_neg hcaps, if_neg hnot]
  by_cases hreleased : scancode &&& 0x80 ≠ 0
  · rw [if_pos hreleased]
  · rw [if_neg hreleased]

theorem modifiersAfter_bytes {m : Modifiers} (hm : m.extendedScancode = false) (e : KeyEvent) :
    modifiersAfter e.bytes m = m.after e := by
  cases e with
  | press key =>
    obtain ⟨hmake, hcode, hplain, -⟩ := code_bits key.code key.code_lt key.code_ne
    cases hext : key.extended with
    | true =>
      have hbytes : (KeyEvent.press key).bytes = [0xE0, key.code] := if_pos hext
      rw [hbytes, modifiersAfter_extended hm hplain]
      simp [Modifiers.after, keyLeftShift, keyRightShift, keyCapsLock, Key.eq_iff, hext]
    | false =>
      have hbytes : (KeyEvent.press key).bytes = [key.code] := if_neg (by simp [hext])
      rw [hbytes]
      show (decode key.code m).2 = m.after (.press key)
      rw [decode_modifiers hm hplain]
      simp [Modifiers.after, keyLeftShift, keyRightShift, keyCapsLock, Key.eq_iff, hext, hmake,
        hcode]
  | release key =>
    obtain ⟨-, -, -, hbreak, hcode, hplain⟩ := code_bits key.code key.code_lt key.code_ne
    cases hext : key.extended with
    | true =>
      have hbytes : (KeyEvent.release key).bytes = [0xE0, key.code ||| 0x80] := if_pos hext
      rw [hbytes, modifiersAfter_extended hm hplain]
      simp [Modifiers.after, keyLeftShift, keyRightShift, Key.eq_iff, hext]
    | false =>
      have hbytes : (KeyEvent.release key).bytes = [key.code ||| 0x80] := if_neg (by simp [hext])
      rw [hbytes]
      show (decode (key.code ||| 0x80) m).2 = m.after (.release key)
      rw [decode_modifiers hm hplain]
      simp [Modifiers.after, keyLeftShift, keyRightShift, Key.eq_iff, hext, hbreak, hcode]

/-! ## One event -/

theorem after_extended (m : Modifiers) (e : KeyEvent) :
    (m.after e).extendedScancode = m.extendedScancode := by
  cases e with
  | press key =>
    rw [Modifiers.after]
    split
    · rfl
    · split <;> rfl
  | release key =>
    rw [Modifiers.after]
    split <;> rfl

theorem keys_ne : keyLeftShift ≠ keyRightShift ∧ keyLeftShift ≠ keyCapsLock ∧
    keyRightShift ≠ keyCapsLock := by decide

section

variable {p : Physical} {m : Modifiers}

theorem shift_after_press
    (hshift : m.shiftPressed = true ↔ p.held keyLeftShift = true ∨ p.held keyRightShift = true)
    (key : Key) :
    (m.after (.press key)).shiftPressed = true ↔
      (p.step (.press key)).held keyLeftShift = true ∨
        (p.step (.press key)).held keyRightShift = true := by
  by_cases hkey : key = keyLeftShift ∨ key = keyRightShift
  · rw [Modifiers.after, if_pos hkey]
    apply iff_of_true rfl
    rcases hkey with rfl | rfl
    · left
      exact Function.update_self keyLeftShift true p.held
    · right
      exact Function.update_self keyRightShift true p.held
  · have hflag : (m.after (.press key)).shiftPressed = m.shiftPressed := by
      rw [Modifiers.after, if_neg hkey]
      split <;> rfl
    rw [not_or] at hkey
    have hleft : (p.step (.press key)).held keyLeftShift = p.held keyLeftShift :=
      Function.update_of_ne (Ne.symm hkey.1) _ _
    have hright : (p.step (.press key)).held keyRightShift = p.held keyRightShift :=
      Function.update_of_ne (Ne.symm hkey.2) _ _
    rw [hflag, hleft, hright]
    exact hshift

theorem shift_after_release_iff
    (hshift : m.shiftPressed = true ↔ p.held keyLeftShift = true ∨ p.held keyRightShift = true)
    (key : Key) :
    ((m.after (.release key)).shiftPressed = true ↔
      (p.step (.release key)).held keyLeftShift = true ∨
        (p.step (.release key)).held keyRightShift = true) ↔ Plain p (.release key) := by
  have hlr := keys_ne.1
  by_cases hleft : key = keyLeftShift
  · subst hleft
    simp [Modifiers.after, Physical.step, Plain, hlr, Ne.symm hlr]
  by_cases hright : key = keyRightShift
  · subst hright
    simp [Modifiers.after, Physical.step, Plain, hlr, Ne.symm hlr]
  · simp [Modifiers.after, Physical.step, Plain, hshift, hleft, hright, Ne.symm hleft,
      Ne.symm hright]

theorem capsLock_after_press_iff (hcaps : m.capsLock = true ↔ p.capsPresses % 2 = 1) (key : Key) :
    ((m.after (.press key)).capsLock = true ↔ (p.step (.press key)).capsPresses % 2 = 1) ↔
      Plain p (.press key) := by
  by_cases hkey : key = keyCapsLock
  · subst hkey
    have hflag : (m.after (.press keyCapsLock)).capsLock = !m.capsLock := by
      rw [Modifiers.after, if_neg (by decide), if_pos rfl]
    rw [hflag, Bool.not_eq_true', ← Bool.not_eq_true, hcaps]
    cases hrepeat : p.held keyCapsLock with
    | false =>
      have hcount : (p.step (.press keyCapsLock)).capsPresses = p.capsPresses + 1 :=
        if_pos ⟨rfl, hrepeat⟩
      rw [hcount]
      exact iff_of_true (by omega) fun _ => hrepeat
    | true =>
      have hcount : (p.step (.press keyCapsLock)).capsPresses = p.capsPresses :=
        if_neg fun h => Bool.false_ne_true (h.2.symm.trans hrepeat)
      rw [hcount]
      exact iff_of_false (by omega) fun h => Bool.false_ne_true ((h rfl).symm.trans hrepeat)
  · have hflag : (m.after (.press key)).capsLock = m.capsLock := by
      rw [Modifiers.after, if_neg hkey]
      split <;> rfl
    have hcount : (p.step (.press key)).capsPresses = p.capsPresses := if_neg fun h => hkey h.1
    rw [hflag, hcount]
    exact iff_of_true hcaps fun he => absurd he hkey

theorem capsLock_after_release (key : Key) : (m.after (.release key)).capsLock = m.capsLock := by
  rw [Modifiers.after]
  split <;> rfl

/-- From flags that follow the keys an event leads to flags that do exactly when it is plain. -/
theorem tracks_after_iff (h : Tracks p m) (e : KeyEvent) :
    Tracks (p.step e) (m.after e) ↔ Plain p e := by
  obtain ⟨hshift, hcaps⟩ := h
  unfold Tracks
  cases e with
  | press key =>
    rw [and_iff_right (shift_after_press hshift key)]
    exact capsLock_after_press_iff hcaps key
  | release key =>
    rw [capsLock_after_release]
    exact (and_iff_left hcaps).trans (shift_after_release_iff hshift key)

end

/-! ## Streams -/

/-- The scancodes of a history. -/
def stream (events : List KeyEvent) : List UInt8 := events.flatMap KeyEvent.bytes

/-- The flags after a history, from those `eX_Keyboard_Init` sets. -/
def flags (events : List KeyEvent) : Modifiers :=
  events.foldl Modifiers.after ⟨false, false, false⟩

theorem physical_snoc (events : List KeyEvent) (e : KeyEvent) :
    physical (events ++ [e]) = (physical events).step e := by
  simp [physical]

theorem flags_snoc (events : List KeyEvent) (e : KeyEvent) :
    flags (events ++ [e]) = (flags events).after e := by
  simp [flags]

theorem flags_extended (events : List KeyEvent) : (flags events).extendedScancode = false := by
  induction events using List.reverseRecOn with
  | nil => rfl
  | append_singleton events e ih => rw [flags_snoc, after_extended, ih]

theorem modifiersAfter_append (a b : List UInt8) (m : Modifiers) :
    modifiersAfter (a ++ b) m = modifiersAfter b (modifiersAfter a m) := List.foldl_append

theorem modifiersAfter_stream (events : List KeyEvent) :
    modifiersAfter (stream events) ⟨false, false, false⟩ = flags events := by
  induction events using List.reverseRecOn with
  | nil => rfl
  | append_singleton events e ih =>
    rw [stream, List.flatMap_append, ← stream, modifiersAfter_append, ih, List.flatMap_singleton,
      modifiersAfter_bytes (flags_extended events), flags_snoc]

/-- After `eX_Keyboard_Init` and the scancodes of the history, also with the prefix of a next event
already handled, the flags follow the keys. -/
def FollowsKeys (k : Driver) (events : List KeyEvent) : Prop :=
  ∀ tail, tail = [] ∨ tail = [0xE0] →
    Tracks (physical events) (poll (stream events ++ tail) (init k)).modifiers

theorem followsKeys_iff_tracks (k : Driver) (events : List KeyEvent) :
    FollowsKeys k events ↔ Tracks (physical events) (flags events) := by
  have hpoll : ∀ tail, (poll (stream events ++ tail) (init k)).modifiers =
      modifiersAfter tail (flags events) := fun tail => by
    rw [poll_modifiers, modifiersAfter_append]
    exact congrArg _ (modifiersAfter_stream events)
  constructor
  · intro h
    have hnil := h [] (Or.inl rfl)
    rwa [hpoll] at hnil
  · rintro h tail (rfl | rfl)
    · rwa [hpoll]
    · rw [hpoll]
      exact h

/-- The flags follow the keys all along a history exactly when each of its events is plain. -/
theorem followsKeys_iff (k : Driver) (events : List KeyEvent) :
    (∀ h, h <+: events → FollowsKeys k h) ↔
      ∀ h₁ e h₂, events = h₁ ++ e :: h₂ → Plain (physical h₁) e := by
  simp only [followsKeys_iff_tracks]
  constructor
  · rintro hall h₁ e h₂ rfl
    have hbefore := hall h₁ (List.prefix_append _ _)
    have hafter := hall (h₁ ++ [e]) ⟨h₂, by simp⟩
    rw [physical_snoc, flags_snoc] at hafter
    exact (tracks_after_iff hbefore e).mp hafter
  · intro hplain h hpre
    induction h using List.reverseRecOn with
    | nil =>
      show Tracks ⟨fun _ => false, 0⟩ ⟨false, false, false⟩
      simp [Tracks]
    | append_singleton h e ih =>
      have hbefore := ih ((List.prefix_append h [e]).trans hpre)
      obtain ⟨h₂, rfl⟩ := hpre
      rw [physical_snoc, flags_snoc]
      exact (tracks_after_iff hbefore e).mpr (hplain h e h₂ (by simp))

/-- The statics of `keyboard.c` at boot. -/
def boot : Driver where
  queue := ⟨Vector.replicate 128 0, 0, 0, zero_lt_size, zero_lt_size⟩
  modifiers := ⟨false, false, false⟩

/-- Both Shift keys go down and the left one up: the right one is held and the flag is clear. Caps
Lock held until it repeats: one press and the flag is clear. -/
theorem followsKeys_fails :
    Sendable [.press keyLeftShift, .press keyRightShift, .release keyLeftShift] ∧
      ¬ FollowsKeys boot [.press keyLeftShift, .press keyRightShift, .release keyLeftShift] ∧
      Sendable [.press keyCapsLock, .press keyCapsLock] ∧
      ¬ FollowsKeys boot [.press keyCapsLock, .press keyCapsLock] := by
  refine ⟨?_, ?_, ?_, ?_⟩
  · intro h₁ key h₂ he
    match h₁, he with
    | [a, b], he =>
      simp only [List.cons_append, List.nil_append, List.cons.injEq] at he
      obtain ⟨rfl, rfl, hkey, -⟩ := he
      rw [← KeyEvent.release.inj hkey]
      decide
    | a :: b :: c :: d, he => simp at he
  · rw [followsKeys_iff_tracks]
    intro h
    exact absurd (h.1.mpr (by decide)) (by decide)
  · intro h₁ key h₂ he
    match h₁, he with
    | a :: b :: c, he => simp at he
  · rw [followsKeys_iff_tracks]
    intro h
    exact absurd (h.2.mpr (by decide)) (by decide)

end EyaX.Keyboard
