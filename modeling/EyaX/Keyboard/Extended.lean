import EyaX.Keyboard.Stream

/-!
# Extended scancodes are dropped

A prefix sets a flag, further prefixes leave it set, and the byte behind them clears it without
being looked at. A stream is therefore decoded as if its extended groups were not there, and neither
Shift nor Caps Lock can hide in one.
-/

namespace EyaX.Keyboard

/-! ## Extended groups -/

/-- What follows the prefixes at the beginning of a stream and the byte behind them. -/
def afterGroup (stream : List UInt8) : List UInt8 := (stream.dropWhile (· == 0xE0)).drop 1

theorem afterGroup_length_le (stream : List UInt8) : (afterGroup stream).length ≤ stream.length := by
  unfold afterGroup
  rw [List.length_drop]
  exact Nat.le_trans (Nat.sub_le _ _) (List.dropWhile_suffix _).length_le

/-- The stream without its extended groups: the longest runs of prefixes, each with the one byte
behind it. -/
def deleteExtended : List UInt8 → List UInt8
  | [] => []
  | scancode :: stream =>
    if scancode = 0xE0 then deleteExtended (afterGroup stream) else scancode :: deleteExtended stream
termination_by stream => stream.length
decreasing_by
  · exact Nat.lt_succ_of_le (afterGroup_length_le stream)
  · exact Nat.lt_succ_self stream.length

theorem afterGroup_cons {scancode : UInt8} (h : scancode ≠ 0xE0) (stream : List UInt8) :
    afterGroup (scancode :: stream) = stream := by
  rw [afterGroup, List.dropWhile_cons_of_neg (by simpa using h)]
  rfl

theorem deleteExtended_nil : deleteExtended [] = [] := by rw [deleteExtended]

theorem deleteExtended_group (stream : List UInt8) :
    deleteExtended (0xE0 :: stream) = deleteExtended (afterGroup stream) := by
  rw [deleteExtended, if_pos rfl]

theorem deleteExtended_plain {scancode : UInt8} (h : scancode ≠ 0xE0) (stream : List UInt8) :
    deleteExtended (scancode :: stream) = scancode :: deleteExtended stream := by
  rw [deleteExtended, if_neg h]

/-! ## The decoder at a group -/

/-- The flags without the prefix. -/
def Modifiers.settled (m : Modifiers) : Modifiers := { m with extendedScancode := false }

theorem decode_group (m : Modifiers) : decode 0xE0 m = (none, { m with extendedScancode := true }) := by
  rw [decode, if_pos rfl]

theorem decode_behind {m : Modifiers} (hm : m.extendedScancode = true) {scancode : UInt8}
    (h : scancode ≠ 0xE0) : decode scancode m = (none, m.settled) := by
  rw [decode, if_neg h, if_pos hm]
  rfl

theorem decode_plain_extended {m : Modifiers} (hm : m.extendedScancode = false) {scancode : UInt8}
    (h : scancode ≠ 0xE0) : (decode scancode m).2.extendedScancode = false := by
  rw [decode_modifiers hm h]
  split
  · exact hm
  · split
    · exact hm
    · exact hm

/-- The two streams, each from its flags, are decoded alike and leave the same Shift and Caps
Lock. -/
structure Alike (stream : List UInt8) (m : Modifiers) (stream' : List UInt8) (m' : Modifiers) :
    Prop where
  decoded : decoded stream m = decoded stream' m'
  settled : (modifiersAfter stream m).settled = (modifiersAfter stream' m').settled

namespace Alike

variable {stream stream' stream'' : List UInt8} {m m₁ m' m'' : Modifiers} {scancode : UInt8}

theorem refl (stream : List UInt8) (m : Modifiers) : Alike stream m stream m := ⟨rfl, rfl⟩

theorem trans (h : Alike stream m stream' m') (h' : Alike stream' m' stream'' m'') :
    Alike stream m stream'' m'' :=
  ⟨h.decoded.trans h'.decoded, h.settled.trans h'.settled⟩

/-- A scancode that gives no character and leads to flags from which the rest is alike. -/
theorem drop (hdecode : decode scancode m = (none, m₁)) (h : Alike stream m₁ stream' m') :
    Alike (scancode :: stream) m stream' m' := by
  constructor
  · rw [Keyboard.decoded, hdecode]
    exact h.decoded
  · show (modifiersAfter stream (decode scancode m).2).settled = _
    rw [hdecode]
    exact h.settled

theorem cons (h : Alike stream (decode scancode m).2 stream' (decode scancode m).2) :
    Alike (scancode :: stream) m (scancode :: stream') m := by
  constructor
  · rw [Keyboard.decoded, Keyboard.decoded, h.decoded]
  · exact h.settled

end Alike

theorem alike_afterGroup (stream : List UInt8) :
    ∀ m : Modifiers, m.extendedScancode = true → Alike stream m (afterGroup stream) m.settled := by
  induction stream with
  | nil => exact fun m _ => ⟨rfl, rfl⟩
  | cons scancode stream ih =>
    intro m hm
    by_cases hgroup : scancode = 0xE0
    · subst hgroup
      have hsame : decode 0xE0 m = (none, m) := by
        rw [decode_group, ← hm]
      exact (ih m hm).drop hsame
    · rw [afterGroup_cons hgroup]
      exact (Alike.refl stream m.settled).drop (decode_behind hm hgroup)

theorem alike_deleteExtended (stream : List UInt8) :
    ∀ m : Modifiers, m.extendedScancode = false → Alike stream m (deleteExtended stream) m := by
  induction stream using deleteExtended.induct with
  | case1 =>
    intro m _
    rw [deleteExtended_nil]
    exact Alike.refl [] m
  | case2 stream ih =>
    intro m hm
    rw [deleteExtended_group]
    have hgroup := alike_afterGroup stream { m with extendedScancode := true } rfl
    have hsettled : ({ m with extendedScancode := true } : Modifiers).settled = m := by
      unfold Modifiers.settled
      rw [← hm]
    rw [hsettled] at hgroup
    exact (hgroup.trans (ih m hm)).drop (decode_group m)
  | case3 scancode stream hplain ih =>
    intro m hm
    rw [deleteExtended_plain hplain]
    exact (ih _ (decode_plain_extended hm hplain)).cons

/-! ## The driver -/

theorem queue_poll (batch : List UInt8) :
    ∀ k : Driver, (poll batch k).queue =
      (decoded batch k.modifiers).foldl (fun q c => pushChar c q) k.queue := by
  induction batch with
  | nil => exact fun k => rfl
  | cons scancode batch ih =>
    intro k
    have hqueue : (handleScancode k scancode).queue =
        (decode scancode k.modifiers).1.toList.foldl (fun q c => pushChar c q) k.queue := by
      unfold handleScancode
      rcases decode scancode k.modifiers with ⟨_ | c, m⟩
      · rfl
      · rfl
    show (poll batch (handleScancode k scancode)).queue = _
    rw [ih, hqueue, modifiers_handleScancode, decoded, List.foldl_append]

theorem shift_extended (m : Modifiers) (scancode : UInt8) :
    (modifiersAfter [0xE0, scancode] m).shiftPressed = m.shiftPressed := by
  show (decode scancode (decode 0xE0 m).2).2.shiftPressed = m.shiftPressed
  rw [decode_group]
  by_cases hgroup : scancode = 0xE0
  · rw [hgroup, decode_group]
  · rw [decode_behind rfl hgroup]
    rfl

/-- Extended groups are transparent: without them a stream makes the driver push the same
characters, leaves the same queue and the same Shift and Caps Lock flags, and a prefix with the byte
behind it does not change Shift wherever the two stand. -/
theorem extended_transparent (k : Driver) (stream : List UInt8) :
    decoded (deleteExtended stream) (init k).modifiers = decoded stream (init k).modifiers ∧
    (poll (deleteExtended stream) (init k)).queue = (poll stream (init k)).queue ∧
    (poll (deleteExtended stream) (init k)).modifiers.shiftPressed =
      (poll stream (init k)).modifiers.shiftPressed ∧
    (poll (deleteExtended stream) (init k)).modifiers.capsLock =
      (poll stream (init k)).modifiers.capsLock ∧
    ∀ scancode, (poll (stream ++ [0xE0, scancode]) (init k)).modifiers.shiftPressed =
      (poll stream (init k)).modifiers.shiftPressed := by
  have halike := alike_deleteExtended stream (init k).modifiers rfl
  have hsettled : (poll (deleteExtended stream) (init k)).modifiers.settled =
      (poll stream (init k)).modifiers.settled := by
    rw [poll_modifiers, poll_modifiers, halike.settled]
  refine ⟨halike.decoded.symm, ?_, ?_, ?_, fun scancode => ?_⟩
  · rw [queue_poll, queue_poll, halike.decoded]
  · have h := congrArg Modifiers.shiftPressed hsettled
    exact h
  · have h := congrArg Modifiers.capsLock hsettled
    exact h
  · rw [poll_modifiers, poll_modifiers, modifiersAfter_append, shift_extended]

example : deleteExtended [0x1E, 0xE0, 0xE0, 0x2A, 0x1F, 0xE0] = [0x1E, 0x1F] := by
  simp [deleteExtended, afterGroup]

end EyaX.Keyboard
