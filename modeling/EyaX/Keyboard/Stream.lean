import EyaX.Keyboard.Modifiers
import EyaX.Keyboard.Queue

/-!
# The characters of a stream of scancodes

What the decoder makes of a stream does not depend on the queue, and a stream can be decoded in
parts. While the queue has room, polling appends the decoded characters to it.
-/

namespace EyaX.Keyboard

/-- The characters the decoder produces, in order. -/
def decoded : List UInt8 → Modifiers → List UInt8
  | [], _ => []
  | scancode :: stream, m => (decode scancode m).1.toList ++ decoded stream (decode scancode m).2

theorem decoded_append (stream stream' : List UInt8) :
    ∀ m, decoded (stream ++ stream') m = decoded stream m ++ decoded stream' (modifiersAfter stream m) := by
  induction stream with
  | nil => exact fun m => rfl
  | cons scancode stream ih =>
    intro m
    show (decode scancode m).1.toList ++ decoded (stream ++ stream') (decode scancode m).2 = _
    rw [ih, ← List.append_assoc]
    rfl

theorem contents_handleScancode (k : Driver) (scancode : UInt8)
    (h : k.queue.contents.length + (decode scancode k.modifiers).1.toList.length ≤ 127) :
    (handleScancode k scancode).queue.contents =
      k.queue.contents ++ (decode scancode k.modifiers).1.toList := by
  unfold handleScancode
  rcases hdecode : decode scancode k.modifiers with ⟨_ | c, m⟩
  · exact (List.append_nil _).symm
  · rw [hdecode] at h
    exact contents_pushChar k.queue c (Nat.lt_of_succ_le h)

theorem modifiers_handleScancode (k : Driver) (scancode : UInt8) :
    (handleScancode k scancode).modifiers = (decode scancode k.modifiers).2 :=
  poll_modifiers [scancode] k

theorem contents_poll (batch : List UInt8) :
    ∀ k : Driver, k.queue.contents.length + (decoded batch k.modifiers).length ≤ 127 →
      (poll batch k).queue.contents = k.queue.contents ++ decoded batch k.modifiers := by
  induction batch with
  | nil => exact fun k _ => (List.append_nil _).symm
  | cons scancode batch ih =>
    intro k h
    rw [decoded, List.length_append] at h
    have hhead := contents_handleScancode k scancode (by omega)
    have htail := ih (handleScancode k scancode) (by
      rw [hhead, modifiers_handleScancode, List.length_append]
      omega)
    show (poll batch (handleScancode k scancode)).queue.contents = _
    rw [htail, hhead, modifiers_handleScancode, decoded, List.append_assoc]

end EyaX.Keyboard
