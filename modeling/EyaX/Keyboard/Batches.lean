import EyaX.Keyboard.Stream
import EyaX.Lib.Fold
import EyaX.Lib.Transducer

/-!
# What a poll leaves in the queue

A poll of an empty queue keeps the first 127 characters of its batch and loses the others, so
polling batch after batch is a transducer from batches to characters, and it loses nothing exactly
when every batch fits.
-/

namespace EyaX.Keyboard

/-! ## Polling as a transducer -/

/-- A poll of an empty queue that the shell then empties. -/
def polled : Transducer Modifiers (List UInt8) UInt8 where
  next m batch := modifiersAfter batch m
  out m batch := (decoded batch m).take 127

/-! ## The queue after a poll -/

theorem take_append_take (l l' : List UInt8) :
    (l.take 127 ++ l').take 127 = (l ++ l').take 127 := by
  rw [List.take_append, List.take_append, List.take_take, Nat.min_self, List.length_take]
  by_cases h : l.length ≤ 127
  · rw [Nat.min_eq_right h]
  · rw [Nat.min_eq_left (by omega), Nat.sub_self, Nat.sub_eq_zero_of_le (by omega)]

theorem push_eq {l : List UInt8} (h : l.length < 128) (c : UInt8) : push c l = (l ++ [c]).take 127 := by
  unfold push
  by_cases hroom : l.length < 127
  · have hle : (l ++ [c]).length ≤ 127 := by
      rw [List.length_append]
      exact hroom
    rw [if_pos hroom, List.take_of_length_le hle]
  · rw [if_neg hroom, List.take_append_of_le_length (by omega), List.take_of_length_le (by omega)]

theorem contents_handleScancode_take (k : Driver) (scancode : UInt8) :
    (handleScancode k scancode).queue.contents =
      (k.queue.contents ++ (decode scancode k.modifiers).1.toList).take 127 := by
  have hlt := length_contents_lt k.queue
  unfold handleScancode
  rcases decode scancode k.modifiers with ⟨_ | c, m⟩
  · simp only [Option.toList_none, List.append_nil]
    rw [List.take_of_length_le (by omega)]
  · simp only [Option.toList_some, pushChar_simulates]
    exact push_eq hlt c

/-- Whatever the queue holds, polling appends what there is room for. -/
theorem contents_poll_take (batch : List UInt8) :
    ∀ k : Driver, (poll batch k).queue.contents =
      (k.queue.contents ++ decoded batch k.modifiers).take 127 := by
  induction batch with
  | nil =>
    intro k
    have hlt := length_contents_lt k.queue
    show k.queue.contents = (k.queue.contents ++ []).take 127
    rw [List.append_nil, List.take_of_length_le (by omega)]
  | cons scancode batch ih =>
    intro k
    show (poll batch (handleScancode k scancode)).queue.contents = _
    rw [ih, contents_handleScancode_take, modifiers_handleScancode, decoded, take_append_take,
      List.append_assoc]

/-! ## Every sequence of batches -/

theorem polled_sublist (batches : List (List UInt8)) :
    ∀ m, (polled.output m batches).Sublist (decoded batches.flatten m) := by
  induction batches with
  | nil => exact fun m => List.Sublist.refl _
  | cons batch batches ih =>
    intro m
    rw [List.flatten_cons, decoded_append]
    exact (List.take_sublist _ _).append (ih _)

theorem take_append_eq_iff {l r r' : List UInt8} (h : r.Sublist r') :
    l.take 127 ++ r = l ++ r' ↔ l.length ≤ 127 ∧ r = r' := by
  constructor
  · intro heq
    have hlength := congrArg List.length heq
    have hle := h.length_le
    rw [List.length_append, List.length_append, List.length_take] at hlength
    have hfits : l.length ≤ 127 := by omega
    rw [List.take_of_length_le hfits] at heq
    exact ⟨hfits, List.append_cancel_left heq⟩
  · rintro ⟨hfits, rfl⟩
    rw [List.take_of_length_le hfits]

/-- Nothing is lost exactly when every batch decodes to at most 127 characters. -/
theorem polled_eq_iff (batches : List (List UInt8)) :
    ∀ m, polled.output m batches = decoded batches.flatten m ↔
      Fold.Each (fun m batch => modifiersAfter batch m) (fun m batch => (decoded batch m).length ≤ 127)
        m batches := by
  induction batches with
  | nil => exact fun m => ⟨fun _ => Fold.each_nil, fun _ => rfl⟩
  | cons batch batches ih =>
    intro m
    rw [List.flatten_cons, decoded_append, Fold.each_cons, ← ih]
    exact take_append_eq_iff (polled_sublist batches _)

end EyaX.Keyboard
