import Mathlib.Logic.Function.Basic

/-!
# The queue in a ring of slots

Slots `0` to `n - 1`, an index to read from and an index to write to, both below `n`: the queue is
the segment from the one to the other, around the end where it wraps. One slot stays unused, so
equal indices mean an empty queue and a queue of `n - 1` is full. Nothing here depends on how the
slots and the indices are stored.
-/

namespace Ring

variable {α : Type} (n : Nat)

/-- The slot of an index that has passed the end at most once. -/
def wrap (i : Nat) : Nat := if i < n then i else i - n

/-- The number of queued elements. -/
def count (read write : Nat) : Nat := if read ≤ write then write - read else n - read + write

/-- The queue, oldest element first. -/
def contents (cells : Nat → α) (read write : Nat) : List α :=
  (List.range (count n read write)).map fun k => cells (wrap n (read + k))

variable {n} {read write : Nat}

theorem succ_mod (h : write < n) : (write + 1) % n = wrap n (write + 1) := by
  unfold wrap
  by_cases hlt : write + 1 < n
  · rw [if_pos hlt, Nat.mod_eq_of_lt hlt]
  · obtain rfl : write + 1 = n := by omega
    rw [if_neg hlt, Nat.mod_self, Nat.sub_self]

theorem count_eq_zero_iff (hr : read < n) : count n read write = 0 ↔ read = write := by
  unfold count
  by_cases h : read ≤ write
  · rw [if_pos h]
    omega
  · rw [if_neg h]
    omega

theorem count_lt (hr : read < n) (hw : write < n) : count n read write < n := by
  unfold count
  by_cases h : read ≤ write
  · rw [if_pos h]
    omega
  · rw [if_neg h]
    omega

/-- The next write would meet the read index exactly when one slot is left. -/
theorem full_iff (hr : read < n) (hw : write < n) :
    wrap n (write + 1) = read ↔ count n read write + 1 = n := by
  unfold wrap count
  by_cases hlt : write + 1 < n <;> by_cases h : read ≤ write
  · rw [if_pos hlt, if_pos h]
    omega
  · rw [if_pos hlt, if_neg h]
    omega
  · rw [if_neg hlt, if_pos h]
    omega
  · omega

theorem count_push (hr : read < n) (hw : write < n) (hroom : wrap n (write + 1) ≠ read) :
    count n read (wrap n (write + 1)) = count n read write + 1 := by
  unfold wrap count at *
  by_cases hlt : write + 1 < n <;> by_cases h : read ≤ write
  · rw [if_pos hlt] at hroom ⊢
    rw [if_pos (by omega), if_pos h]
    omega
  · rw [if_pos hlt] at hroom ⊢
    rw [if_neg (by omega), if_neg h]
    omega
  · rw [if_neg hlt] at hroom ⊢
    rw [if_neg (by omega), if_pos h]
    omega
  · omega

theorem count_pop (hr : read < n) (hw : write < n) (hne : read ≠ write) :
    count n read write = count n (wrap n (read + 1)) write + 1 := by
  unfold wrap count
  by_cases hlt : read + 1 < n <;> by_cases h : read ≤ write
  · rw [if_pos hlt, if_pos h, if_pos (by omega)]
    omega
  · rw [if_pos hlt, if_neg h, if_neg (by omega)]
    omega
  · omega
  · rw [if_neg hlt, if_neg h, if_pos (by omega)]
    omega

theorem wrap_count (hr : read < n) (hw : write < n) :
    wrap n (read + count n read write) = write := by
  unfold wrap count
  by_cases h : read ≤ write
  · rw [if_pos h, if_pos (by omega)]
    omega
  · rw [if_neg h, if_neg (by omega)]
    omega

theorem wrap_ne_write (hr : read < n) (hw : write < n) {k : Nat} (hk : k < count n read write) :
    wrap n (read + k) ≠ write := by
  unfold wrap count at *
  by_cases hlt : read + k < n <;> by_cases h : read ≤ write
  · rw [if_pos h] at hk
    rw [if_pos hlt]
    omega
  · rw [if_neg h] at hk
    rw [if_pos hlt]
    omega
  · rw [if_pos h] at hk
    omega
  · rw [if_neg h] at hk
    rw [if_neg hlt]
    omega

/-! ## The operations -/

variable {cells : Nat → α}

@[simp] theorem length_contents :
    (contents n cells read write).length = count n read write := by
  rw [contents, List.length_map, List.length_range]

theorem contents_eq_nil (hr : read < n) (h : read = write) : contents n cells read write = [] := by
  rw [contents, (count_eq_zero_iff hr).mpr h]
  rfl

theorem contents_push (hr : read < n) (hw : write < n) (hroom : wrap n (write + 1) ≠ read) (c : α) :
    contents n (Function.update cells write c) read (wrap n (write + 1)) =
      contents n cells read write ++ [c] := by
  rw [contents, count_push hr hw hroom, List.range_succ, List.map_append, List.map_singleton,
    wrap_count hr hw, Function.update_self, contents]
  congr 1
  apply List.map_congr_left
  intro k hk
  exact Function.update_of_ne (wrap_ne_write hr hw (List.mem_range.mp hk)) c cells

theorem contents_pop (hr : read < n) (hw : write < n) (hne : read ≠ write) :
    contents n cells read write = cells read :: contents n cells (wrap n (read + 1)) write := by
  have hfirst : wrap n read = read := if_pos hr
  have hcount := count_pop hr hw hne
  rw [contents, hcount, List.range_succ_eq_map, List.map_cons, Nat.add_zero, hfirst,
    List.map_map, contents]
  congr 1
  refine List.map_congr_left fun k hk => congrArg cells ?_
  have hlt := List.mem_range.mp hk
  have hbound := count_lt hr hw
  show wrap n (read + (k + 1)) = wrap n (wrap n (read + 1) + k)
  unfold wrap
  by_cases hnext : read + 1 < n
  · rw [if_pos hnext, Nat.add_assoc, Nat.add_comm 1 k]
  · rw [if_neg hnext]
    by_cases hk' : read + (k + 1) < n
    · omega
    · rw [if_neg hk', if_pos (by omega)]
      omega

end Ring
