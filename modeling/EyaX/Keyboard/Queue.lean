import EyaX.Keyboard.Basic

/-!
# The ring buffer is a bounded queue

The bytes between the two indices are a queue of at most 127 characters: pushing appends unless it
is full, and `eX_Keyboard_GetChar` takes the oldest one. The relation is kept by every operation,
through any number of wraps of the indices.
-/

namespace EyaX.Keyboard

/-- The slots of the buffer. -/
def Queue.cells (q : Queue) (i : Nat) : UInt8 := if h : i < 128 then q.buffer[i] else 0

/-- The queued characters, oldest first. -/
def Queue.contents (q : Queue) : List UInt8 :=
  Ring.contents 128 q.cells q.readIndex.toNat q.writeIndex.toNat

section

variable (q : Queue)

theorem nextIndex_wrap {index : UInt8} (h : index.toNat < 128) :
    (nextIndex index).toNat = Ring.wrap 128 (index.toNat + 1) := by
  rw [nextIndex_toNat, Ring.succ_mod h]

theorem full_iff : nextIndex q.writeIndex = q.readIndex ↔ q.contents.length = 127 := by
  rw [← UInt8.toNat_inj, nextIndex_wrap q.writeIndex_lt,
    Ring.full_iff q.readIndex_lt q.writeIndex_lt, Queue.contents, Ring.length_contents]
  omega

theorem length_contents_lt : q.contents.length < 128 := by
  rw [Queue.contents, Ring.length_contents]
  exact Ring.count_lt q.readIndex_lt q.writeIndex_lt

theorem pushChar_full (c : UInt8) (h : q.contents.length = 127) : pushChar c q = q :=
  if_pos ((full_iff q).mpr h)

theorem contents_pushChar (c : UInt8) (h : q.contents.length < 127) :
    (pushChar c q).contents = q.contents ++ [c] := by
  have hroom : ¬ nextIndex q.writeIndex = q.readIndex := fun he => by
    have := (full_iff q).mp he
    omega
  have hne : Ring.wrap 128 (q.writeIndex.toNat + 1) ≠ q.readIndex.toNat := fun he => hroom (by
    rw [← UInt8.toNat_inj, nextIndex_wrap q.writeIndex_lt, he])
  have hcells : (pushChar c q).cells = Function.update q.cells q.writeIndex.toNat c := by
    funext i
    rw [pushChar, if_neg hroom]
    by_cases hi : i = q.writeIndex.toNat
    · subst hi
      rw [Function.update_self, Queue.cells, dif_pos q.writeIndex_lt]
      exact Vector.getElem_set_self _
    · rw [Function.update_of_ne hi, Queue.cells, Queue.cells]
      by_cases hlt : i < 128
      · rw [dif_pos hlt, dif_pos hlt]
        exact Vector.getElem_set_ne q.writeIndex_lt hlt (Ne.symm hi)
      · rw [dif_neg hlt, dif_neg hlt]
  have hindices : (pushChar c q).readIndex = q.readIndex ∧
      (pushChar c q).writeIndex = nextIndex q.writeIndex := by
    rw [pushChar, if_neg hroom]
    exact ⟨rfl, rfl⟩
  rw [Queue.contents, hcells, hindices.1, hindices.2, nextIndex_wrap q.writeIndex_lt,
    Ring.contents_push q.readIndex_lt q.writeIndex_lt hne, Queue.contents]

theorem getChar_empty (h : q.contents = []) : getChar q = (-1, q) := by
  refine if_pos (UInt8.toNat_inj.mp ((Ring.count_eq_zero_iff (n := 128) q.readIndex_lt).mp ?_))
  exact Ring.length_contents.symm.trans (congrArg List.length h)

theorem getChar_cons {c : UInt8} {rest : List UInt8} (h : q.contents = c :: rest) :
    (getChar q).1 = c.toNat ∧ (getChar q).2.contents = rest := by
  have hne : q.readIndex.toNat ≠ q.writeIndex.toNat := fun he => by
    rw [Queue.contents, Ring.contents_eq_nil q.readIndex_lt he] at h
    cases h
  have hpop : q.contents = q.cells q.readIndex.toNat :: _ :=
    Ring.contents_pop q.readIndex_lt q.writeIndex_lt hne
  rw [h, List.cons.injEq] at hpop
  rw [getChar, if_neg fun he => hne (congrArg UInt8.toNat he)]
  constructor
  · rw [hpop.1, Queue.cells, dif_pos q.readIndex_lt]
    rfl
  · rw [hpop.2, Queue.contents, nextIndex_wrap q.readIndex_lt]
    rfl

end

/-! ## The abstract queue -/

/-- A push onto a queue of capacity 127: a full queue drops the newest character. -/
def push (c : UInt8) (l : List UInt8) : List UInt8 := if l.length < 127 then l ++ [c] else l

/-- A get: -1 when the queue is empty, else the oldest character. -/
def pop : List UInt8 → Int × List UInt8
  | [] => (-1, [])
  | c :: rest => (c.toNat, rest)

inductive Operation
  | pushChar (c : UInt8)
  | getChar
  deriving DecidableEq, Repr

/-- What the driver's operations return, and the queue they leave. -/
def run : List Operation → Queue → List Int × Queue
  | [], q => ([], q)
  | .pushChar c :: rest, q => run rest (pushChar c q)
  | .getChar :: rest, q =>
    ((getChar q).1 :: (run rest (getChar q).2).1, (run rest (getChar q).2).2)

/-- The same operations on the abstract queue. -/
def runAbstract : List Operation → List UInt8 → List Int × List UInt8
  | [], l => ([], l)
  | .pushChar c :: rest, l => runAbstract rest (push c l)
  | .getChar :: rest, l =>
    ((pop l).1 :: (runAbstract rest (pop l).2).1, (runAbstract rest (pop l).2).2)

theorem pushChar_simulates (q : Queue) (c : UInt8) :
    (pushChar c q).contents = push c q.contents := by
  have hlt := length_contents_lt q
  by_cases h : q.contents.length < 127
  · rw [contents_pushChar q c h, push, if_pos h]
  · rw [pushChar_full q c (by omega), push, if_neg h]

theorem getChar_simulates (q : Queue) :
    (getChar q).1 = (pop q.contents).1 ∧ (getChar q).2.contents = (pop q.contents).2 := by
  cases h : q.contents with
  | nil =>
    rw [getChar_empty q h]
    exact ⟨rfl, h⟩
  | cons c rest => exact getChar_cons q h

theorem run_simulates (ops : List Operation) :
    ∀ q : Queue, (run ops q).1 = (runAbstract ops q.contents).1 ∧
      (run ops q).2.contents = (runAbstract ops q.contents).2 := by
  induction ops with
  | nil => exact fun q => ⟨rfl, rfl⟩
  | cons o ops ih =>
    intro q
    cases o with
    | pushChar c =>
      rw [run, runAbstract, ← pushChar_simulates]
      exact ih _
    | getChar =>
      obtain ⟨hresult, hrest⟩ := getChar_simulates q
      obtain ⟨hresults, hfinal⟩ := ih (getChar q).2
      rw [hrest] at hresults hfinal
      exact ⟨by rw [run, runAbstract, hresult, hresults], by rw [run, runAbstract, hfinal]⟩

theorem contents_init (k : Driver) : (init k).queue.contents = [] :=
  Ring.contents_eq_nil (show 0 < 128 by decide) rfl

/-- After `eX_Keyboard_Init` every sequence of pushes and gets returns what a queue of capacity 127
returns, and the indices stay below 128. -/
theorem queue_refines (k : Driver) (ops : List Operation) :
    (run ops (init k).queue).1 = (runAbstract ops []).1 ∧
      (run ops (init k).queue).2.contents = (runAbstract ops []).2 ∧
      (run ops (init k).queue).2.readIndex.toNat < 128 ∧
      (run ops (init k).queue).2.writeIndex.toNat < 128 := by
  obtain ⟨hresults, hfinal⟩ := run_simulates ops (init k).queue
  rw [contents_init] at hresults hfinal
  exact ⟨hresults, hfinal, Queue.readIndex_lt _, Queue.writeIndex_lt _⟩

end EyaX.Keyboard
