import EyaX.Kernel.Timer
import EyaX.Shell.Refinement

/-!
# The loop of `kmain` under interrupts

Once the descriptors are installed, the controllers are programmed and the first tick is over, a
request on any line either only counts a tick, or is masked, or is the keyboard's, which no run
survives. So `kmain` ends under any requests at any moments where it ends without them, and the tick
count has grown by the number of the timer's requests.
-/

namespace EyaX.Kernel

open Interrupt Code Console Shell Keyboard

/-! ## One request -/

theorem Ready.request_keyboard {handlers : Handlers} {k : System} (hready : Ready handlers k)
    (m : Machine) : Kernel.request handlers (.master 1) m k = .error .halt := by
  have hunmasked : k.Unmasked (.master 1) := (hready.unmasked_iff _).mpr (.inr rfl)
  have hempty : ¬ (k.gate (k.vector (.master 1))).Present := fun h =>
    (hready.present_iff hunmasked).mp h rfl
  unfold Kernel.request Kernel.interrupt
  rw [if_pos hunmasked, if_neg fun h => hempty h.1]
  rfl

theorem Ready.request_tick {handlers : Handlers} {k : System} (hready : Ready handlers k)
    (hlater : k.timerTicks + 1 ≠ 1) (m : Machine) :
    Kernel.request handlers (.master 0) m k = .ok (m, { k with timerTicks := k.timerTicks + 1 }) := by
  have hunmasked : k.Unmasked (.master 0) := (hready.unmasked_iff _).mpr (.inl rfl)
  have hvector : k.vector (.master 0) = 0x20 := hready.vector_master 0
  unfold Kernel.request
  rw [if_pos hunmasked, hvector, interrupt_timer (hready.gate 0x20), timerHandler_eq, if_neg hlater]
  rfl

theorem Ready.request_masked {handlers : Handlers} {k : System} (hready : Ready handlers k)
    {line : Line} (htimer : line ≠ .master 0) (hkeyboard : line ≠ .master 1) (m : Machine) :
    Kernel.request handlers line m k = .ok (m, k) := by
  unfold Kernel.request
  rw [if_neg fun h => ((hready.unmasked_iff line).mp h).elim htimer hkeyboard]
  rfl

/-! ## Requests to come -/

def Line.isTimer : Line → Bool
  | .master n => n.val == 0
  | .slave _ => false

/-- The requests of the timer among `lines`. -/
def ticks (lines : List Line) : Nat := lines.countP Line.isTimer

theorem isTimer_iff {line : Line} : line.isTimer = true ↔ line = .master 0 := by
  cases line with
  | master n => exact beq_iff_eq.trans (Fin.val_eq_zero_iff.trans (Line.master.injEq n 0).symm.to_iff)
  | slave n => exact ⟨fun h => absurd h Bool.false_ne_true, fun h => nomatch h⟩

theorem ticks_cons (line : Line) (lines : List Line) :
    ticks (line :: lines) = ticks lines + if line = .master 0 then 1 else 0 := by
  unfold ticks
  rw [List.countP_cons]
  simp only [isTimer_iff]

/-- The first tick is over, and at the end of the requests to come the count is `last`, which it can
hold. -/
structure Counts (handlers : Handlers) (last : Nat) (lines : List Line) (k : System) : Prop where
  ready : Ready handlers k
  first : 1 ≤ k.timerTicks.toNat
  last_eq : k.timerTicks.toNat + ticks lines = last
  last_lt : last < 2 ^ 64

theorem Counts.request {handlers : Handlers} {last : Nat} {line : Line} {lines : List Line}
    {m m₁ : Machine} {k k₁ : System} (h : Counts handlers last (line :: lines) k)
    (hrequest : Kernel.request handlers line m k = .ok (m₁, k₁)) :
    m₁ = m ∧ Counts handlers last lines k₁ := by
  have hlast := h.last_eq
  have hlt := h.last_lt
  rw [ticks_cons] at hlast
  by_cases htimer : line = .master 0
  · subst htimer
    rw [if_pos rfl] at hlast
    have hsucc : (k.timerTicks + 1).toNat = k.timerTicks.toNat + 1 := toNat_succ (by omega)
    have hlater : k.timerTicks + 1 ≠ 1 := fun he => by
      have hone : (k.timerTicks + 1).toNat = 1 := congrArg UInt64.toNat he
      have hfirst := h.first
      omega
    have hready := h.ready.request hrequest
    rw [h.ready.request_tick hlater] at hrequest
    cases hrequest
    refine ⟨rfl, hready, ?_, ?_, hlt⟩
    · show 1 ≤ (k.timerTicks + 1).toNat
      omega
    · show (k.timerTicks + 1).toNat + ticks lines = last
      omega
  · by_cases hkeyboard : line = .master 1
    · rw [hkeyboard, h.ready.request_keyboard] at hrequest
      cases hrequest
    · rw [h.ready.request_masked htimer hkeyboard] at hrequest
      cases hrequest
      rw [if_neg htimer] at hlast
      exact ⟨rfl, h.ready, h.first, by omega, hlt⟩

/-! ## Every run -/

theorem no_keyboard_request {α : Type} {handlers : Handlers} {lines : List Line}
    {c c' : Code Stop Machine α} {m m' : Machine} {k k' : System} (hready : Ready handlers k)
    (h : Steps (request handlers) lines c m k c' m' k') : .master 1 ∉ lines := by
  intro hmem
  refine h.demanded (J := Ready handlers) (P := fun line => line ≠ .master 1) ?_ hready _ hmem rfl
  intro line m k m₁ k₁ hk hrequest
  refine ⟨fun hkeyboard => ?_, hk.request hrequest⟩
  rw [hkeyboard, hk.request_keyboard] at hrequest
  cases hrequest

/-- Under requests on any lines at any moments, a run of `kmain` from `sti` on that ends has done
what the transducer from batches to calls does, as without them; each request of the timer is one
tick, and the keyboard's line made none. -/
theorem kmain_refines_under_requests {handlers : Handlers} {batches : List (List UInt8)}
    {lines : List Line} {m m' : Machine} {k k' : System} (hready : Ready handlers k)
    (hfirst : 1 ≤ k.timerTicks.toNat) (hticks : k.timerTicks.toNat + ticks lines < 2 ^ 64)
    (hempty : m.keyboard.queue.contents = [])
    (h : Steps (request handlers) lines (afterSti batches) m k (.ret ()) m' k') :
    Reached batches m.keyboard.modifiers m m' ∧ .master 1 ∉ lines ∧ Ready handlers k' ∧
      k'.timerTicks.toNat = k.timerTicks.toNat + ticks lines := by
  have hcounts : Counts handlers _ (lines ++ []) k :=
    ⟨hready, hfirst, rfl, by rw [List.append_nil]; exact hticks⟩
  obtain ⟨hrun, hlast⟩ := h.undisturbed (fun _ _ _ _ _ _ hc hr => hc.request hr) hcounts
  obtain ⟨m₁, hend, hreached⟩ := run_afterSti hempty batches
  rw [hend] at hrun
  obtain rfl := (Prod.mk.inj (Except.ok.inj hrun)).2
  have hcount := hlast.last_eq
  rw [List.append_nil] at hcount
  exact ⟨hreached, no_keyboard_request hready h, hlast.ready, hcount⟩

end EyaX.Kernel
