import EyaX.Kernel.Boot
import EyaX.Kernel.Gates
import EyaX.Lib.ByteSet
import EyaX.Lib.Fold

/-!
# Unmasking interrupt lines

`eX_PIC_UnmaskIRQ` clears one bit of one of the two masks. What a sequence of its calls lets through
is the union of what was let through before and the lines that were named, except that a line of the
slave also needs the cascade. No call installs a descriptor, so a request on any line that was let
through, other than the timer's, stops the machine. Together with `eX_IDT_SetGate` in whatever
order, each line leads to the handler that its vector was given last.
-/

namespace EyaX.Kernel

open Console Shell

/-! ## `eX_PIC_UnmaskIRQ` -/

/-- `mask & (uint8_t)~(1 << bit)`. -/
def clearBit (mask bit : UInt8) : UInt8 := mask &&& (~~~((1 : UInt32) <<< bit.toUInt32)).toUInt8

def unmaskIRQ (irq : UInt8) (k : System) : System :=
  if irq < 8 then outb 0x21 (clearBit (inb 0x21 k) irq) k
  else if irq < 16 then outb 0xA1 (clearBit (inb 0xA1 k) (irq - 8)) k
  else k

/-! ## One mask -/

theorem clearBit_eq (mask : UInt8) {bit : UInt8} (h : bit.toNat < 8) :
    clearBit mask bit = mask &&& ~~~ByteSet.mask bit.toNat := by
  have hbit : bit.toUInt32 = UInt32.ofNat (bit.toNat % 8) := by
    rw [Nat.mod_eq_of_lt h, ← UInt32.toNat_inj, UInt32.toNat_ofNat_of_lt' (Nat.lt_trans h (by decide))]
    exact UInt8.toNat_toUInt32 bit
  unfold clearBit
  rw [hbit, (ByteSet.mask_promoted bit.toNat).2]

theorem unmasked_iff_bit (p : Pic) (n : Fin 8) :
    p.Unmasked n ↔ p.mask.toBitVec.getLsbD (n.val % 8) = false := by
  have hmask : (1 : UInt8) <<< UInt8.ofNat n = ByteSet.mask n.val := by
    unfold ByteSet.mask
    rw [Nat.mod_eq_of_lt n.isLt]
  unfold Pic.Unmasked
  rw [hmask, ← ByteSet.and_mask_ne_zero, bne_eq_false_iff_eq]

theorem unmasked_clearBit (p : Pic) {bit : UInt8} (h : bit.toNat < 8) (n : Fin 8) :
    Pic.Unmasked { p with mask := clearBit p.mask bit } n ↔ n.val = bit.toNat ∨ p.Unmasked n := by
  have hbyte : n.val / 8 = bit.toNat / 8 := by
    rw [Nat.div_eq_of_lt n.isLt, Nat.div_eq_of_lt h]
  rw [unmasked_iff_bit, unmasked_iff_bit, clearBit_eq p.mask h]
  dsimp only
  rw [ByteSet.getLsbD_and_mask p.mask hbyte]
  simp only [Bool.and_eq_false_iff, Bool.not_eq_false', decide_eq_true_eq]

/-! ## The controllers -/

/-- The controllers are programmed, whatever their masks are. -/
structure Wired (k : System) : Prop where
  master : k.master.awaiting = .mask ∧ k.master.base = 0x20
  slave : k.slave.awaiting = .mask ∧ k.slave.base = 0x28

theorem Ready.wired {handlers : Handlers} {k : System} (h : Ready handlers k) : Wired k where
  master := by rw [h.master]; exact ⟨rfl, rfl⟩
  slave := by rw [h.slave]; exact ⟨rfl, rfl⟩

theorem data_mask {p : Pic} (h : p.awaiting = .mask) (value : UInt8) :
    p.data value = { p with mask := value } := by
  obtain ⟨awaiting, single, modeNeeded, base, wiring, mode, mask⟩ := p
  obtain rfl : awaiting = .mask := h
  rfl

/-- The number of a line. -/
def Line.irq : Line → Nat
  | .master n => n.val
  | .slave n => n.val + 8

/-- The mask bit of a line is clear, whatever the cascade's is. -/
def System.LetThrough (k : System) : Line → Prop
  | .master n => k.master.Unmasked n
  | .slave n => k.slave.Unmasked n

/-- The system with other masks in its controllers, the master's first. -/
def System.withMasks (masks : UInt8 × UInt8) (k : System) : System :=
  { k with master := { k.master with mask := masks.1 }, slave := { k.slave with mask := masks.2 } }

section calls

variable {k : System} (h : Wired k)

include h

theorem unmaskIRQ_eq (irq : UInt8) :
    unmaskIRQ irq k =
      if irq < 8 then { k with master := { k.master with mask := clearBit k.master.mask irq } }
      else if irq < 16 then
        { k with slave := { k.slave with mask := clearBit k.slave.mask (irq - 8) } }
      else k := by
  rw [← data_mask h.master.1, ← data_mask h.slave.1]
  rfl

theorem unmaskIRQ_masks (irq : UInt8) : ∃ masks, unmaskIRQ irq k = k.withMasks masks := by
  rw [unmaskIRQ_eq h irq]
  split_ifs
  · exact ⟨(clearBit k.master.mask irq, k.slave.mask), rfl⟩
  · exact ⟨(k.master.mask, clearBit k.slave.mask (irq - 8)), rfl⟩
  · exact ⟨(k.master.mask, k.slave.mask), rfl⟩

theorem unmaskIRQ_spec (irq : UInt8) :
    Wired (unmaskIRQ irq k) ∧
      ∀ line, (unmaskIRQ irq k).LetThrough line ↔ line.irq = irq.toNat ∨ k.LetThrough line := by
  rw [unmaskIRQ_eq h irq]
  by_cases hmaster : irq < 8
  · have hlt : irq.toNat < 8 := UInt8.lt_iff_toNat_lt.mp hmaster
    rw [if_pos hmaster]
    refine ⟨⟨h.master, h.slave⟩, fun line => ?_⟩
    cases line with
    | master n => exact unmasked_clearBit k.master hlt n
    | slave n => exact (or_iff_right (show ¬ n.val + 8 = irq.toNat by omega)).symm
  have hge : 8 ≤ irq.toNat := UInt8.le_iff_toNat_le.mp (UInt8.not_lt.mp hmaster)
  rw [if_neg hmaster]
  by_cases hslave : irq < 16
  · have hlt : irq.toNat < 16 := UInt8.lt_iff_toNat_lt.mp hslave
    have hbit : (irq - 8).toNat = irq.toNat - 8 :=
      UInt8.toNat_sub_of_le _ _ (UInt8.le_iff_toNat_le.mpr hge)
    rw [if_pos hslave]
    refine ⟨⟨h.master, h.slave⟩, fun line => ?_⟩
    cases line with
    | master n => exact (or_iff_right (show ¬ n.val = irq.toNat by omega)).symm
    | slave n =>
      refine (unmasked_clearBit k.slave (by omega) n).trans (or_congr ?_ Iff.rfl)
      show n.val = (irq - 8).toNat ↔ n.val + 8 = irq.toNat
      omega
  · have hge' : 16 ≤ irq.toNat := UInt8.le_iff_toNat_le.mp (UInt8.not_lt.mp hslave)
    rw [if_neg hslave]
    refine ⟨h, fun line => ?_⟩
    have hnone : ¬ line.irq = irq.toNat := by
      cases line with
      | master n => exact Nat.ne_of_lt (Nat.lt_of_lt_of_le n.isLt (by omega))
      | slave n =>
        show ¬ n.val + 8 = irq.toNat
        omega
    exact (or_iff_right hnone).symm

end calls

/-! ## Sequences of calls -/

/-- A call that changes where requests go. -/
inductive Change
  | setGate (vector : UInt8) (handler : UInt64)
  | unmaskIRQ (irq : UInt8)

def Change.run (k : System) : Change → System
  | .setGate vector handler => Kernel.setGate vector handler k
  | .unmaskIRQ irq => Kernel.unmaskIRQ irq k

def Change.write : Change → Option (UInt8 × UInt64)
  | .setGate vector handler => some (vector, handler)
  | .unmaskIRQ _ => none

def Change.irq : Change → Option UInt8
  | .setGate _ _ => none
  | .unmaskIRQ irq => some irq

def configure (changes : List Change) (k : System) : System := changes.foldl Change.run k

/-- The lines that the calls name. -/
def named (changes : List Change) : List UInt8 := changes.filterMap Change.irq

/-- The handler that the calls leave at a vector. -/
def assigned (changes : List Change) (vector : UInt8) : Option UInt64 :=
  Fold.lastWrite vector (changes.filterMap Change.write)

theorem Change.run_spec {k : System} (h : Wired k) (change : Change) :
    Wired (change.run k) ∧ (change.run k).timerTicks = k.timerTicks ∧
      ∀ line, (change.run k).LetThrough line ↔
        line.irq ∈ (named [change]).map UInt8.toNat ∨ k.LetThrough line := by
  cases change with
  | setGate vector handler =>
    refine ⟨⟨h.master, h.slave⟩, rfl, fun line => ?_⟩
    cases line <;> exact (or_iff_right List.not_mem_nil).symm
  | unmaskIRQ irq =>
    obtain ⟨masks, hmasks⟩ := unmaskIRQ_masks h irq
    obtain ⟨hwired, hlines⟩ := unmaskIRQ_spec h irq
    have hticks : (Kernel.unmaskIRQ irq k).timerTicks = k.timerTicks := by
      rw [hmasks]
      rfl
    exact ⟨hwired, hticks, fun line => (hlines line).trans (or_congr List.mem_singleton.symm Iff.rfl)⟩

theorem Change.gate_run {k : System} (h : Wired k) (change : Change) (vector : UInt8) :
    (change.run k).gate vector =
      ((Fold.lastWrite vector change.write.toList).map gateOf).getD (k.gate vector) := by
  cases change with
  | setGate v handler =>
    refine (gate_setGate v vector handler k).trans ?_
    by_cases hv : vector = v
    · rw [if_pos hv]
      simp [Change.write, Fold.lastWrite, hv]
    · rw [if_neg hv]
      simp [Change.write, Fold.lastWrite, Ne.symm hv]
  | unmaskIRQ irq =>
    show (Kernel.unmaskIRQ irq k).gate vector = k.gate vector
    obtain ⟨masks, hmasks⟩ := unmaskIRQ_masks h irq
    rw [hmasks]
    rfl

/-- What a sequence of calls of both functions leaves in the controllers, in whatever order they
come. -/
theorem configure_spec (changes : List Change) :
    ∀ {k : System}, Wired k →
      Wired (configure changes k) ∧ (configure changes k).timerTicks = k.timerTicks ∧
      ∀ line, (configure changes k).LetThrough line ↔
        line.irq ∈ (named changes).map UInt8.toNat ∨ k.LetThrough line := by
  induction changes with
  | nil => exact fun {k} h => ⟨h, rfl, fun line => (or_iff_right List.not_mem_nil).symm⟩
  | cons change changes ih =>
    intro k h
    obtain ⟨hwired, hticks, hline⟩ := change.run_spec h
    obtain ⟨hlast, hsame, hlines⟩ := ih hwired
    have hnamed : named (change :: changes) = named [change] ++ named changes :=
      List.filterMap_append (l := [change])
    refine ⟨hlast, hsame.trans hticks, fun line => ?_⟩
    rw [hnamed, List.map_append, List.mem_append, or_assoc, or_left_comm, ← hline]
    exact hlines line

theorem gate_configure {k : System} (h : Wired k) (changes : List Change) (vector : UInt8) :
    (configure changes k).gate vector =
      ((assigned changes vector).map gateOf).getD (k.gate vector) :=
  Fold.foldl_lastWrite (fun _ change h => (change.run_spec h).1)
    (fun _ change vector h => change.gate_run h vector) changes vector k h

/-- A sequence of calls of `eX_PIC_UnmaskIRQ`. -/
def unmaskAll (irqs : List UInt8) (k : System) : System := irqs.foldl (fun k irq => unmaskIRQ irq k) k

theorem unmaskAll_eq (irqs : List UInt8) (k : System) :
    unmaskAll irqs k = configure (irqs.map .unmaskIRQ) k := by
  rw [configure, List.foldl_map]
  rfl

theorem unmaskAll_masks (irqs : List UInt8) :
    ∀ {k : System}, Wired k → ∃ masks, unmaskAll irqs k = k.withMasks masks := by
  induction irqs with
  | nil => exact fun {k} _ => ⟨(k.master.mask, k.slave.mask), rfl⟩
  | cons irq irqs ih =>
    intro k h
    obtain ⟨masks, hfirst⟩ := unmaskIRQ_masks h irq
    obtain ⟨masks', hrest⟩ := ih (unmaskIRQ_spec h irq).1
    refine ⟨masks', hrest.trans ?_⟩
    rw [hfirst]
    rfl

/-! ## Requests -/

/-- After these calls a request on the line is delivered. -/
def Opened (irqs : List UInt8) (line : Line) : Prop :=
  match line with
  | .master n => n.val ∈ irqs.map UInt8.toNat ∨ n.val = 0 ∨ n.val = 1
  | .slave n => n.val + 8 ∈ irqs.map UInt8.toNat ∧ 2 ∈ irqs.map UInt8.toNat

theorem Wired.present_iff {k : System} (h : Wired k) (handlers : Handlers) (line : Line) :
    (installed handlers (k.vector line)).Present ↔ line = .master 0 := by
  have hmaster : ∀ n : Fin 8, (0x20 + UInt8.ofNat n = 0x06 ∨ 0x20 + UInt8.ofNat n = 0x0E ∨
      0x20 + UInt8.ofNat n = 0x20) ↔ n = 0 := by decide
  have hslave : ∀ n : Fin 8, ¬ (0x28 + UInt8.ofNat n = 0x06 ∨ 0x28 + UInt8.ofNat n = 0x0E ∨
      0x28 + UInt8.ofNat n = 0x20) := by decide
  rw [installed_present_iff]
  unfold System.vector
  cases line with
  | master n =>
    dsimp only
    rw [h.master.2, hmaster, Line.master.injEq]
  | slave n =>
    dsimp only
    rw [h.slave.2]
    exact iff_of_false (hslave n) fun he => Line.noConfusion he

theorem Wired.vector_eq {k : System} (h : Wired k) (line : Line) :
    k.vector line = UInt8.ofNat (0x20 + line.irq) := by
  have hmaster : ∀ n : Fin 8, 0x20 + UInt8.ofNat n = UInt8.ofNat (0x20 + n.val) := by decide
  have hslave : ∀ n : Fin 8, 0x28 + UInt8.ofNat n = UInt8.ofNat (0x20 + (n.val + 8)) := by decide
  unfold System.vector
  cases line with
  | master n =>
    dsimp only
    rw [h.master.2, hmaster]
    rfl
  | slave n =>
    dsimp only
    rw [h.slave.2, hslave]
    rfl

theorem Ready.opened_iff {handlers : Handlers} {k : System} (h : Ready handlers k)
    (changes : List Change) (line : Line) :
    (configure changes k).Unmasked line ↔ Opened (named changes) line := by
  obtain ⟨-, -, hlines⟩ := configure_spec changes h.wired
  have hmaster : ∀ n : Fin 8, k.LetThrough (.master n) ↔ n = 0 ∨ n = 1 := fun n => by
    have hready := h.unmasked_iff (.master n)
    rw [Line.master.injEq, Line.master.injEq] at hready
    exact hready
  have hslave : ∀ n : Fin 8, ¬ k.LetThrough (.slave n) := by
    have hfull : ∀ n : Fin 8, ¬ Pic.Unmasked ⟨.mask, false, true, 0x28, 0x02, 0x01, 0xFF⟩ n := by
      decide
    intro n hn
    change k.slave.Unmasked n at hn
    rw [h.slave] at hn
    exact hfull n hn
  cases line with
  | master n =>
    refine (hlines (.master n)).trans ?_
    rw [hmaster, Fin.ext_iff, Fin.ext_iff]
    exact Iff.rfl
  | slave n =>
    refine and_congr ((hlines (.slave n)).trans (or_iff_left (hslave n))) ?_
    refine (hlines (.master 2)).trans ?_
    rw [hmaster]
    exact or_iff_left (by decide)

/-- From the end of the boot sequence on, whatever sequence of calls of `eX_IDT_SetGate` and
`eX_PIC_UnmaskIRQ` follows: a line is let through if it is named or one of the two that were, those
of the slave only with the cascade, and its requests go to the handler that its vector was given
last; without one, only the timer's line has a descriptor. -/
theorem configure_delivers {handlers : Handlers} {k : System} (h : Ready handlers k)
    (changes : List Change) (line : Line) :
    (configure changes k).timerTicks = k.timerTicks ∧
      (configure changes k).vector line = UInt8.ofNat (0x20 + line.irq) ∧
      ((configure changes k).Unmasked line ↔ Opened (named changes) line) ∧
      (∀ handler, assigned changes (UInt8.ofNat (0x20 + line.irq)) = some handler →
        ((configure changes k).gate ((configure changes k).vector line)).Present ∧
        ((configure changes k).gate ((configure changes k).vector line)).address = handler) ∧
      (assigned changes (UInt8.ofNat (0x20 + line.irq)) = none →
        (((configure changes k).gate ((configure changes k).vector line)).Present ↔
          line = .master 0)) := by
  obtain ⟨hwired, hticks, -⟩ := configure_spec changes h.wired
  have hvector := hwired.vector_eq line
  refine ⟨hticks, hvector, h.opened_iff changes line, fun handler hassigned => ?_, fun hnone => ?_⟩
  · rw [gate_configure h.wired, hvector, hassigned]
    exact ⟨gateOf_present handler, gateOf_address handler⟩
  · rw [← hwired.present_iff handlers line, gate_configure h.wired, hvector, hnone,
      ← h.gate]
    rfl

theorem configure_delivers_keyboard : ∃ k, Ready handlers k ∧
    ((configure [.unmaskIRQ 1, .setGate 0x21 0xFFFFFFFF80001300] k).gate 0x21).address =
      0xFFFFFFFF80001300 := by
  obtain ⟨-, k, -, hready⟩ := setUp_ready handlers (blank 64 64 256) atBoot
  obtain ⟨-, hvector, -, hgate, -⟩ := configure_delivers hready
    [.unmaskIRQ 1, .setGate 0x21 0xFFFFFFFF80001300] (.master 1)
  have haddress := (hgate 0xFFFFFFFF80001300 rfl).2
  rw [hvector] at haddress
  exact ⟨k, hready, haddress⟩

theorem named_unmask (irqs : List UInt8) : named (irqs.map .unmaskIRQ) = irqs := by
  rw [named, List.filterMap_map]
  exact List.filterMap_some

/-- From the end of the boot sequence on, a sequence of calls of `eX_PIC_UnmaskIRQ` lets exactly the
named lines through beside the timer's and the keyboard's, those of the slave only if the cascade is
named too; nothing changes but the two masks, and a request stops the machine exactly if it is on
such a line and is not the timer's. -/
theorem unmaskIRQ_requests {handlers : Handlers} {k : System} (h : Ready handlers k)
    (irqs : List UInt8) (line : Line) (m : Machine) :
    ((unmaskAll irqs k).Unmasked line ↔ Opened irqs line) ∧
      (∃ masks, unmaskAll irqs k = k.withMasks masks) ∧
      (unmaskAll irqs k).timerTicks = k.timerTicks ∧
      (∀ vector, (unmaskAll irqs k).gate vector = k.gate vector) ∧
      (request handlers line m (unmaskAll irqs k) = .error .halt ↔
        Opened irqs line ∧ line ≠ .master 0) := by
  have hopened := h.opened_iff (irqs.map .unmaskIRQ) line
  have hwired := (configure_spec (irqs.map .unmaskIRQ) h.wired).1
  rw [named_unmask, ← unmaskAll_eq] at hopened
  rw [← unmaskAll_eq] at hwired
  obtain ⟨masks, hmasks⟩ := unmaskAll_masks irqs h.wired
  have hticks : (unmaskAll irqs k).timerTicks = k.timerTicks := by
    rw [hmasks]
    rfl
  have hgate : ∀ vector, (unmaskAll irqs k).gate vector = k.gate vector := by
    rw [hmasks]
    exact fun _ => rfl
  refine ⟨hopened, ⟨masks, hmasks⟩, hticks, hgate, ?_⟩
  have hinstalled : ∀ vector, (unmaskAll irqs k).gate vector = installed handlers vector :=
    fun vector => (hgate vector).trans (h.gate vector)
  rw [← hopened]
  unfold request
  by_cases hunmasked : (unmaskAll irqs k).Unmasked line
  · rw [if_pos hunmasked]
    refine Iff.trans ?_ (and_iff_right hunmasked).symm
    by_cases htimer : line = .master 0
    · have hvector : (unmaskAll irqs k).vector (.master 0) = 0x20 := hwired.vector_eq (.master 0)
      subst htimer
      rw [hvector, interrupt_timer (hinstalled 0x20), timerHandler_eq]
      refine iff_of_false (fun he => ?_) fun hne => hne rfl
      cases he
    · have hempty : ¬ ((unmaskAll irqs k).gate ((unmaskAll irqs k).vector line)).Present :=
        fun hpresent => htimer ((hwired.present_iff handlers line).mp (hinstalled _ ▸ hpresent))
      unfold interrupt
      rw [if_neg fun hboth => hempty hboth.1]
      exact iff_of_true rfl htimer
  · rw [if_neg hunmasked]
    refine iff_of_false (fun he => ?_) fun hboth => hunmasked hboth.1
    cases he

theorem unmaskIRQ_requests_mouse : ∃ k, Ready handlers k ∧
    request handlers (.slave 4) Shell.boot (unmaskAll [12] k) = .ok (Shell.boot, unmaskAll [12] k) ∧
    request handlers (.slave 4) Shell.boot (unmaskAll [2, 12] k) = .error .halt := by
  obtain ⟨-, k, -, hready⟩ := setUp_ready handlers (blank 64 64 256) atBoot
  obtain ⟨hmasked, -⟩ := unmaskIRQ_requests hready [12] (.slave 4) Shell.boot
  obtain ⟨-, -, -, -, hstops⟩ := unmaskIRQ_requests hready [2, 12] (.slave 4) Shell.boot
  refine ⟨k, hready, ?_, hstops.mpr ⟨⟨by decide, by decide⟩, by decide⟩⟩
  have hclosed : ¬ Opened [12] (.slave 4) := fun hopened => absurd hopened.2 (by decide)
  unfold request
  rw [if_neg fun hunmasked => hclosed (hmasked.mp hunmasked)]
  rfl

end EyaX.Kernel
