import EyaX.Kernel.Basic
import EyaX.Shell.Loop

/-!
# Which interrupts have a handler

After `setUp` three descriptors are present, those of vectors `0x06`, `0x0E` and `0x20`, and two
lines are unmasked, those of vectors `0x20` and `0x21`. Nothing after `sti` changes either. So the
timer's requests are handled in every run, and the first request of the keyboard's line goes through
an empty descriptor.
-/

namespace EyaX.Kernel

open Interrupt Console Shell

/-! ## Descriptors -/

/-- The descriptor that `eX_IDT_SetGate` writes. -/
def gateOf (handler : UInt64) : IDTEntry where
  offsetLow := (handler &&& 0xFFFF).toUInt16
  selector := 0x08
  ist := 0
  typeAttr := 0x8E
  offsetMid := ((handler >>> 16) &&& 0xFFFF).toUInt16
  offsetHigh := ((handler >>> 32) &&& 0xFFFFFFFF).toUInt32
  zero := 0

theorem gateOf_present (handler : UInt64) : (gateOf handler).Present := by
  show (0x8E : UInt8) &&& 0x80 ≠ 0
  decide

theorem gateOf_address (handler : UInt64) : (gateOf handler).address = handler := by
  have hword : ∀ j (hj : j < 64), (0xFFFF#64)[j] = decide (j < 16) := by decide
  have hhigh : ∀ j (hj : j < 64), (0xFFFFFFFF#64)[j] = decide (j < 32) := by decide
  unfold IDTEntry.address gateOf
  apply UInt64.toBitVec_inj.mp
  simp only [UInt64.toBitVec_or, UInt64.toBitVec_shiftLeft, UInt16.toBitVec_toUInt64,
    UInt64.toBitVec_toUInt16, UInt64.toBitVec_and, UInt32.toBitVec_toUInt64,
    UInt64.toBitVec_toUInt32, UInt64.toBitVec_shiftRight]
  ext i hi
  simp only [UInt64.toBitVec_ofNat, BitVec.setWidth_and, Nat.reduceLeDiff,
    BitVec.setWidth_ofNat_of_le, Nat.reducePow, Nat.lt_add_one, BitVec.setWidth_ofNat_of_le_of_lt,
    BitVec.ofNat_eq_ofNat, BitVec.reduceMod, BitVec.ushiftRight_eq', BitVec.toNat_ofNat,
    Nat.reduceMod, BitVec.shiftLeft_eq', BitVec.getElem_or, BitVec.getElem_and,
    BitVec.getElem_setWidth, BitVec.getLsbD_setWidth, BitVec.getElem_shiftLeft,
    BitVec.getLsbD_ushiftRight]
  by_cases hlow : i < 16
  · simp [hlow, show i < 32 by omega, hword, BitVec.getLsbD_eq_getElem hi]
  by_cases hmid : i < 32
  · simp [hlow, hmid, show i - 16 < 16 by omega, show 16 + (i - 16) = i by omega, hword,
      BitVec.getLsbD_eq_getElem hi]
  · simp [hlow, hmid, show ¬ i - 16 < 16 by omega, show i - 32 < 32 by omega,
      show 32 + (i - 32) = i by omega, hhigh, BitVec.getLsbD_eq_getElem hi]

theorem gate_setGate (v w : UInt8) (handler : UInt64) (k : System) :
    (setGate v handler k).gate w = if w = v then gateOf handler else k.gate w := by
  unfold System.gate setGate
  by_cases hw : w = v
  · subst hw
    rw [if_pos rfl]
    exact Vector.getElem_set_self _
  · rw [if_neg hw]
    exact Vector.getElem_set_ne v.toNat_lt w.toNat_lt fun he => hw (UInt8.toNat_inj.mp he.symm)

theorem get_cleared (idt : Vector IDTEntry 256) (i : Fin 256) :
    ((List.finRange 256).foldl clearEntry idt).get i = IDTEntry.empty := by
  have hloop : ∀ (l : List (Fin 256)) (idt : Vector IDTEntry 256),
      i ∈ l ∨ idt.get i = IDTEntry.empty →
      (l.foldl clearEntry idt).get i = IDTEntry.empty := by
    intro l
    induction l with
    | nil => exact fun idt h => h.resolve_left List.not_mem_nil
    | cons j l ih =>
      intro idt h
      apply ih
      by_cases hj : j = i
      · right
        subst hj
        exact Vector.getElem_set_self _
      · rcases h with hmem | hempty
        · exact .inl ((List.mem_cons.mp hmem).resolve_left (Ne.symm hj))
        · right
          exact (Vector.getElem_set_ne j.isLt i.isLt fun he => hj (Fin.ext he)).trans hempty
  exact hloop _ idt (.inl (List.mem_finRange i))

/-- The descriptors after `eX_IDT_Init`. -/
def installed (handlers : Handlers) (vector : UInt8) : IDTEntry :=
  if vector = 0x0E then gateOf handlers.pageFault
  else if vector = 0x20 then gateOf handlers.timer
  else if vector = 0x06 then gateOf handlers.invalidOpcode
  else IDTEntry.empty

theorem gate_idtInit (handlers : Handlers) (k : System) (vector : UInt8) :
    (idtInit handlers k).gate vector = installed handlers vector := by
  unfold idtInit installed
  rw [gate_setGate, gate_setGate, gate_setGate, System.gate, get_cleared]

theorem installed_present_iff (handlers : Handlers) (vector : UInt8) :
    (installed handlers vector).Present ↔ vector = 0x06 ∨ vector = 0x0E ∨ vector = 0x20 := by
  unfold installed
  split_ifs with hpage htimer hopcode
  · simp [gateOf_present, hpage]
  · simp [gateOf_present, htimer]
  · simp [gateOf_present, hopcode]
  · simp [hpage, htimer, hopcode, IDTEntry.Present, IDTEntry.empty]

/-! ## After `setUp` -/

/-- The descriptors are installed and the controllers are programmed. -/
structure Ready (handlers : Handlers) (k : System) : Prop where
  gate : ∀ vector, k.gate vector = installed handlers vector
  master : k.master = ⟨.mask, false, true, 0x20, 0x04, 0x01, 0xFC⟩
  slave : k.slave = ⟨.mask, false, true, 0x28, 0x02, 0x01, 0xFF⟩

theorem timerHandler_eq (screen : Screen) (k : System) :
    timerHandler screen k =
      .ok (if k.timerTicks + 1 = 1 then screen.afterText (bytes "IRQ0 FIRED!\n") else screen,
        { k with timerTicks := k.timerTicks + 1 }) := by
  unfold timerHandler
  by_cases hfirst : k.timerTicks + 1 = 1
  · rw [if_pos hfirst, if_pos hfirst, run_print_text (by decide)]
    rfl
  · rw [if_neg hfirst, if_neg hfirst]
    rfl

theorem interrupt_timer {handlers : Handlers} {k : System}
    (hgate : k.gate 0x20 = installed handlers 0x20) (screen : Screen) :
    interrupt handlers 0x20 screen k = timerHandler screen k := by
  have htimer : k.gate 0x20 = gateOf handlers.timer := hgate
  unfold interrupt
  rw [htimer, if_pos ⟨gateOf_present _, gateOf_address _⟩]

theorem setUp_ready (handlers : Handlers) (screen : Screen) (k : System) :
    ∃ screen' k', setUp handlers screen k = .ok (screen', k') ∧ Ready handlers k' := by
  have hgate := gate_idtInit handlers k
  simp only [setUp, interrupt_timer (hgate 0x20), timerHandler_eq, Exec.ok_bind]
  generalize idtInit handlers k = k₁ at hgate
  exact ⟨_, _, rfl, hgate, rfl, rfl⟩

/-! ## Runs -/

section

variable {handlers : Handlers} {k : System} (hready : Ready handlers k)

include hready

theorem Ready.unmasked_iff (line : Line) :
    k.Unmasked line ↔ line = .master 0 ∨ line = .master 1 := by
  have hmaster : ∀ n : Fin 8, Pic.Unmasked ⟨.mask, false, true, 0x20, 0x04, 0x01, 0xFC⟩ n ↔
      n = 0 ∨ n = 1 := by decide
  have hslave : ∀ n : Fin 8, ¬ Pic.Unmasked ⟨.mask, false, true, 0x28, 0x02, 0x01, 0xFF⟩ n := by
    decide
  cases line with
  | master n =>
    show k.master.Unmasked n ↔ _
    rw [hready.master, hmaster, Line.master.injEq, Line.master.injEq]
  | slave n =>
    show k.slave.Unmasked n ∧ k.master.Unmasked 2 ↔ _
    rw [hready.slave]
    simp [hslave n]

theorem Ready.vector_master (n : Fin 8) : k.vector (.master n) = 0x20 + UInt8.ofNat n := by
  unfold System.vector
  rw [hready.master]

/-- The timer's line has a descriptor, the keyboard's line has none. -/
theorem Ready.present_iff {line : Line} (hline : k.Unmasked line) :
    (k.gate (k.vector line)).Present ↔ line ≠ .master 1 := by
  rw [hready.gate, installed_present_iff]
  rcases (hready.unmasked_iff line).mp hline with rfl | rfl
  · rw [hready.vector_master]
    decide
  · rw [hready.vector_master]
    decide

theorem Ready.interrupt {vector : UInt8} {screen screen' : Screen} {k' : System}
    (h : interrupt handlers vector screen k = .ok (screen', k')) : Ready handlers k' := by
  unfold Kernel.interrupt at h
  split_ifs at h
  rw [timerHandler_eq] at h
  cases h
  exact ⟨hready.gate, hready.master, hready.slave⟩

theorem Ready.request {line : Line} {m m' : Machine} {k' : System}
    (h : request handlers line m k = .ok (m', k')) : Ready handlers k' := by
  unfold Kernel.request at h
  split_ifs at h
  · obtain ⟨⟨screen, k₁⟩, hinterrupt, hrest⟩ := Exec.bind_eq_ok.mp h
    cases hrest
    exact hready.interrupt hinterrupt
  · cases h
    exact hready

theorem Ready.request_timer (m : Machine) :
    ∃ m' k', Kernel.request handlers (.master 0) m k = .ok (m', k') := by
  have hunmasked : k.Unmasked (.master 0) := (hready.unmasked_iff _).mpr (.inl rfl)
  have hvector : k.vector (.master 0) = 0x20 := hready.vector_master 0
  unfold Kernel.request
  rw [if_pos hunmasked, hvector, interrupt_timer (hready.gate 0x20), timerHandler_eq]
  exact ⟨_, _, rfl⟩

end

theorem steps_timer {α : Type} {handlers : Handlers} (c : Code Stop Machine α) {lines : List Line}
    (hlines : ∀ line ∈ lines, line = .master 0) :
    ∀ (m : Machine) (k : System), Ready handlers k →
      ∃ m' k', Steps (request handlers) lines c m k c m' k' := by
  induction lines with
  | nil => exact fun m k _ => ⟨m, k, .refl⟩
  | cons line lines ih =>
    intro m k hready
    obtain rfl := hlines line (by simp)
    obtain ⟨m₁, k₁, hrequest⟩ := hready.request_timer m
    obtain ⟨m', k', hsteps⟩ := ih (fun l hl => hlines l (by simp [hl])) m₁ k₁ (hready.request hrequest)
    exact ⟨m', k', .interrupt hrequest hsteps⟩

/-- In every run of `kmain` from `sti` on in which the requests of `lines` arrive in this order, at
whatever moments, each goes through a present descriptor. -/
def NoEmptyGate (handlers : Handlers) (batches : List (List UInt8)) (m : Machine) (k : System)
    (lines : List Line) : Prop :=
  ∀ before line after, lines = before ++ line :: after →
    ∀ c m' k', Steps (request handlers) before (afterSti batches) m k c m' k' →
      (k'.gate (k'.vector line)).Present

/-- After `setUp`, the requests of a run on unmasked lines all have a handler exactly when none of
them is the keyboard's. -/
theorem noEmptyGate_iff {handlers : Handlers} {screen₀ screen : Screen} {k₀ k : System}
    (hsetUp : setUp handlers screen₀ k₀ = .ok (screen, k)) (batches : List (List UInt8))
    (m : Machine) (lines : List Line) (hlines : ∀ line ∈ lines, k.Unmasked line) :
    NoEmptyGate handlers batches m k lines ↔ .master 1 ∉ lines := by
  obtain ⟨screen', k', hsetUp', hready⟩ := setUp_ready handlers screen₀ k₀
  obtain ⟨-, rfl⟩ := Prod.mk.inj (Except.ok.inj (hsetUp'.symm.trans hsetUp))
  constructor
  · intro h hmem
    obtain ⟨before, after, hsplit, hfirst⟩ := List.eq_append_cons_of_mem hmem
    have htimer : ∀ line ∈ before, line = .master 0 := fun line hline => by
      have hunmasked := hlines line (by rw [hsplit]; exact List.mem_append_left _ hline)
      refine ((hready.unmasked_iff line).mp hunmasked).resolve_right fun he => hfirst ?_
      exact he ▸ hline
    obtain ⟨m₁, k₁, hsteps⟩ := steps_timer (afterSti batches) htimer m k' hready
    have hready₁ := hsteps.invariant (fun _ _ _ _ _ hr h => Ready.request hr h) hready
    have hunmasked : k₁.Unmasked (.master 1) := (hready₁.unmasked_iff _).mpr (.inr rfl)
    exact (hready₁.present_iff hunmasked).mp (h before _ after hsplit _ m₁ k₁ hsteps) rfl
  · intro hnot before line after hsplit c m₁ k₁ hsteps
    have hmem : line ∈ lines := by
      rw [hsplit]
      exact List.mem_append_right _ (List.mem_cons_self ..)
    have hready₁ := hsteps.invariant (fun _ _ _ _ _ hr h => Ready.request hr h) hready
    have hunmasked : k₁.Unmasked line :=
      (hready₁.unmasked_iff line).mpr ((hready.unmasked_iff line).mp (hlines line hmem))
    exact (hready₁.present_iff hunmasked).mpr fun he => hnot (he ▸ hmem)

/-- Before `eX_IDT_Init`: the table is zero, the controllers are as the firmware left them. -/
def atBoot : System where
  timerTicks := 0
  idt := Vector.replicate 256 IDTEntry.empty
  master := ⟨.mask, false, true, 0x08, 0x04, 0x01, 0xFF⟩
  slave := ⟨.mask, false, true, 0x70, 0x02, 0x01, 0xFF⟩

def handlers : Handlers := ⟨0xFFFFFFFF80001000, 0xFFFFFFFF80001100, 0xFFFFFFFF80001200⟩

theorem noEmptyGate_ten_ticks :
    ∃ screen k, setUp handlers (blank 64 64 256) atBoot = .ok (screen, k) ∧
      NoEmptyGate handlers [[0x1E]] Shell.boot k (List.replicate 10 (.master 0)) := by
  obtain ⟨screen, k, hsetUp, hready⟩ := setUp_ready handlers (blank 64 64 256) atBoot
  refine ⟨screen, k, hsetUp, (noEmptyGate_iff hsetUp _ _ _ fun line hline => ?_).mpr (by simp)⟩
  exact (hready.unmasked_iff line).mpr (.inl (List.eq_of_mem_replicate hline))

/-- The first key pressed while its line is unmasked goes through the empty descriptor `0x21`. -/
theorem noEmptyGate_fails :
    ¬ ∀ (handlers : Handlers) (screen₀ screen : Screen) (k₀ k : System),
      setUp handlers screen₀ k₀ = .ok (screen, k) → ∀ (batches : List (List UInt8)) (m : Machine)
        (lines : List Line), (∀ line ∈ lines, k.Unmasked line) → NoEmptyGate handlers batches m k lines := by
  intro h
  obtain ⟨screen, k, hsetUp, hready⟩ := setUp_ready handlers (blank 64 64 256) atBoot
  have hunmasked : k.Unmasked (.master 1) := (hready.unmasked_iff _).mpr (.inr rfl)
  have hgates := h handlers _ screen _ k hsetUp [] Shell.boot [.master 1] (by simpa using hunmasked)
  exact (hready.present_iff hunmasked).mp (hgates [] _ [] rfl _ _ _ .refl) rfl

end EyaX.Kernel
