import EyaX.Console.BugCheck
import EyaX.Console.Layout

/-!
# The crash screen on the framebuffer

The report of `eX_BugCheck` is twelve lines, the last of them empty. The longest line of the report
itself has ninety characters, so the whole report needs a screen of 720 by 88 pixels; the console
does not wrap, and on a smaller screen `eX_BugCheck` writes beside it before it halts.
-/

namespace EyaX.Console

open Interrupt Code

/-- `eX_PageFaultHandler`; `cr2` is the address in the register `CR2`. -/
def pageFaultHandler (cr2 : UInt64) : Code Stop Screen Unit :=
  bugCheck (some (cString "Page Fault")) 0x0E cr2

/-- `eX_InvalidOpcodeHandler`. -/
def invalidOpcodeHandler : Code Stop Screen Unit :=
  bugCheck (some (cString "Invalid Opcode")) 6 0

/-! ## Lines of a report -/

/-- A line of characters that all have a glyph. -/
def IsLine (text : List UInt8) : Prop := ∀ c ∈ text, c < 128 ∧ c ≠ '\n'.toUInt8

theorem IsLine.not_mem {text : List UInt8} (h : IsLine text) : '\n'.toUInt8 ∉ text :=
  fun hmem => (h _ hmem).2 rfl

theorem IsLine.append {a b : List UInt8} (ha : IsLine a) (hb : IsLine b) : IsLine (a ++ b) :=
  List.forall_mem_append.mpr ⟨ha, hb⟩

theorem isLine_ofList {l : List Char} (h : (l.map Char.toUInt8).all (fun c => c < 128 && c != 10) = true) :
    IsLine (bytes (String.ofList l)) := by
  rw [bytes, String.toList_ofList]
  intro c hc
  have hall := List.all_eq_true.mp h c hc
  rw [Bool.and_eq_true, decide_eq_true_eq, bne_iff_ne] at hall
  exact hall

theorem length_ofList (l : List Char) : (bytes (String.ofList l)).length = l.length := by
  rw [bytes, String.toList_ofList, List.length_map]

theorem bytes_cut {a b l : List Char} (h : l = a ++ b) :
    bytes (String.ofList l) = bytes (String.ofList a) ++ bytes (String.ofList b) := by
  simp only [bytes, String.toList_ofList, h, List.map_append]

theorem IsLine.fits_iff {text : List UInt8} (h : IsLine text) (width height row : Nat) :
    LineFits width height row 0 text ↔
      text.length = 0 ∨ 8 * text.length ≤ width ∧ 8 * row + 8 ≤ height := by
  constructor
  · intro hfits
    by_cases hnil : text = []
    · exact .inl (List.length_eq_zero_iff.mpr hnil)
    · have hpos := List.length_pos_iff.mpr hnil
      have hlast : text[text.length - 1]? = some (text.getLast hnil) := by
        rw [← List.getLast?_eq_getElem?, List.getLast?_eq_some_getLast hnil]
      have hcell := hfits _ _ hlast (h _ (List.getLast_mem hnil)).1
      omega
  · intro hroom i c hc hlt
    have hi := (List.getElem?_eq_some_iff.mp hc).1
    omega

/-! ## The lines of the report -/

def problemLine : List UInt8 :=
  bytes "A problem has occurred and the eyaX kernel halted to protect the computer and the CPU."

def causeLine : List UInt8 :=
  bytes "Either your computer has ran out of memory, dosen\x27t have a drive, or this OS is corrupted."

def adviceLine : List UInt8 :=
  bytes " Take some steps to ensure if your computer is safely configured to run eyaX."

def haltedLine : List UInt8 :=
  bytes "System halted. to reinstate the system please reboot the computer."

@[simp] theorem problemLine_length : problemLine.length = 86 := length_ofList _

@[simp] theorem causeLine_length : causeLine.length = 90 := length_ofList _

@[simp] theorem adviceLine_length : adviceLine.length = 77 := length_ofList _

@[simp] theorem haltedLine_length : haltedLine.length = 66 := length_ofList _

/-- The lines of the report. -/
def crashLines (message : List UInt8) (vector address : UInt64) : List (List UInt8) :=
  [problemLine, [], message, [], causeLine, adviceLine, [], bytes "VECTOR 0x" ++ registerDigits vector,
    bytes "STOP 0x" ++ registerDigits address, [], haltedLine, []]

theorem isLine_registerDigits (w : UInt64) : IsLine (registerDigits w) := by
  intro c hc
  have hdigits : IsLine (bytes "0123456789ABCDEF") := isLine_ofList (by decide)
  exact hdigits c ((hexadecimal true).mem_digits_of_parse (parse_registerDigits w) c hc)

theorem registerDigits_length (w : UInt64) : (registerDigits w).length ≤ 8 := by
  rw [registerDigits_eq]
  have hlt : w.toNat % 2 ^ 32 < (hexadecimal true).base ^ (7 + 1) := by
    rw [hexadecimal_base]
    omega
  exact (hexadecimal true).numeral_length_le hlt

theorem isLine_crashLines {message : List UInt8} (hmessage : IsLine message)
    (vector address : UInt64) : ∀ line ∈ crashLines message vector address, IsLine line := by
  have hnil : IsLine [] := fun _ h => by cases h
  have hvector : IsLine (bytes "VECTOR 0x" ++ registerDigits vector) :=
    IsLine.append (isLine_ofList (by decide)) (isLine_registerDigits vector)
  have haddress : IsLine (bytes "STOP 0x" ++ registerDigits address) :=
    IsLine.append (isLine_ofList (by decide)) (isLine_registerDigits address)
  simp only [crashLines, List.forall_mem_cons]
  refine ⟨?_, hnil, hmessage, hnil, ?_, ?_, hnil, hvector, haddress, hnil, ?_, hnil,
    fun _ h => by cases h⟩
  all_goals
    apply isLine_ofList
    decide +kernel

set_option maxRecDepth 1000 in
theorem heading_eq {message : List UInt8} (hnul : ∀ c ∈ message, c ≠ 0) (rest : List UInt8) :
    heading (some (message ++ 0 :: rest)) =
      problemLine ++ bytes "\n" ++ bytes "\n" ++ message ++ bytes "\n" ++ bytes "\n" ++
        causeLine ++ bytes "\n" ++ adviceLine ++ bytes "\n" ++ bytes "\n" := by
  have hshown : shown 's'.toUInt8 (.pointer (some (message ++ 0 :: rest))) = message := by
    show (message ++ 0 :: rest).takeWhile (· != 0) = message
    rw [List.takeWhile_append_of_pos fun c hc => bne_iff_ne.mpr (hnul c hc),
      List.takeWhile_cons_of_neg (by simp), List.append_nil]
  have hproblem : bytes "A problem has occurred and the eyaX kernel halted to protect the computer and the CPU.\n\n" =
      problemLine ++ bytes "\n\n" := bytes_cut (by decide +kernel)
  have hcause : bytes "Either your computer has ran out of memory, dosen\x27t have a drive, or this OS is corrupted.\n Take some steps to ensure if your computer is safely configured to run eyaX.\n\n" =
      causeLine ++ bytes "\n Take some steps to ensure if your computer is safely configured to run eyaX.\n\n" :=
    bytes_cut (by decide +kernel)
  have hadvice : bytes "\n Take some steps to ensure if your computer is safely configured to run eyaX.\n\n" =
      bytes "\n" ++ bytes " Take some steps to ensure if your computer is safely configured to run eyaX.\n\n" :=
    bytes_cut (by decide +kernel)
  have hadvice' : bytes " Take some steps to ensure if your computer is safely configured to run eyaX.\n\n" =
      adviceLine ++ bytes "\n\n" := bytes_cut (by decide +kernel)
  have hnewlines : bytes "\n\n" = bytes "\n" ++ bytes "\n" := rfl
  unfold heading exceptionLines
  rw [hshown, hproblem, hcause, hadvice, hadvice', hnewlines]
  simp only [List.append_assoc]

theorem footer_eq : footer = bytes "\n" ++ haltedLine ++ bytes "\n" := by
  have hhalted : bytes "\nSystem halted. to reinstate the system please reboot the computer.\n" =
      bytes "\n" ++ bytes "System halted. to reinstate the system please reboot the computer.\n" :=
    bytes_cut (by decide +kernel)
  have hnewline : bytes "System halted. to reinstate the system please reboot the computer.\n" =
      haltedLine ++ bytes "\n" := bytes_cut (by decide +kernel)
  rw [footer, hhalted, hnewline, List.append_assoc]

-- For any lines: the kernel is not to evaluate the literals.
theorem joined_report (problem message cause advice vector stop halted : List UInt8) :
    joined [problem, [], message, [], cause, advice, [], vector, stop, [], halted, []] =
      problem ++ ['\n'.toUInt8] ++ ['\n'.toUInt8] ++ message ++ ['\n'.toUInt8] ++ ['\n'.toUInt8] ++
        cause ++ ['\n'.toUInt8] ++ advice ++ ['\n'.toUInt8] ++ ['\n'.toUInt8] ++
        (vector ++ ['\n'.toUInt8]) ++ (stop ++ ['\n'.toUInt8]) ++
        (['\n'.toUInt8] ++ halted ++ ['\n'.toUInt8]) := by
  simp only [joined_cons_cons, joined_singleton, List.append_assoc, List.nil_append,
    List.cons_append]

theorem joined_report_length (problem message cause advice vector stop halted : List UInt8) :
    (joined [problem, [], message, [], cause, advice, [], vector, stop, [], halted, []]).length =
      problem.length + message.length + cause.length + advice.length + vector.length +
        stop.length + halted.length + 11 := by
  rw [joined_report]
  simp only [List.length_append, List.length_singleton]
  omega

theorem joined_crashLines {message : List UInt8} (hnul : ∀ c ∈ message, c ≠ 0)
    (vector address : UInt64) (rest : List UInt8) :
    joined (crashLines message vector address) =
      crashText (some (message ++ 0 :: rest)) vector address := by
  have hnewline : bytes "\n" = ['\n'.toUInt8] := rfl
  rw [crashLines, joined_report, crashText, report, heading_eq hnul, footer_eq, line, line, hnewline,
    List.append_assoc (bytes "VECTOR 0x"), List.append_assoc (bytes "STOP 0x")]

theorem crashText_length_lt {message : List UInt8} (hnul : ∀ c ∈ message, c ≠ 0)
    (hlength : message.length < 2 ^ 60) (rest : List UInt8) (vector address : UInt64) :
    (crashText (some (message ++ 0 :: rest)) vector address).length < 2 ^ 61 := by
  have hvector := registerDigits_length vector
  have haddress := registerDigits_length address
  have hlabels : (bytes "VECTOR 0x").length = 9 ∧ (bytes "STOP 0x").length = 7 := ⟨rfl, rfl⟩
  rw [← joined_crashLines hnul, crashLines, joined_report_length, problemLine_length,
    causeLine_length, adviceLine_length, haltedLine_length, List.length_append, List.length_append,
    hlabels.1, hlabels.2]
  omega

section report

variable {message : List UInt8} (hmessage : IsLine message) (vector address : UInt64)

include hmessage

theorem linesOf_crashText (hnul : ∀ c ∈ message, c ≠ 0) (rest : List UInt8) :
    linesOf (crashText (some (message ++ 0 :: rest)) vector address) =
      crashLines message vector address := by
  rw [← joined_crashLines hnul]
  refine List.splitOn_intercalate _ ?_ (List.cons_ne_nil _ _)
  exact fun line hline => (isLine_crashLines hmessage vector address line hline).not_mem

/-- The report fits exactly on a screen with room for its longest line and its eleven lines above
the cursor. -/
theorem crashLines_fit_iff (width height : Nat) :
    LinesFit width height 0 (crashLines message vector address) ↔
      8 * max 90 message.length ≤ width ∧ 88 ≤ height := by
  have hvector := registerDigits_length vector
  have haddress := registerDigits_length address
  have hlines := isLine_crashLines hmessage vector address
  simp only [crashLines, List.forall_mem_cons] at hlines
  obtain ⟨h₀, hnil, -, -, h₄, h₅, -, h₇, h₈, -, h₁₀, -, -⟩ := hlines
  have hend : ∀ first, LinesFit width height first [] := fun first j line hline => by cases hline
  simp only [crashLines, linesFit_cons, h₀.fits_iff, hnil.fits_iff, hmessage.fits_iff, h₄.fits_iff,
    h₅.fits_iff, h₇.fits_iff, h₈.fits_iff, h₁₀.fits_iff, List.length_append, problemLine_length,
    causeLine_length, adviceLine_length, haltedLine_length, List.length_nil, hend, and_true, true_or, true_and]
  rw [show (bytes "VECTOR 0x").length = 9 from rfl, show (bytes "STOP 0x").length = 7 from rfl]
  omega

end report

/-! ## The handlers -/

theorem Shows.stops {code : Code Stop Screen Unit} {text : List UInt8} (h : Shows code text)
    (s : Screen) : code.Stops .halt s (s.afterClear.afterText text) := by
  rw [h]
  exact Stops.after (Stops.after (stops_stop _ _) (run_text text _)) (run_clear s)

/-- The code halts. It draws beside the screen unless the report fits on it, and then the screen
shows the lines of the report and nothing else. -/
def Crashes (code : Code Stop Screen Unit) (message : List UInt8) (vector address : UInt64)
    (s : Screen) : Prop :=
  ∃ s' drawn, code.Stops .halt s s' ∧ s'.plots = s.plots ++ drawn ∧
    ((∀ p ∈ drawn, s.Visible p) ↔
      8 * max 90 message.length ≤ s.width.toNat ∧ 88 ≤ s.height.toNat) ∧
    (8 * max 90 message.length ≤ s.width.toNat → 88 ≤ s.height.toNat →
      Paints s' (layout (crashLines message vector address)))

theorem bugCheck_crashes {s : Screen} (h : Addressable s) {message : List UInt8}
    (hmessage : IsLine message) (hnul : ∀ c ∈ message, c ≠ 0) (hlength : message.length < 2 ^ 60)
    (rest : List UInt8) (vector address : UInt64) :
    Crashes (bugCheck (some (message ++ 0 :: rest)) vector address) message vector address s := by
  have hsupplies : Supplies 's'.toUInt8 (.pointer (some (message ++ 0 :: rest))) :=
    ⟨rfl, by simp⟩
  have hshows := bugCheck_shows hsupplies vector address
  have hlines := linesOf_crashText hmessage vector address hnul rest
  have hfit := crashLines_fit_iff hmessage vector address s.width.toNat s.height.toNat
  have htext := crashText_length_lt hnul hlength rest vector address
  obtain ⟨drawn, hplots, hdrawn⟩ := exists_drawn_text htext s
  rw [hlines, hfit] at hdrawn
  refine ⟨_, drawn, hshows.stops s, hplots, hdrawn, fun hwidth hheight => ?_⟩
  have hdisplays := displays_text htext h (hlines ▸ hfit.mpr ⟨hwidth, hheight⟩)
  rw [← hlines]
  exact hdisplays.pixels

/-- On an addressable screen, whatever it shows, `eX_BugCheck` and with it the two handlers of
exceptions halt with the report on the screen, if it is at least 720 by 88 pixels large and the
exception's name fits; on every smaller screen they write beside it. -/
theorem crash_displays (s : Screen) (h : Addressable s) :
    (∀ message rest vector address, IsLine message → (∀ c ∈ message, c ≠ 0) →
      message.length < 2 ^ 60 →
      Crashes (bugCheck (some (message ++ 0 :: rest)) vector address) message vector address s) ∧
    (∀ cr2, Crashes (pageFaultHandler cr2) (bytes "Page Fault") 0x0E cr2 s) ∧
    Crashes invalidOpcodeHandler (bytes "Invalid Opcode") 6 0 s := by
  refine ⟨fun message rest vector address hmessage hnul hlength =>
    bugCheck_crashes h hmessage hnul hlength rest vector address, fun cr2 => ?_, ?_⟩
  · exact bugCheck_crashes h (isLine_ofList (by decide)) (ne_zero_of_all rfl) (by decide) [] _ _
  · exact bugCheck_crashes h (isLine_ofList (by decide)) (ne_zero_of_all rfl) (by decide) [] _ _

theorem crash_displays_720 : Crashes (pageFaultHandler 0xFFFF8000DEADBEEF) (bytes "Page Fault") 0x0E
    0xFFFF8000DEADBEEF (blank 720 88 2880) :=
  (crash_displays (blank 720 88 2880) ⟨by decide, by decide⟩).2.1 _

end EyaX.Console
