import EyaX.Console.Format

/-!
# The crash screen

`eX_BugCheck` hands its 64-bit vector and its 64-bit address to `%X`, and `eX_Print` takes an
`unsigned int` for it: the digits on the screen are those of the low halves.
-/

namespace EyaX.Console

open Interrupt Code

/-- `eX_BugCheck`; `exception` is null or leads to the bytes of an object. -/
def bugCheck (exception : Option (List UInt8)) (vector address : UInt64) :
    Code Stop Screen Unit := do
  clear
  print (cString "A problem has occurred and the eyaX kernel halted to protect the computer and the CPU.\n\n") []
  print (cString "%s\n\n") [.pointer exception]
  print (cString "Either your computer has ran out of memory, dosen\x27t have a drive, or this OS is corrupted.\n Take some steps to ensure if your computer is safely configured to run eyaX.\n\n") []
  print (cString "VECTOR 0x%X\n") [.word vector]
  print (cString "STOP 0x%X\n") [.word address]
  print (cString "\nSystem halted. to reinstate the system please reboot the computer.\n") []
  .stop .halt

/-! ## The report -/

/-- A label, digits and a newline. -/
def line (label digits : List UInt8) : List UInt8 := label ++ (digits ++ bytes "\n")

/-- The exception and an empty line; `(null)` for a null pointer. -/
def exceptionLines (exception : Option (List UInt8)) : List UInt8 :=
  shown 's'.toUInt8 (.pointer exception) ++ bytes "\n\n"

/-- What stands above the vector. -/
def heading (exception : Option (List UInt8)) : List UInt8 :=
  bytes "A problem has occurred and the eyaX kernel halted to protect the computer and the CPU.\n\n" ++
    exceptionLines exception ++
    bytes "Either your computer has ran out of memory, dosen\x27t have a drive, or this OS is corrupted.\n Take some steps to ensure if your computer is safely configured to run eyaX.\n\n"

/-- What stands below the address. -/
def footer : List UInt8 :=
  bytes "\nSystem halted. to reinstate the system please reboot the computer.\n"

/-- The report with given digits for the vector and the address. -/
def report (exception : Option (List UInt8)) (vector address : List UInt8) : List UInt8 :=
  heading exception ++ line (bytes "VECTOR 0x") vector ++ line (bytes "STOP 0x") address ++ footer

/-- The digits that `%X` prints for a register. -/
def registerDigits (w : UInt64) : List UInt8 := shown 'X'.toUInt8 (.word w)

theorem print_register {label : List UInt8} (hlabel : plain label = true) (w : UInt64) :
    Prints (print (label ++ bytes "%X\n" ++ [0]) [.word w]) (line label (registerDigits w)) := by
  have hnewline : plain (bytes "\n") = true := by decide
  have hX : Supplies 'X'.toUInt8 (.word w) := by
    show 'X'.toUInt8 ≠ 's'.toUInt8
    decide
  have hprints := print_between hlabel hnewline (c := 'X'.toUInt8) (by decide) hX
  rw [List.append_assoc]
  exact hprints

theorem print_exception {exception : Option (List UInt8)}
    (hexception : Supplies 's'.toUInt8 (.pointer exception)) :
    Prints (print (cString "%s\n\n") [.pointer exception]) (exceptionLines exception) := by
  have hnothing : plain [] = true := rfl
  have hnewlines : plain (bytes "\n\n") = true := by decide
  have hformat : cString "%s\n\n" =
      [] ++ '%'.toUInt8 :: 's'.toUInt8 :: (bytes "\n\n" ++ [0]) := rfl
  rw [hformat]
  exact print_between hnothing hnewlines (by decide) hexception

/-- The report of a call. -/
def crashText (exception : Option (List UInt8)) (vector address : UInt64) : List UInt8 :=
  report exception (registerDigits vector) (registerDigits address)

/-- The code clears the screen, prints the text and halts. -/
def Shows (code : Code Stop Screen Unit) (text : List UInt8) : Prop :=
  code = do
    clear
    text.forM printChar
    .stop .halt

theorem Prints.bind_eq {code k k' : Code Stop Screen Unit} {text : List UInt8}
    (h : Prints code text) (hk : k = k') :
    (code >>= fun _ => k) = (text.forM printChar >>= fun _ => k') := by
  rw [h, hk]

theorem bugCheck_shows {exception : Option (List UInt8)}
    (hexception : Supplies 's'.toUInt8 (.pointer exception)) (vector address : UInt64) :
    Shows (bugCheck exception vector address) (crashText exception vector address) := by
  unfold Shows bugCheck crashText report heading footer
  simp only [forM_append, bind_assoc]
  refine congrArg (clear >>= ·) (funext fun _ => ?_)
  have hvector : cString "VECTOR 0x%X\n" = bytes "VECTOR 0x" ++ bytes "%X\n" ++ [0] := rfl
  have haddress : cString "STOP 0x%X\n" = bytes "STOP 0x" ++ bytes "%X\n" ++ [0] := rfl
  rw [hvector, haddress]
  refine Prints.bind_eq (print_text ?_) (Prints.bind_eq (print_exception hexception)
    (Prints.bind_eq (print_text ?_) (Prints.bind_eq (print_register (by decide) vector)
      (Prints.bind_eq (print_register (by decide) address) (Prints.bind_eq (print_text ?_) rfl)))))
  · apply plain_ofList
    decide +kernel
  · apply plain_ofList
    decide +kernel
  · apply plain_ofList
    decide +kernel

/-! ## What the digits denote -/

/-- The report has hexadecimal digits behind `VECTOR 0x` and `STOP 0x` that denote the vector and
the address. -/
def Denotes (exception : Option (List UInt8)) (text : List UInt8) (vector address : UInt64) :
    Prop :=
  ∃ v a, text = report exception v a ∧ (hexadecimal true).parse v = some vector.toNat ∧
    (hexadecimal true).parse a = some address.toNat

theorem registerDigits_eq (w : UInt64) :
    registerDigits w = (hexadecimal true).numeral (w.toNat % 2 ^ 32) := by
  rw [← UInt64.toNat_toUInt32]
  rfl

theorem parse_registerDigits (w : UInt64) :
    (hexadecimal true).parse (registerDigits w) = some (w.toNat % 2 ^ 32) := by
  rw [registerDigits_eq]
  exact (hexadecimal true).parse_numeral _

theorem before_inj {c : UInt8} {x x' rest rest' : List UInt8} (hx : c ∉ x) (hx' : c ∉ x')
    (h : x ++ c :: rest = x' ++ c :: rest') : x = x' ∧ rest = rest' := by
  have htake : ∀ {y r : List UInt8}, c ∉ y → (y ++ c :: r).takeWhile (· != c) = y := by
    intro y r hy
    rw [List.takeWhile_append_of_pos, List.takeWhile_cons_of_neg (by simp), List.append_nil]
    intro d hd
    exact bne_iff_ne.mpr fun he => hy (he ▸ hd)
  have hfront := congrArg (List.takeWhile (· != c)) h
  rw [htake hx, htake hx'] at hfront
  subst hfront
  rw [List.append_cancel_left_eq, List.cons.injEq] at h
  exact ⟨rfl, h.2⟩

theorem line_inj {label v v' rest rest' : List UInt8} {n n' : Nat}
    (hv : (hexadecimal true).parse v = some n) (hv' : (hexadecimal true).parse v' = some n')
    (h : line label v ++ rest = line label v' ++ rest') : v = v' ∧ rest = rest' := by
  have hnewline : '\n'.toUInt8 ∉ hexDigits true := by decide
  have hmem : ∀ {u : List UInt8} {m : Nat}, (hexadecimal true).parse u = some m →
      '\n'.toUInt8 ∉ u :=
    fun hu hin => hnewline ((hexadecimal true).mem_digits_of_parse hu _ hin)
  have hbytes : bytes "\n" = ['\n'.toUInt8] := rfl
  unfold line at h
  simp only [hbytes, List.append_assoc, List.append_cancel_left_eq, List.singleton_append] at h
  exact before_inj (hmem hv) (hmem hv') h

theorem report_inj {exception : Option (List UInt8)} {v v' a a' : List UInt8} {m m' n n' : Nat}
    (hv : (hexadecimal true).parse v = some m) (hv' : (hexadecimal true).parse v' = some m')
    (ha : (hexadecimal true).parse a = some n) (ha' : (hexadecimal true).parse a' = some n')
    (h : report exception v a = report exception v' a') : v = v' ∧ a = a' := by
  unfold report at h
  simp only [List.append_assoc, List.append_cancel_left_eq] at h
  obtain ⟨hvector, hrest⟩ := line_inj hv hv' h
  exact ⟨hvector, (line_inj ha ha' hrest).1⟩

/-- `eX_BugCheck` shows its report and halts. The digits in the report denote the vector and the
address exactly when both fit into an `unsigned int`, and two addresses have one `STOP` line exactly
when their low halves agree. -/
theorem crashText_denotes_iff (exception : Option (List UInt8))
    (hexception : Supplies 's'.toUInt8 (.pointer exception)) (vector address : UInt64) :
    Shows (bugCheck exception vector address) (crashText exception vector address) ∧
    (Denotes exception (crashText exception vector address) vector address ↔
      vector.toNat < 2 ^ 32 ∧ address.toNat < 2 ^ 32) ∧
    ∀ other : UInt64, line (bytes "STOP 0x") (registerDigits address) =
        line (bytes "STOP 0x") (registerDigits other) ↔
      address.toNat % 2 ^ 32 = other.toNat % 2 ^ 32 := by
  have hvector := parse_registerDigits vector
  have haddress := parse_registerDigits address
  refine ⟨bugCheck_shows hexception vector address, ⟨?_, ?_⟩, fun other => ⟨fun h => ?_, fun h => ?_⟩⟩
  · intro ⟨v, a, htext, hv, ha⟩
    obtain ⟨rfl, rfl⟩ := report_inj hvector hv haddress ha htext
    rw [hvector] at hv
    rw [haddress] at ha
    have hv' := Option.some.inj hv
    have ha' := Option.some.inj ha
    omega
  · intro ⟨hv, ha⟩
    refine ⟨registerDigits vector, registerDigits address, rfl, ?_, ?_⟩
    · rw [hvector, Nat.mod_eq_of_lt hv]
    · rw [haddress, Nat.mod_eq_of_lt ha]
  · have hother := parse_registerDigits other
    have hdigits := (line_inj haddress hother (congrArg (· ++ []) h)).1
    rw [hdigits, hother] at haddress
    exact (Option.some.inj haddress).symm
  · rw [registerDigits_eq address, registerDigits_eq other, h]

theorem crashText_pageFault :
    Denotes (some (cString "Page Fault")) (crashText (some (cString "Page Fault")) 14 4096) 14 4096 := by
  have hexception : Supplies 's'.toUInt8 (.pointer (some (cString "Page Fault"))) :=
    ⟨rfl, by decide⟩
  exact (crashText_denotes_iff (some (cString "Page Fault")) hexception 14 4096).2.1.mpr
    (by decide)

theorem crashText_misleads :
    ¬ (∀ (exception : Option (List UInt8)) (vector address : UInt64),
      Supplies 's'.toUInt8 (.pointer exception) →
      Denotes exception (crashText exception vector address) vector address) ∧
    crashText none 14 0x100000000 = crashText none 14 0 := by
  have hsame : registerDigits 0x100000000 = registerDigits 0 := by
    rw [registerDigits_eq, registerDigits_eq]
    rfl
  refine ⟨fun h => ?_, ?_⟩
  · obtain ⟨v, a, htext, hv, ha⟩ := h none 14 0x100000000 rfl
    have haddress := parse_registerDigits 0x100000000
    obtain ⟨-, rfl⟩ := report_inj (parse_registerDigits 14) hv haddress ha htext
    rw [haddress] at ha
    exact absurd ha (by decide)
  · unfold crashText
    rw [hsame]

end EyaX.Console
