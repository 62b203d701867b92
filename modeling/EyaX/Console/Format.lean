import EyaX.Console.Numbers

/-!
# What `eX_Print` makes of a format

A format is a string of characters and conversions; each conversion that takes an argument takes the
next one. `eX_Print` finds the conversions by stepping over the character behind every `%` it meets,
so it stays inside the format exactly when that character is never the terminating NUL.
-/

namespace EyaX.Console

open Interrupt Code

/-! ## Formats -/

/-- The conversions that take an argument. -/
def takesArgument (c : UInt8) : Bool := (bytes "csduxX").contains c

/-- The conversions of a format that take an argument, in order. -/
def conversions : List UInt8 → List UInt8
  | c :: d :: text =>
    if c ≠ '%'.toUInt8 then conversions (d :: text)
    else if takesArgument d then d :: conversions text
    else conversions text
  | _ => []

/-- The argument is what the conversion asks for: a pointer that is null or leads to a string for
`%s`, and a word for the others. -/
def Supplies (c : UInt8) : Argument → Prop
  | .word _ => c ≠ 's'.toUInt8
  | .pointer none => c = 's'.toUInt8
  | .pointer (some object) => c = 's'.toUInt8 ∧ 0 ∈ object

/-- What a conversion prints for its argument. -/
def shown (c : UInt8) : Argument → List UInt8
  | .word w =>
    if c = 'c'.toUInt8 then [w.toUInt32.toUInt8]
    else if c = 'd'.toUInt8 then signed w.toUInt32.toInt32.toInt
    else if c = 'u'.toUInt8 then decimal.numeral w.toUInt32.toNat
    else (hexadecimal (c == 'X'.toUInt8)).numeral w.toUInt32.toNat
  | .pointer none => bytes "(null)"
  | .pointer (some object) => object.takeWhile (· != 0)

/-- What a conversion without an argument prints: a single `%` for `%%`, and itself if it is
unknown. -/
def shownPlain (c : UInt8) : List UInt8 :=
  if c = '%'.toUInt8 then ['%'.toUInt8] else ['%'.toUInt8, c]

/-- What a format prints with its arguments. -/
def expand : List UInt8 → List Argument → List UInt8
  | c :: d :: text, args =>
    if c ≠ '%'.toUInt8 then c :: expand (d :: text) args
    else if takesArgument d then
      match args with
      | [] => []
      | a :: args => shown d a ++ expand text args
    else shownPlain d ++ expand text args
  | text, _ => text

/-- The number of `%` directly before the end of the format. -/
def trailing (text : List UInt8) : Nat := (text.reverse.takeWhile (· == '%'.toUInt8)).length

/-! ## One conversion -/

theorem takesArgument_iff {c : UInt8} : takesArgument c = true ↔
    c = 'c'.toUInt8 ∨ c = 's'.toUInt8 ∨ c = 'd'.toUInt8 ∨ c = 'u'.toUInt8 ∨ c = 'x'.toUInt8 ∨
      c = 'X'.toUInt8 := by
  simp [takesArgument, bytes]

theorem printString_prints {object : List UInt8} (h : 0 ∈ object) :
    Prints (printString object) (object.takeWhile (· != 0)) := by
  induction object with
  | nil => exact absurd h List.not_mem_nil
  | cons c object ih =>
    rw [printString]
    by_cases hc : c = 0
    · rw [if_pos hc, hc]
      rfl
    · have hmem : 0 ∈ object := (List.mem_cons.mp h).resolve_left (Ne.symm hc)
      rw [if_neg hc, List.takeWhile_cons_of_pos (by simpa using hc)]
      exact (printChar_prints c).append (ih hmem)

theorem conversion_eq {c : UInt8} (hc : takesArgument c = true) {a : Argument}
    (ha : Supplies c a) (args : List Argument) :
    ∃ code, Prints code (shown c a) ∧
      conversion c (a :: args) = (code >>= fun _ => pure args) := by
  cases a with
  | word w =>
    have hunsigned : w.toUInt32.toUInt64.toNat = w.toUInt32.toNat := UInt32.toNat_toUInt64 _
    rcases takesArgument_iff.mp hc with rfl | rfl | rfl | rfl | rfl | rfl
    · exact ⟨_, printChar_prints w.toUInt32.toUInt8, rfl⟩
    · exact absurd rfl ha
    · refine ⟨_, ?_, rfl⟩
      have hprints := printNumberSigned_prints w.toUInt32.toInt32.toInt64
      rw [Int32.toInt_toInt64] at hprints
      exact hprints
    · refine ⟨_, ?_, rfl⟩
      have hprints := printNumberUnsigned_decimal w.toUInt32.toUInt64 false
      rw [hunsigned] at hprints
      exact hprints
    · refine ⟨_, ?_, rfl⟩
      have hprints := printNumberUnsigned_hexadecimal w.toUInt32.toUInt64 false
      rw [hunsigned] at hprints
      exact hprints
    · refine ⟨_, ?_, rfl⟩
      have hprints := printNumberUnsigned_hexadecimal w.toUInt32.toUInt64 true
      rw [hunsigned] at hprints
      exact hprints
  | pointer p =>
    cases p with
    | none =>
      obtain rfl : c = 's'.toUInt8 := ha
      have hnul : 0 ∈ cString "(null)" := by decide
      exact ⟨_, printString_prints hnul, rfl⟩
    | some object =>
      obtain ⟨rfl, hnul⟩ := ha
      exact ⟨_, printString_prints hnul, rfl⟩

theorem conversion_nil {c : UInt8} (hc : takesArgument c = true) :
    conversion c [] = .stop .outOfBounds := by
  rcases takesArgument_iff.mp hc with rfl | rfl | rfl | rfl | rfl | rfl <;> rfl

theorem conversion_plain {c : UInt8} (hc : ¬ takesArgument c = true) (args : List Argument) :
    ∃ code, Prints code (shownPlain c) ∧ conversion c args = (code >>= fun _ => pure args) := by
  rw [takesArgument_iff] at hc
  simp only [not_or] at hc
  obtain ⟨hchar, hstring, hsigned, hunsigned, hlower, hupper⟩ := hc
  unfold conversion shownPlain
  by_cases hpercent : c = '%'.toUInt8
  · rw [if_pos hpercent, if_pos hpercent]
    exact ⟨_, printChar_prints '%'.toUInt8, rfl⟩
  · rw [if_neg hpercent, if_neg hpercent, if_neg hchar, if_neg hstring, if_neg hsigned,
      if_neg hunsigned, if_neg hlower, if_neg hupper]
    refine ⟨_, (printChar_prints '%'.toUInt8).append (printChar_prints c), ?_⟩
    rw [bind_assoc]

/-! ## The loop -/

theorem print_char {c : UInt8} (hnul : c ≠ 0) (hpercent : c ≠ '%'.toUInt8) (format : List UInt8)
    (args : List Argument) :
    print (c :: format) args = (printChar c >>= fun _ => print format args) := by
  rw [print_cons, if_neg hnul, if_pos hpercent]

theorem print_percent (c : UInt8) (format : List UInt8) (args : List Argument) :
    print ('%'.toUInt8 :: c :: format) args = (conversion c args >>= print format) := by
  rw [print_cons, if_neg (by decide), if_neg (by decide)]

theorem print_conversion {c : UInt8} (hc : takesArgument c = true) {a : Argument}
    (ha : Supplies c a) (format : List UInt8) (args : List Argument) :
    ∃ code, Prints code (shown c a) ∧
      print ('%'.toUInt8 :: c :: format) (a :: args) = (code >>= fun _ => print format args) := by
  obtain ⟨code, hprints, heq⟩ := conversion_eq hc ha args
  refine ⟨code, hprints, ?_⟩
  rw [print_percent, heq, bind_assoc]
  rfl

theorem print_plain {c : UInt8} (hc : ¬ takesArgument c = true) (format : List UInt8)
    (args : List Argument) :
    ∃ code, Prints code (shownPlain c) ∧
      print ('%'.toUInt8 :: c :: format) args = (code >>= fun _ => print format args) := by
  obtain ⟨code, hprints, heq⟩ := conversion_plain hc args
  refine ⟨code, hprints, ?_⟩
  rw [print_percent, heq, bind_assoc]
  rfl

/-! ## Formats with at most one conversion -/

/-- A literal is the list of its characters; to evaluate it otherwise is to decode its UTF-8. -/
theorem plain_ofList {l : List Char} (h : plain (l.map Char.toUInt8) = true) :
    plain (bytes (String.ofList l)) = true := by
  rw [bytes, String.toList_ofList]
  exact h

theorem print_text {text : List UInt8} (h : plain text = true) :
    Prints (print (text ++ [0]) []) text := by
  induction text with
  | nil =>
    rw [List.nil_append, print_cons, if_pos rfl]
    exact pure_prints
  | cons c text ih =>
    obtain ⟨⟨hnul, hpercent⟩, htext⟩ := plain_cons.mp h
    rw [List.cons_append, print_char hnul hpercent]
    exact (printChar_prints c).append (ih htext)

theorem print_between {front back : List UInt8} (hfront : plain front = true)
    (hback : plain back = true) {c : UInt8} (hc : takesArgument c = true) {a : Argument}
    (ha : Supplies c a) :
    Prints (print (front ++ '%'.toUInt8 :: c :: (back ++ [0])) [a]) (front ++ (shown c a ++ back)) := by
  induction front with
  | nil =>
    obtain ⟨code, hcode, heq⟩ := print_conversion hc ha (back ++ [0]) []
    rw [List.nil_append, heq]
    exact hcode.append (print_text hback)
  | cons d front ih =>
    obtain ⟨⟨hnul, hpercent⟩, htext⟩ := plain_cons.mp hfront
    rw [List.cons_append, print_char hnul hpercent]
    exact (printChar_prints d).append (ih htext)

/-! ## The end of the format -/

theorem trailing_cons (c : UInt8) (text : List UInt8) : trailing (c :: text) =
    if c = '%'.toUInt8 ∧ trailing text = text.length then trailing text + 1 else trailing text := by
  unfold trailing
  rw [List.reverse_cons, List.takeWhile_append, List.length_reverse]
  by_cases hall : (text.reverse.takeWhile (· == '%'.toUInt8)).length = text.length
  · rw [if_pos hall, List.length_append, List.length_reverse, hall]
    by_cases hc : c = '%'.toUInt8
    · simp [hc]
    · simp [hc]
  · rw [if_neg hall, if_neg fun h => hall h.2]

theorem trailing_char {c : UInt8} (hc : c ≠ '%'.toUInt8) (text : List UInt8) :
    trailing (c :: text) = trailing text := by
  rw [trailing_cons, if_neg fun h => hc h.1]

theorem even_trailing_percent (c : UInt8) (text : List UInt8) :
    Even (trailing ('%'.toUInt8 :: c :: text)) ↔ Even (trailing text) := by
  have hcons := trailing_cons c text
  by_cases hall : c = '%'.toUInt8 ∧ trailing text = text.length
  · rw [if_pos hall] at hcons
    have hboth : trailing ('%'.toUInt8 :: c :: text) = trailing text + 2 := by
      rw [trailing_cons, hcons, if_pos ⟨rfl, by rw [hall.2, List.length_cons]⟩]
    rw [hboth, Nat.even_add]
    simp
  · rw [if_neg hall] at hcons
    have hle : trailing text ≤ text.length := by
      unfold trailing
      exact (List.takeWhile_prefix _).length_le.trans_eq List.length_reverse
    have hfront : ¬ ('%'.toUInt8 = '%'.toUInt8 ∧ trailing (c :: text) = (c :: text).length) := by
      rw [hcons, List.length_cons]
      omega
    rw [trailing_cons, if_neg hfront, hcons]

/-! ## Induction on a format -/

@[elab_as_elim]
theorem format_induction {motive : List UInt8 → Prop} (nil : motive [])
    (char : ∀ c text, c ≠ '%'.toUInt8 → motive text → motive (c :: text))
    (lone : motive ['%'.toUInt8])
    (argument : ∀ c text, takesArgument c = true → motive text → motive ('%'.toUInt8 :: c :: text))
    (plain : ∀ c text, ¬ takesArgument c = true → motive text → motive ('%'.toUInt8 :: c :: text)) :
    ∀ text, motive text
  | [] => nil
  | [c] => by
    by_cases hc : c = '%'.toUInt8
    · rw [hc]
      exact lone
    · exact char c [] hc nil
  | c :: d :: text => by
    by_cases hc : c = '%'.toUInt8
    · rw [hc]
      have htext := format_induction nil char lone argument plain text
      by_cases hd : takesArgument d = true
      · exact argument d text hd htext
      · exact plain d text hd htext
    · exact char c (d :: text) hc (format_induction nil char lone argument plain (d :: text))

section equations

variable {c : UInt8} (text : List UInt8) (args : List Argument)

theorem conversions_char (hc : c ≠ '%'.toUInt8) : conversions (c :: text) = conversions text := by
  cases text with
  | nil => rfl
  | cons d text => rw [conversions, if_pos hc]

theorem conversions_argument (hc : takesArgument c = true) :
    conversions ('%'.toUInt8 :: c :: text) = c :: conversions text := by
  rw [conversions, if_neg (fun h => h rfl), if_pos hc]

theorem conversions_plain (hc : ¬ takesArgument c = true) :
    conversions ('%'.toUInt8 :: c :: text) = conversions text := by
  rw [conversions, if_neg (fun h => h rfl), if_neg hc]

theorem expand_char (hc : c ≠ '%'.toUInt8) : expand (c :: text) args = c :: expand text args := by
  cases text with
  | nil => rfl
  | cons d text =>
    rw [expand.eq_def]
    exact if_pos hc

theorem expand_argument (hc : takesArgument c = true) (a : Argument) :
    expand ('%'.toUInt8 :: c :: text) (a :: args) = shown c a ++ expand text args := by
  rw [expand.eq_def]
  exact (if_neg fun h => h rfl).trans (if_pos hc)

theorem expand_plain (hc : ¬ takesArgument c = true) :
    expand ('%'.toUInt8 :: c :: text) args = shownPlain c ++ expand text args := by
  rw [expand.eq_def]
  exact (if_neg fun h => h rfl).trans (if_neg hc)

end equations

/-! ## Whole formats -/

theorem ne_zero_of_all {text : List UInt8} (h : text.all (· != 0) = true) : ∀ c ∈ text, c ≠ 0 :=
  fun c hc => bne_iff_ne.mp (List.all_eq_true.mp h c hc)

/-- The code ends with an access outside an object, or with an argument that is not there. -/
def Fails (code : Code Stop Screen Unit) : Prop := ∀ s, code.run s = .error .outOfBounds

theorem Prints.fails {code code' : Code Stop Screen Unit} {text : List UInt8}
    (h : Prints code text) (h' : Fails code') : Fails (code >>= fun _ => code') := by
  intro s
  rw [run_bind (h.run s)]
  exact h' _

/-- The arguments are those that the conversions of the format ask for. -/
def SuppliesAll (text : List UInt8) (args : List Argument) : Prop :=
  List.Forall₂ Supplies (conversions text) args

theorem suppliesAll_char {c : UInt8} (hc : c ≠ '%'.toUInt8) {text : List UInt8}
    {args : List Argument} : SuppliesAll (c :: text) args ↔ SuppliesAll text args := by
  rw [SuppliesAll, conversions_char text hc, SuppliesAll]

theorem suppliesAll_argument {c : UInt8} (hc : takesArgument c = true) {text : List UInt8}
    {args : List Argument} : SuppliesAll ('%'.toUInt8 :: c :: text) args ↔
      ∃ a rest, args = a :: rest ∧ Supplies c a ∧ SuppliesAll text rest := by
  rw [SuppliesAll, conversions_argument text hc, List.forall₂_cons_left_iff]
  exact ⟨fun ⟨a, rest, ha, hrest, he⟩ => ⟨a, rest, he, ha, hrest⟩,
    fun ⟨a, rest, he, ha, hrest⟩ => ⟨a, rest, ha, hrest, he⟩⟩

theorem suppliesAll_plain {c : UInt8} (hc : ¬ takesArgument c = true) {text : List UInt8}
    {args : List Argument} :
    SuppliesAll ('%'.toUInt8 :: c :: text) args ↔ SuppliesAll text args := by
  rw [SuppliesAll, conversions_plain text hc, SuppliesAll]

/-- A format whose trailing `%` pair off is expanded up to its NUL, whatever lies behind it and
whatever arguments are left. -/
theorem print_prints {text : List UInt8} (hnul : ∀ c ∈ text, c ≠ 0) :
    ∀ {args : List Argument}, SuppliesAll text args → Even (trailing text) →
      ∀ rest more, Prints (print (text ++ 0 :: rest) (args ++ more)) (expand text args) := by
  induction text using format_induction with
  | nil =>
    intro args hargs _ rest more
    cases hargs
    show Prints (print (0 :: rest) more) []
    rw [print_cons, if_pos rfl]
    exact pure_prints
  | char c text hc ih =>
    intro args hargs heven rest more
    obtain ⟨hc0, htext⟩ := List.forall_mem_cons.mp hnul
    rw [suppliesAll_char hc] at hargs
    rw [trailing_char hc] at heven
    rw [expand_char text args hc, List.cons_append, print_char hc0 hc]
    exact (printChar_prints c).append (ih htext hargs heven rest more)
  | lone =>
    intro args _ heven
    exact absurd heven (by decide)
  | argument c text hc ih =>
    intro args hargs heven rest more
    obtain ⟨a, args, rfl, ha, hsupplies⟩ := (suppliesAll_argument hc).mp hargs
    rw [even_trailing_percent] at heven
    have htext := (List.forall_mem_cons.mp (List.forall_mem_cons.mp hnul).2).2
    obtain ⟨code, hcode, heq⟩ := print_conversion hc ha (text ++ 0 :: rest) (args ++ more)
    rw [expand_argument text args hc, List.cons_append, List.cons_append, List.cons_append, heq]
    exact hcode.append (ih htext hsupplies heven rest more)
  | plain c text hc ih =>
    intro args hargs heven rest more
    rw [suppliesAll_plain hc] at hargs
    rw [even_trailing_percent] at heven
    have htext := (List.forall_mem_cons.mp (List.forall_mem_cons.mp hnul).2).2
    obtain ⟨code, hcode, heq⟩ := print_plain hc (text ++ 0 :: rest) (args ++ more)
    rw [expand_plain text args hc, List.cons_append, List.cons_append, heq]
    exact hcode.append (ih htext hargs heven rest more)

/-- A `%` that is left over steps over the NUL: in an object that ends there, the next character is
read outside it. -/
theorem print_fails_of_odd {text : List UInt8} (hnul : ∀ c ∈ text, c ≠ 0) :
    ∀ {args : List Argument}, SuppliesAll text args → ¬ Even (trailing text) →
      Fails (print (text ++ [0]) args) := by
  induction text using format_induction with
  | nil =>
    intro args _ hodd
    exact absurd (by decide) hodd
  | char c text hc ih =>
    intro args hargs hodd
    obtain ⟨hc0, htext⟩ := List.forall_mem_cons.mp hnul
    rw [suppliesAll_char hc] at hargs
    rw [trailing_char hc] at hodd
    rw [List.cons_append, print_char hc0 hc]
    exact (printChar_prints c).fails (ih htext hargs hodd)
  | lone =>
    intro args _ _
    obtain ⟨code, hcode, heq⟩ := print_plain (c := 0) (by decide) [] args
    rw [List.cons_append, List.nil_append, heq]
    exact hcode.fails fun s => rfl
  | argument c text hc ih =>
    intro args hargs hodd
    obtain ⟨a, args, rfl, ha, hsupplies⟩ := (suppliesAll_argument hc).mp hargs
    rw [even_trailing_percent] at hodd
    have htext := (List.forall_mem_cons.mp (List.forall_mem_cons.mp hnul).2).2
    obtain ⟨code, hcode, heq⟩ := print_conversion hc ha (text ++ [0]) args
    rw [List.cons_append, List.cons_append, heq]
    exact hcode.fails (ih htext hsupplies hodd)
  | plain c text hc ih =>
    intro args hargs hodd
    rw [suppliesAll_plain hc] at hargs
    rw [even_trailing_percent] at hodd
    have htext := (List.forall_mem_cons.mp (List.forall_mem_cons.mp hnul).2).2
    obtain ⟨code, hcode, heq⟩ := print_plain hc (text ++ [0]) args
    rw [List.cons_append, List.cons_append, heq]
    exact hcode.fails (ih htext hargs hodd)

theorem not_suppliesAll {text : List UInt8} (h : conversions text = []) (fewer : List Argument)
    (a : Argument) (more : List Argument) : ¬ SuppliesAll text (fewer ++ a :: more) := by
  intro hargs
  have hlength := hargs.length_eq
  rw [h, List.length_append, List.length_cons] at hlength
  exact absurd hlength (by simp)

theorem print_fails_of_short {text : List UInt8} (hnul : ∀ c ∈ text, c ≠ 0) :
    ∀ {fewer : List Argument} {a : Argument} {more : List Argument},
      SuppliesAll text (fewer ++ a :: more) → ∀ rest, Fails (print (text ++ rest) fewer) := by
  induction text using format_induction with
  | nil =>
    intro fewer a more hargs
    exact absurd hargs (not_suppliesAll (by simp [conversions]) fewer a more)
  | char c text hc ih =>
    intro fewer a more hargs rest
    obtain ⟨hc0, htext⟩ := List.forall_mem_cons.mp hnul
    rw [suppliesAll_char hc] at hargs
    rw [List.cons_append, print_char hc0 hc]
    exact (printChar_prints c).fails (ih htext hargs rest)
  | lone =>
    intro fewer a more hargs
    exact absurd hargs (not_suppliesAll (by simp [conversions]) fewer a more)
  | argument c text hc ih =>
    intro fewer a more hargs rest
    obtain ⟨b, rest', hcons, hb, hsupplies⟩ := (suppliesAll_argument hc).mp hargs
    have htext := (List.forall_mem_cons.mp (List.forall_mem_cons.mp hnul).2).2
    rw [List.cons_append, List.cons_append]
    cases fewer with
    | nil =>
      rw [print_percent, conversion_nil hc]
      exact fun s => rfl
    | cons b fewer =>
      obtain ⟨rfl, rfl⟩ := List.cons.inj hcons
      obtain ⟨code, hcode, heq⟩ := print_conversion hc hb (text ++ rest) fewer
      rw [heq]
      exact hcode.fails (ih htext hsupplies rest)
  | plain c text hc ih =>
    intro fewer a more hargs rest
    rw [suppliesAll_plain hc] at hargs
    have htext := (List.forall_mem_cons.mp (List.forall_mem_cons.mp hnul).2).2
    obtain ⟨code, hcode, heq⟩ := print_plain hc (text ++ rest) fewer
    rw [List.cons_append, List.cons_append, heq]
    exact hcode.fails (ih htext hargs rest)

/-- `eX_Print` ends on the format with the arguments: what it prints depends neither on the bytes
behind the NUL nor on further arguments, and it cannot do without any of the arguments. -/
structure StaysInFormat (text : List UInt8) (args : List Argument) : Prop where
  prints : ∀ rest more, Prints (print (text ++ 0 :: rest) (args ++ more)) (expand text args)
  consumes : ∀ fewer a more, args = fewer ++ a :: more →
    ∀ rest, Fails (print (text ++ 0 :: rest) fewer)

/-- `eX_Print` stays inside a format, given what its conversions ask for, exactly when the `%`
directly before the NUL are even in number. -/
theorem staysInFormat_iff (text : List UInt8) (args : List Argument) (hnul : ∀ c ∈ text, c ≠ 0)
    (hargs : SuppliesAll text args) : StaysInFormat text args ↔ Even (trailing text) := by
  constructor
  · intro h
    by_contra hodd
    have hfails := print_fails_of_odd hnul hargs hodd (blank 0 0 0)
    have hprints := (h.prints [] []).run (blank 0 0 0)
    rw [List.append_nil, hfails] at hprints
    cases hprints
  · intro heven
    refine ⟨print_prints hnul hargs heven, fun fewer a more he rest => ?_⟩
    subst he
    exact print_fails_of_short hnul hargs (0 :: rest)

theorem staysInFormat_percent_d : StaysInFormat (bytes "%d%%") [.word 5] := by
  have hd : Supplies 'd'.toUInt8 (.word 5) := by
    unfold Supplies
    decide
  have hargs : SuppliesAll (bytes "%d%%") [.word 5] := .cons hd .nil
  have hnul := ne_zero_of_all (show (bytes "%d%%").all (· != 0) = true by decide)
  exact (staysInFormat_iff (bytes "%d%%") [.word 5] hnul hargs).mpr (by decide)

theorem staysInFormat_fails : ¬ ∀ (text : List UInt8) (args : List Argument),
    (∀ c ∈ text, c ≠ 0) → SuppliesAll text args → StaysInFormat text args := by
  intro h
  have hnul := ne_zero_of_all (show (bytes "%").all (· != 0) = true by decide)
  have hprints := ((h (bytes "%") [] hnul .nil).prints [] []).run (blank 0 0 0)
  have hoff : (print (bytes "%" ++ [0]) []).run (blank 0 0 0) = .error .outOfBounds := rfl
  exact absurd (hoff.symm.trans hprints) (by simp)

end EyaX.Console
