import CurvePlot.Number.Double
import CurvePlot.Number.Spelling
import CurvePlot.Proofs.Number.ReadBack
import Mathlib.Data.List.TakeWhile

/-!
# Written decimals are literals

A literal whose parts hold digits is scanned back as it was written
(`Literal.scan?_text_append`). Every spelling writes a decimal as such a literal with the value of
the decimal (`Spelling.value_literal`), so that the text of a finite double determines it
(`Spelling.write_injective`).
-/

namespace CurvePlot

namespace Text

/-- The number of a row of digits is that of the standard library. -/
theorem digitsValue_eq (digits : List Char) : digitsValue digits = Nat.ofDigitChars 10 digits 0 := by
  simp only [digitsValue, Nat.ofDigitChars, digitValue, Nat.mul_comm]

/-- Digits behind others shift them to the left. -/
theorem digitsValue_append (front back : List Char) :
    digitsValue (front ++ back) = digitsValue front * 10 ^ back.length + digitsValue back := by
  simp only [digitsValue_eq]
  rw [Nat.ofDigitChars_append, Nat.ofDigitChars_eq_ofDigitChars_zero, Nat.mul_comm]

/-- A row of zeros writes zero. -/
theorem digitsValue_replicate_zero (n : ℕ) : digitsValue (List.replicate n '0') = 0 := by
  simp [digitsValue_eq]

/-- The digits of a number write it. -/
theorem digitsValue_toDigits (n : ℕ) : digitsValue (Nat.toDigits 10 n) = n := by
  simp [digitsValue_eq]

/-- The digits of a number are digits. -/
theorem isAsciiDigit_of_mem_toDigits {n : ℕ} {c : Char} (h : c ∈ Nat.toDigits 10 n) :
    isAsciiDigit c = true := by
  have hc := Nat.isDigit_of_mem_toDigits (by norm_num) (by norm_num) h
  rw [Char.isDigit, Bool.and_eq_true, decide_eq_true_eq, decide_eq_true_eq] at hc
  rw [isAsciiDigit, Bool.and_eq_true, decide_eq_true_eq, decide_eq_true_eq]
  exact hc

/-- The digits of a number other than zero do not open with a zero. -/
theorem head_toDigits_ne_zero {n : ℕ} (hn : 0 < n) : (Nat.toDigits 10 n).head? ≠ some '0' := by
  induction n using Nat.strong_induction_on with
  | h n ih =>
    rw [Nat.toDigits_eq_if (by norm_num)]
    split
    · simp [hn.ne']
    · have hfront := ih (n / 10) (by omega) (by omega)
      obtain ⟨c, rest, hc⟩ :=
        List.exists_cons_of_ne_nil (Nat.toDigits_ne_nil (n := n / 10) (b := 10))
      rw [hc] at hfront ⊢
      exact hfront

/-- Of a row of digits and something else, the digits are taken. -/
theorem takeWhile_dropWhile_append {digit : Char → Bool} {digits rest : List Char}
    (hd : ∀ c ∈ digits, digit c = true) (hr : ∀ c ∈ rest.head?, digit c = false) :
    (digits ++ rest).takeWhile digit = digits ∧ (digits ++ rest).dropWhile digit = rest := by
  rw [List.takeWhile_append_of_pos hd, List.dropWhile_append_of_pos hd]
  cases rest with
  | nil => simp
  | cons c rest => simp [hr c rfl]

/-- What is left behind digits does not begin with one. -/
theorem head_dropWhile {digit : Char → Bool} {text : List Char} {c : Char}
    (h : c ∈ (text.dropWhile digit).head?) : digit c = false := by
  have hnot := List.head?_dropWhile_not digit text
  rw [Option.mem_def.mp h] at hnot
  simpa using hnot

end Text

namespace Literal

/-- Whether a class of digits contains no other character that a literal may hold. -/
def IsDigitClass (digit : Char → Bool) : Prop :=
  ∀ c ∈ ['.', 'e', 'E', '+', '-'], digit c = false

/-- The ASCII digits are such a class. -/
theorem isDigitClass_isAsciiDigit : IsDigitClass Text.isAsciiDigit := by
  intro c hc
  simp only [List.mem_cons, List.not_mem_nil, or_false] at hc
  rcases hc with rfl | rfl | rfl | rfl | rfl <;> rfl

/-- A power of ten as it is scanned: a mark, perhaps a sign, and at least one digit. -/
structure Power.WellFormed (digit : Char → Bool) (p : Power) : Prop where
  /-- The mark is one of the two letters. -/
  mark : p.mark = 'e' ∨ p.mark = 'E'
  /-- A written sign is one of the two signs. -/
  sign : ∀ c ∈ p.sign, c = '+' ∨ c = '-'
  /-- There is a digit. -/
  nonempty : p.digits ≠ []
  /-- The digits are digits. -/
  digits : ∀ c ∈ p.digits, digit c = true

/-- A literal as it is scanned: digits, at least one of them beside the point. -/
structure WellFormed (digit : Char → Bool) (l : Literal) : Prop where
  /-- The digits before the point are digits. -/
  whole : ∀ c ∈ l.whole, digit c = true
  /-- The digits behind the point are digits. -/
  fraction : ∀ digits ∈ l.fraction, ∀ c ∈ digits, digit c = true
  /-- There is a digit. -/
  nonempty : l.digits ≠ []
  /-- The power of ten is well-formed. -/
  power : ∀ p ∈ l.power, p.WellFormed digit

/-- Whether a literal ends before the text: the text does not begin with a digit, a point or the
mark of a power. -/
def EndsBefore (digit : Char → Bool) (rest : List Char) : Prop :=
  ∀ c ∈ rest.head?, digit c = false ∧ c ≠ '.' ∧ c ≠ 'e' ∧ c ≠ 'E'

/-- What is split off is a sign. -/
theorem sign_of_splitSign {text : List Char} {c : Char} (h : c ∈ (splitSign text).1) :
    c = '+' ∨ c = '-' := by
  cases text with
  | nil => cases h
  | cons d rest =>
    simp only [splitSign] at h
    split at h
    · next hsign => cases h; simpa using hsign
    · cases h

/-- A sign that is written is split off, and only then. -/
theorem splitSign_append {sign : Option Char} (hs : ∀ c ∈ sign, c = '+' ∨ c = '-')
    {text : List Char} (ht : ∀ c ∈ text.head?, c ≠ '+' ∧ c ≠ '-') :
    splitSign (sign.toList ++ text) = (sign, text) := by
  cases sign with
  | some c => rcases hs c rfl with rfl | rfl <;> rfl
  | none =>
    cases text with
    | nil => rfl
    | cons c rest => simp [splitSign, ht c rfl]

/-- A digit is no sign. -/
theorem ne_sign_of_digit {digit : Char → Bool} (hc : IsDigitClass digit) {c : Char}
    (h : digit c = true) : c ≠ '+' ∧ c ≠ '-' := by
  constructor <;> rintro rfl
  · rw [hc '+' (by simp)] at h; cases h
  · rw [hc '-' (by simp)] at h; cases h

/-- A power of ten is scanned back. -/
theorem scanPower_text_append {digit : Char → Bool} (hc : IsDigitClass digit) {p : Power}
    (hp : p.WellFormed digit) {rest : List Char} (hr : ∀ c ∈ rest.head?, digit c = false) :
    scanPower digit (p.text ++ rest) = (some p, rest) := by
  obtain ⟨mark, sign, digits⟩ := p
  obtain ⟨hmark, hsign, hne, hdigits⟩ := hp
  obtain ⟨htake, hdrop⟩ := Text.takeWhile_dropWhile_append hdigits hr
  have hfirst : ∀ c ∈ (digits ++ rest).head?, c ≠ '+' ∧ c ≠ '-' := by
    intro c hcm
    cases digits with
    | nil => exact absurd rfl hne
    | cons d ds => cases hcm; exact ne_sign_of_digit hc (hdigits c (by simp))
  have hsplit := splitSign_append hsign hfirst
  have hm : (mark == 'e' || mark == 'E') = true := by simpa using hmark
  simp [Power.text, scanPower, hm, hsplit, htake, hdrop, hne]

/-- Where no power of ten begins, none is scanned. -/
theorem scanPower_of_endsBefore {digit : Char → Bool} {rest : List Char}
    (hr : EndsBefore digit rest) : scanPower digit rest = (none, rest) := by
  cases rest with
  | nil => rfl
  | cons c rest => simp [scanPower, (hr c rfl).2.2]

/-- Behind a mark, none is scanned just when no digit follows the optional sign. -/
theorem scanPower_mark_cons {digit : Char → Bool} {mark : Char} (hmark : mark = 'e' ∨ mark = 'E')
    {rest : List Char} : scanPower digit (mark :: rest) = (none, mark :: rest) ↔
      ∀ c ∈ (splitSign rest).2.head?, digit c = false := by
  have hm : (mark == 'e' || mark == 'E') = true := by simpa using hmark
  simp only [scanPower, hm, if_true]
  cases hdigits : (splitSign rest).2 with
  | nil => simp
  | cons c tail => cases hc : digit c <;> simp [hc]

/-- A mantissa is scanned back. -/
theorem scanMantissa?_append {digit : Char → Bool} (hc : IsDigitClass digit) {whole : List Char}
    {fraction : Option (List Char)} (hw : ∀ c ∈ whole, digit c = true)
    (hf : ∀ digits ∈ fraction, ∀ c ∈ digits, digit c = true) (hne : whole ++ fraction.getD [] ≠ [])
    {rest : List Char} (hr : ∀ c ∈ rest.head?, digit c = false)
    (hpoint : fraction = none → ∀ c ∈ rest.head?, c ≠ '.') :
    scanMantissa? digit (whole ++ (fractionText fraction ++ rest)) = some (whole, fraction, rest) := by
  have hdot := hc '.' (by simp)
  cases fraction with
  | none =>
    obtain ⟨htake, hdrop⟩ := Text.takeWhile_dropWhile_append hw hr
    have hw : whole ≠ [] := by simpa using hne
    simp only [scanMantissa?, fractionText, List.nil_append, htake, hdrop]
    split
    · next more hm => exact absurd rfl (hpoint rfl '.' rfl)
    · simp [hw]
  | some digits =>
    have hdots : ∀ c ∈ ('.' :: (digits ++ rest)).head?, digit c = false := by
      intro c hcm
      cases hcm
      exact hdot
    obtain ⟨htake, hdrop⟩ := Text.takeWhile_dropWhile_append hw hdots
    obtain ⟨htake', hdrop'⟩ := Text.takeWhile_dropWhile_append (hf digits rfl) hr
    have hne : ¬(whole = [] ∧ digits = []) := by simpa using hne
    simp only [scanMantissa?, fractionText, List.cons_append, htake, hdrop, htake', hdrop']
    simp [hne]

/-- Whether the scan of a literal stops before the text: nothing there goes on with it. -/
structure Ends (digit : Char → Bool) (l : Literal) (rest : List Char) : Prop where
  /-- No further digit. -/
  notDigit : ∀ c ∈ rest.head?, digit c = false
  /-- No point where one may stand. -/
  notPoint : l.fraction = none → l.power = none → ∀ c ∈ rest.head?, c ≠ '.'
  /-- No power of ten where one may stand. -/
  notPower : l.power = none → scanPower digit rest = (none, rest)

/-- Before a text that goes on with no literal every literal ends. -/
theorem EndsBefore.ends {digit : Char → Bool} {rest : List Char} (hr : EndsBefore digit rest)
    (l : Literal) : l.Ends digit rest :=
  ⟨fun c hc => (hr c hc).1, fun _ _ c hc => (hr c hc).2.1, fun _ => scanPower_of_endsBefore hr⟩

/-- A well-formed literal is scanned back wherever it ends. -/
theorem scan?_of_ends {digit : Char → Bool} (hc : IsDigitClass digit) {l : Literal}
    (hl : l.WellFormed digit) {rest : List Char} (hr : l.Ends digit rest) :
    scan? digit (l.text ++ rest) = some (l, rest) := by
  obtain ⟨whole, fraction, power⟩ := l
  have htext : text ⟨whole, fraction, power⟩ ++ rest =
      whole ++ (fractionText fraction ++ (powerText power ++ rest)) := by
    simp only [text, List.append_assoc]
  have hpower : scanPower digit (powerText power ++ rest) = (power, rest) := by
    cases power with
    | none => exact hr.notPower rfl
    | some p => exact scanPower_text_append hc (hl.power p rfl) hr.notDigit
  have hbehind : ∀ c ∈ (powerText power ++ rest).head?, digit c = false := by
    cases power with
    | none => exact hr.notDigit
    | some p =>
      intro c hcm
      cases hcm
      rcases (hl.power p rfl).mark with hm | hm <;> rw [hm] <;> exact hc _ (by simp)
  have hpoint : fraction = none → ∀ c ∈ (powerText power ++ rest).head?, c ≠ '.' := by
    intro hfraction
    cases power with
    | none => exact hr.notPoint hfraction rfl
    | some p =>
      intro c hcm
      cases hcm
      rcases (hl.power p rfl).mark with hm | hm <;> rw [hm] <;> decide
  rw [htext, scan?, scanMantissa?_append hc hl.whole hl.fraction hl.nonempty hbehind hpoint]
  simp only [hpower]

/-- A well-formed literal is scanned back, whatever follows that cannot belong to it. -/
theorem scan?_text_append {digit : Char → Bool} (hc : IsDigitClass digit) {l : Literal}
    (hl : l.WellFormed digit) {rest : List Char} (hr : EndsBefore digit rest) :
    scan? digit (l.text ++ rest) = some (l, rest) :=
  scan?_of_ends hc hl (hr.ends l)

/-- What a literal is worth: its digits, scaled by the power and by the digits behind the point. -/
theorem value_numeral (l : Literal) :
    l.numeral.value =
      (Text.digitsValue l.digits : ℚ) *
        10 ^ ((l.power.map Power.value).getD 0 - ((l.fraction.getD []).length : ℤ)) := rfl

/-- Every character of a well-formed literal is a digit, a point, a mark or a sign. -/
theorem mem_text {digit : Char → Bool} {l : Literal} (hl : l.WellFormed digit) {c : Char}
    (h : c ∈ l.text) : digit c = true ∨ c ∈ ['.', 'e', 'E', '+', '-'] := by
  obtain ⟨whole, fraction, power⟩ := l
  simp only [text, List.mem_append] at h
  rcases h with h | h | h
  · exact Or.inl (hl.whole c h)
  · cases fraction with
    | none => cases h
    | some digits =>
      rcases List.mem_cons.mp h with rfl | h
      · exact Or.inr (by simp)
      · exact Or.inl (hl.fraction digits rfl c h)
  · cases power with
    | none => cases h
    | some p =>
      have hp := hl.power p rfl
      simp only [powerText, Power.text, List.mem_cons, List.mem_append, Option.mem_toList] at h
      rcases h with rfl | h | h
      · rcases hp.mark with hm | hm <;> rw [hm] <;> exact Or.inr (by simp)
      · rcases hp.sign c h with rfl | rfl <;> exact Or.inr (by simp)
      · exact Or.inl (hp.digits c h)

/-- A mantissa that is scanned consists of digits, of at least one. -/
theorem digits_of_scanMantissa? {digit : Char → Bool} {text whole rest : List Char}
    {fraction : Option (List Char)} (h : scanMantissa? digit text = some (whole, fraction, rest)) :
    (∀ c ∈ whole, digit c = true) ∧ (∀ digits ∈ fraction, ∀ c ∈ digits, digit c = true) ∧
      whole ++ fraction.getD [] ≠ [] := by
  obtain ⟨rfl, hne, ⟨behind, -, rfl, -⟩ | ⟨rfl, -⟩⟩ := scanMantissa?_eq_some h
  · refine ⟨fun _ => List.mem_takeWhile_imp, ?_, hne⟩
    rintro _ ⟨⟩
    exact fun _ => List.mem_takeWhile_imp
  · exact ⟨fun _ => List.mem_takeWhile_imp, by simp, hne⟩

/-- A power of ten that is scanned has a mark, the sign behind it and all the digits that stand
there. -/
theorem scanPower_eq_some {digit : Char → Bool} {text : List Char} {p : Power}
    (h : (scanPower digit text).1 = some p) :
    (p.mark = 'e' ∨ p.mark = 'E') ∧ p.digits ≠ [] ∧
      ∃ behind, text = p.mark :: behind ∧ p.sign = (splitSign behind).1 ∧
        p.digits = (splitSign behind).2.takeWhile digit ∧
        (scanPower digit text).2 = (splitSign behind).2.dropWhile digit := by
  cases text with
  | nil => cases h
  | cons mark behind =>
    simp only [scanPower] at h ⊢
    split at h
    · next hmark =>
      rw [if_pos hmark]
      split at h
      · cases h
      · next hne =>
        rw [if_neg hne]
        cases h
        exact ⟨by simpa using hmark, by simpa using hne, behind, rfl, rfl, rfl, rfl⟩
    · cases h

/-- A power of ten that is scanned is well-formed. -/
theorem wellFormed_of_scanPower {digit : Char → Bool} {text : List Char} {p : Power}
    (h : (scanPower digit text).1 = some p) : p.WellFormed digit := by
  obtain ⟨hmark, hne, behind, -, hsign, hdigits, -⟩ := scanPower_eq_some h
  exact ⟨hmark, fun c hc => sign_of_splitSign (hsign ▸ hc), hne,
    fun c hc => List.mem_takeWhile_imp (hdigits ▸ hc)⟩

/-- A literal that is scanned is well-formed. -/
theorem wellFormed_of_scan? {digit : Char → Bool} {text rest : List Char} {l : Literal}
    (h : scan? digit text = some (l, rest)) : l.WellFormed digit := by
  unfold scan? at h
  split at h
  · cases h
  · next whole fraction behind hmantissa =>
    cases h
    obtain ⟨hwhole, hfraction, hne⟩ := digits_of_scanMantissa? hmantissa
    exact ⟨hwhole, hfraction, hne, fun p hp => wellFormed_of_scanPower hp⟩

/-- Behind a mantissa that is scanned stands no digit, and no point where one may stand. -/
theorem head_of_scanMantissa? {digit : Char → Bool} {text whole rest : List Char}
    {fraction : Option (List Char)} (h : scanMantissa? digit text = some (whole, fraction, rest)) :
    (∀ c ∈ rest.head?, digit c = false) ∧ (fraction = none → ∀ c ∈ rest.head?, c ≠ '.') := by
  obtain ⟨-, -, ⟨behind, -, rfl, rfl⟩ | ⟨rfl, rfl, hpoint⟩⟩ := scanMantissa?_eq_some h
  · exact ⟨fun c hc => Text.head_dropWhile hc, fun hnone => by cases hnone⟩
  · refine ⟨fun c hc => Text.head_dropWhile hc, fun _ c hc => ?_⟩
    rintro rfl
    obtain ⟨behind, hbehind⟩ := List.head?_eq_some_iff.mp hc
    exact hpoint behind hbehind

/-- Behind a power of ten that is scanned stands no digit. -/
theorem head_of_scanPower {digit : Char → Bool} {text : List Char} {p : Power}
    (h : (scanPower digit text).1 = some p) :
    ∀ c ∈ (scanPower digit text).2.head?, digit c = false := by
  obtain ⟨-, -, behind, -, -, -, hrest⟩ := scanPower_eq_some h
  rw [hrest]
  exact fun c hc => Text.head_dropWhile hc

/-- A literal that is scanned ends before the rest. -/
theorem ends_of_scan? {digit : Char → Bool} {text rest : List Char} {l : Literal}
    (h : scan? digit text = some (l, rest)) : l.Ends digit rest := by
  unfold scan? at h
  split at h
  · cases h
  · next whole fraction behind hmantissa =>
    cases h
    obtain ⟨hdigit, hpoint⟩ := head_of_scanMantissa? hmantissa
    have htext := scanPower_text digit behind
    cases hpower : (scanPower digit behind).1 with
    | some p =>
      exact ⟨head_of_scanPower hpower, fun _ => by simp, by simp⟩
    | none =>
      rw [hpower, powerText, List.nil_append] at htext
      have hscan : scanPower digit behind = (none, behind) := Prod.ext hpower htext
      rw [htext]
      exact ⟨hdigit, fun hfraction _ => hpoint hfraction, fun _ => hscan⟩

/-- A well-formed literal is not empty. -/
theorem text_ne_nil {digit : Char → Bool} {l : Literal} (hl : l.WellFormed digit) :
    l.text ≠ [] := by
  obtain ⟨whole, fraction, power⟩ := l
  have hne : whole ++ fraction.getD [] ≠ [] := hl.nonempty
  cases fraction with
  | none => simp_all [text]
  | some digits => simp [text, fractionText]

/-- A well-formed literal begins with a digit or the point. -/
theorem head_text {digit : Char → Bool} {l : Literal} (hl : l.WellFormed digit) {c : Char}
    (h : c ∈ l.text.head?) : digit c = true ∨ c = '.' := by
  obtain ⟨whole, fraction, power⟩ := l
  cases whole with
  | cons d whole =>
    cases h
    exact Or.inl (hl.whole c (by simp))
  | nil =>
    cases fraction with
    | none => exact absurd rfl hl.nonempty
    | some digits =>
      cases h
      exact Or.inr rfl

/-- A well-formed literal does not begin with a sign. -/
theorem head_text_ne_sign {digit : Char → Bool} (hc : IsDigitClass digit) {l : Literal}
    (hl : l.WellFormed digit) : ∀ c ∈ l.text.head?, c ≠ '+' ∧ c ≠ '-' := by
  intro c hcm
  rcases head_text hl hcm with hdigit | rfl
  · exact ne_sign_of_digit hc hdigit
  · decide

/-- A text that begins with neither a digit nor the point begins with no literal. -/
theorem scan?_eq_none {digit : Char → Bool} {c : Char} {rest : List Char}
    (h : digit c = false ∧ c ≠ '.') : scan? digit (c :: rest) = none := by
  simp [scan?, scanMantissa?, h.1, h.2]

end Literal

/-- A literal behind a sign, or behind none, is read as its double with that sign. -/
theorem Double.read?_append_text {sign : Option Char} (hs : ∀ c ∈ sign, c = '+' ∨ c = '-')
    {l : Literal} (hl : l.WellFormed Text.isAsciiDigit) :
    read? (sign.toList ++ l.text) =
      some (if sign == some '-' then -l.toFloat else l.toFloat) := by
  have hhead := Literal.head_text_ne_sign Literal.isDigitClass_isAsciiDigit hl
  have hend : Literal.EndsBefore Text.isAsciiDigit [] := by simp [Literal.EndsBefore]
  have hscan := Literal.scan?_text_append Literal.isDigitClass_isAsciiDigit hl hend
  rw [List.append_nil] at hscan
  rw [read?, Literal.splitSign_append hs hhead]
  simp only [readUnsigned?_of_scan? hscan, Option.map_some]

namespace Spelling

open Text

/-- The literal that a spelling writes for a decimal: positional with a point where one is due, or
with one digit before the point and a power of ten. -/
def literal (s : Spelling) (n : Numeral) : Literal :=
  let digits := Nat.toDigits 10 n.significand
  let lead : ℤ := (digits.length : ℤ) - 1 + n.exponent
  if s.positional lead then
    if lead < 0 then ⟨['0'], some (List.replicate (-lead - 1).toNat '0' ++ digits), none⟩
    else if digits.length ≤ lead.toNat + 1 then
      ⟨digits ++ List.replicate (lead.toNat + 1 - digits.length) '0',
        if s.pointZero then some ['0'] else none, none⟩
    else ⟨digits.take (lead.toNat + 1), some (digits.drop (lead.toNat + 1)), none⟩
  else
    ⟨digits.take 1, if (digits.drop 1).isEmpty then none else some (digits.drop 1),
      some ⟨'e', if lead < 0 then some '-' else if s.plus then some '+' else none,
        Nat.toDigits 10 lead.natAbs⟩⟩

/-- A power of ten is written as its sign and its digits. -/
theorem toList_toString_int (n : ℤ) :
    (toString n).toList =
      (if n < 0 then some '-' else none).toList ++ Nat.toDigits 10 n.natAbs := by
  rw [Int.toString_eq_repr, Int.repr_eq_if]
  split
  · next h =>
    rw [if_neg (by omega), Nat.toList_repr, show n.toNat = n.natAbs by omega]
    rfl
  · next h =>
    rw [if_pos (by omega), String.toList_append, Nat.toList_repr,
      show (-n).toNat = n.natAbs by omega]
    rfl

/-- The point is written before digits alone. -/
theorem toList_fraction (digits : List Char) :
    (if digits.isEmpty then "" else "." ++ String.ofList digits).toList =
      Literal.fractionText (if digits.isEmpty then none else some digits) := by
  cases digits <;> simp [Literal.fractionText]

/-- The sign of a power of ten is written before its digits. -/
theorem toList_power (plus : Bool) (lead : ℤ) :
    (if plus && 0 ≤ lead then "+" else "").toList ++ (toString lead).toList =
      (if lead < 0 then some '-' else if plus then some '+' else none).toList ++
        Nat.toDigits 10 lead.natAbs := by
  rw [toList_toString_int]
  by_cases h : lead < 0
  · simp [h, show ¬0 ≤ lead by omega]
  · cases plus <;> simp [h, show 0 ≤ lead by omega]

/-- A decimal is written as its literal. -/
theorem toList_writeDecimal (s : Spelling) (n : Numeral) :
    (s.writeDecimal n).toList = (s.literal n).text := by
  have hpos : 0 < (Nat.toDigits 10 n.significand).length := Nat.length_toDigits_pos
  simp only [writeDecimal, literal]
  generalize Nat.toDigits 10 n.significand = digits at hpos ⊢
  generalize (digits.length : ℤ) - 1 + n.exponent = lead
  split
  · unfold plain
    split
    · simp [Literal.text, Literal.fractionText, Literal.powerText, zeros]
    · dsimp only
      split
      · rw [show ((lead.toNat + 1 : ℕ) : ℤ) - (digits.length : ℤ) =
          ((lead.toNat + 1 - digits.length : ℕ) : ℤ) by omega]
        cases s.pointZero <;>
          simp [Literal.text, Literal.fractionText, Literal.powerText, zeros]
      · simp [Literal.text, Literal.fractionText, Literal.powerText]
  · simp only [scientific, String.toList_append, toList_fraction, List.append_assoc, toList_power,
      String.toList_ofList, Literal.text, Literal.powerText, Literal.Power.text]
    rfl

/-- The literal of a decimal is well-formed. -/
theorem wellFormed_literal (s : Spelling) (n : Numeral) :
    (s.literal n).WellFormed isAsciiDigit := by
  have hd : ∀ c ∈ Nat.toDigits 10 n.significand, isAsciiDigit c = true :=
    fun c hc => isAsciiDigit_of_mem_toDigits hc
  have hz : ∀ k : ℕ, ∀ c ∈ List.replicate k '0', isAsciiDigit c = true := by
    intro k c hc
    rw [List.eq_of_mem_replicate hc]
    rfl
  have hne : Nat.toDigits 10 n.significand ≠ [] := Nat.toDigits_ne_nil
  unfold literal
  generalize Nat.toDigits 10 n.significand = digits at hd hne ⊢
  generalize (digits.length : ℤ) - 1 + n.exponent = lead
  have htake : ∀ k, ∀ c ∈ digits.take k, isAsciiDigit c = true :=
    fun k c hc => hd c (List.mem_of_mem_take hc)
  have hdrop : ∀ k, ∀ c ∈ digits.drop k, isAsciiDigit c = true :=
    fun k c hc => hd c (List.mem_of_mem_drop hc)
  have happend : ∀ a b : List Char, (∀ c ∈ a, isAsciiDigit c = true) →
      (∀ c ∈ b, isAsciiDigit c = true) → ∀ c ∈ a ++ b, isAsciiDigit c = true :=
    fun a b ha hb c hc => (List.mem_append.mp hc).elim (ha c) (hb c)
  have hnone : ∀ p ∈ (none : Option Literal.Power), p.WellFormed isAsciiDigit := by simp
  dsimp only
  split
  · split
    · refine ⟨hz 1, ?_, by simp [Literal.digits], hnone⟩
      rintro _ ⟨⟩
      exact happend _ _ (hz _) hd
    · split
      · refine ⟨happend _ _ hd (hz _), ?_, by simp [Literal.digits, hne], hnone⟩
        intro ds hds
        split at hds <;> cases hds
        exact hz 1
      · refine ⟨htake _, ?_, by simp [Literal.digits, hne], hnone⟩
        rintro _ ⟨⟩
        exact hdrop _
  · refine ⟨htake _, ?_, by simp [Literal.digits, hne], ?_⟩
    · intro ds hds
      split at hds <;> cases hds
      exact hdrop _
    · rintro _ ⟨⟩
      refine ⟨Or.inl rfl, ?_, Nat.toDigits_ne_nil, fun c hc => isAsciiDigit_of_mem_toDigits hc⟩
      intro c hc
      dsimp only at hc
      split at hc
      · cases hc; exact Or.inr rfl
      · split at hc <;> cases hc
        exact Or.inl rfl

/-- The literal of a decimal has a digit before its point. -/
theorem whole_literal_ne_nil (s : Spelling) (n : Numeral) : (s.literal n).whole ≠ [] := by
  have hne : Nat.toDigits 10 n.significand ≠ [] := Nat.toDigits_ne_nil
  unfold literal
  dsimp only
  split
  · split
    · simp
    · split
      · simp [hne]
      · simp [hne]
  · simp [hne]

/-- The literal of a decimal begins with a digit. -/
theorem exists_head?_text_literal (s : Spelling) (n : Numeral) :
    ∃ c ∈ (s.literal n).text.head?, isAsciiDigit c = true := by
  have hwhole := (wellFormed_literal s n).whole
  cases hw : (s.literal n).whole with
  | nil => exact absurd hw (whole_literal_ne_nil s n)
  | cons c rest => exact ⟨c, by simp [Literal.text, hw], hwhole c (by simp [hw])⟩

/-- Digits that write a significand, with the point and the power where they belong, write the
decimal itself. -/
theorem value_eq_of_digits {l : Literal} {n : Numeral} (hd : digitsValue l.digits = n.significand)
    (he : (l.power.map Literal.Power.value).getD 0 - ((l.fraction.getD []).length : ℤ) =
      n.exponent) : l.numeral.value = n.value := by
  rw [Literal.value_numeral, hd, he, Numeral.value]

/-- The power of ten that is written is the one that is meant. -/
theorem value_power (plus : Bool) (lead : ℤ) :
    Literal.Power.value ⟨'e', if lead < 0 then some '-' else if plus then some '+' else none,
      Nat.toDigits 10 lead.natAbs⟩ = lead := by
  simp only [Literal.Power.value, digitsValue_toDigits]
  by_cases h : lead < 0
  · rw [if_pos h, if_pos (by decide)]
    omega
  · cases plus
    · rw [if_neg h, if_neg (by decide)]
      omega
    · rw [if_neg h, if_neg (by decide)]
      omega

/-- Zeros behind the digits stand for a power of ten, and a point with one more zero for none. -/
theorem value_padded (digits : List Char) (k : ℕ) (point : Bool) :
    Numeral.value (Literal.numeral ⟨digits ++ List.replicate k '0',
      if point then some ['0'] else none, none⟩) = digitsValue digits * 10 ^ k := by
  have hd : digitsValue (digits ++ List.replicate k '0') = digitsValue digits * 10 ^ k := by
    rw [digitsValue_append, digitsValue_replicate_zero, List.length_replicate, add_zero]
  rw [Literal.value_numeral]
  cases point with
  | false => simp [Literal.digits, hd]
  | true =>
    have hzero : digitsValue ['0'] = 0 := rfl
    simp only [Literal.digits, if_true, Option.getD_some, digitsValue_append _ ['0'], hd, hzero]
    simp

/-- The literal of a decimal has its value. -/
theorem value_literal (s : Spelling) (n : Numeral) : (s.literal n).numeral.value = n.value := by
  have hv := digitsValue_toDigits n.significand
  have hpos : 0 < (Nat.toDigits 10 n.significand).length := Nat.length_toDigits_pos
  unfold literal
  dsimp only
  generalize Nat.toDigits 10 n.significand = digits at hv hpos ⊢
  generalize hlead : (digits.length : ℤ) - 1 + n.exponent = lead
  have hsplit : ∀ k, digitsValue (digits.take k ++ digits.drop k) = n.significand := by
    intro k
    rw [List.take_append_drop, hv]
  split
  · split
    · have hd : digitsValue (['0'] ++ (List.replicate (-lead - 1).toNat '0' ++ digits)) =
          n.significand := by
        rw [digitsValue_append, digitsValue_append, digitsValue_replicate_zero, hv,
          show digitsValue ['0'] = 0 from rfl]
        omega
      refine value_eq_of_digits hd ?_
      simp only [Option.map_none, Option.getD_none, Option.getD_some, List.length_append,
        List.length_replicate]
      omega
    · split
      · rw [value_padded, hv, Numeral.value, ← zpow_natCast]
        congr 2
        omega
      · refine value_eq_of_digits (hsplit _) ?_
        simp only [Option.map_none, Option.getD_none, Option.getD_some, List.length_drop]
        omega
  · have hfraction : (if (digits.drop 1).isEmpty then none else some (digits.drop 1)).getD [] =
        digits.drop 1 := by
      cases digits.drop 1 <;> rfl
    refine value_eq_of_digits ?_ ?_
    · simp only [Literal.digits, hfraction, hsplit]
    · simp only [hfraction, Option.map_some, Option.getD_some, value_power, List.length_drop]
      omega

/-- The text of a finite double is its sign and the literal of its shortest decimal. -/
theorem toList_write {s : Spelling} {x : Float} (h : x.isFinite = true) :
    (s.write x).toList = (if Magnitude.isNegative x then some '-' else none).toList ++
      (s.literal (Shortest.decimal s.tie (.ofFloat x))).text := by
  obtain ⟨hnan, hinf⟩ := Double.isNaN_isInf_of_isFinite h
  rw [← toList_writeDecimal, write, hnan, hinf]
  cases Magnitude.isNegative x <;> simp

/-- Finite doubles with the same text are the same. -/
theorem write_injective {s : Spelling} {x y : Float} (hx : x.isFinite = true)
    (hy : y.isFinite = true) (h : s.write x = s.write y) : x = y := by
  have hsign : ∀ b : Bool, ∀ c ∈ (if b then some '-' else none), c = '+' ∨ c = '-' := by
    intro b c hc
    cases b <;> cases hc
    exact Or.inr rfl
  have hwell (z : Float) := wellFormed_literal s (Shortest.decimal s.tie (.ofFloat z))
  have hhead (z : Float) := Literal.head_text_ne_sign Literal.isDigitClass_isAsciiDigit (hwell z)
  have hend : Literal.EndsBefore isAsciiDigit [] := by simp [Literal.EndsBefore]
  have hscan (z : Float) :=
    Literal.scan?_text_append Literal.isDigitClass_isAsciiDigit (hwell z) hend
  -- Both texts are read by the same functions: first the sign, then the literal.
  have hsplit : splitSign (s.write x).toList = splitSign (s.write y).toList := by rw [h]
  rw [toList_write hx, toList_write hy, Literal.splitSign_append (hsign _) (hhead x),
    Literal.splitSign_append (hsign _) (hhead y), Prod.mk.injEq] at hsplit
  have hneg : Magnitude.isNegative x = Magnitude.isNegative y := by
    have hs := hsplit.1
    cases hnx : Magnitude.isNegative x <;> cases hny : Magnitude.isNegative y <;> simp_all
  have hliteral : s.literal (Shortest.decimal s.tie (.ofFloat x)) =
      s.literal (Shortest.decimal s.tie (.ofFloat y)) := by
    have hl := hscan x
    rw [hsplit.2, hscan y] at hl
    simpa using hl.symm
  have hvalue : (Shortest.decimal s.tie (.ofFloat x)).value =
      (Shortest.decimal s.tie (.ofFloat y)).value :=
    calc
      (Shortest.decimal s.tie (.ofFloat x)).value
          = (s.literal (Shortest.decimal s.tie (.ofFloat x))).numeral.value :=
        (value_literal s _).symm
      _ = (s.literal (Shortest.decimal s.tie (.ofFloat y))).numeral.value := by rw [hliteral]
      _ = (Shortest.decimal s.tie (.ofFloat y)).value := value_literal s _
  exact Double.eq_of_decimal_value_eq hneg hvalue

end Spelling

end CurvePlot
