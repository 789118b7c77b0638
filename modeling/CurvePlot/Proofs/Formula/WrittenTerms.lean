import CurvePlot.Formula.Terms
import CurvePlot.Proofs.Formula.SignParity
import CurvePlot.Proofs.Number.DecimalText

/-!
# Written terms are read back

A factor in front of a symbol is scanned back as it was written (`Factor.scan_text_append`), and so
is a term (`Term.read?_text`). A row of terms is cut where the terms meet, since the only other sign
in a term is that of a power of ten, and a digit stands before the mark of such a power
(`Terms.split_texts`).
-/

namespace CurvePlot

namespace Literal

/-- The decimal digits of all scripts are a class of digits. -/
theorem isDigitClass_isDecimalDigit : IsDigitClass Text.isDecimalDigit := by
  intro c hc
  simp only [List.mem_cons, List.not_mem_nil, or_false] at hc
  rcases hc with rfl | rfl | rfl | rfl | rfl <;> decide

/-- A literal is one over every class with more digits. -/
theorem WellFormed.mono {digit wider : Char → Bool} (hwider : ∀ c, digit c = true → wider c = true)
    {l : Literal} (h : l.WellFormed digit) : l.WellFormed wider :=
  ⟨fun c hc => hwider c (h.whole c hc), fun digits hd c hc => hwider c (h.fraction digits hd c hc),
    h.nonempty, fun p hp => ⟨(h.power p hp).mark, (h.power p hp).sign, (h.power p hp).nonempty,
      fun c hc => hwider c ((h.power p hp).digits c hc)⟩⟩

/-- A literal of ASCII digits is plain. -/
theorem isPlain_of_wellFormed {l : Literal} (h : l.WellFormed Text.isAsciiDigit) :
    l.isPlain = true := by
  obtain ⟨whole, fraction, power⟩ := l
  rw [isPlain, Bool.and_eq_true, List.all_eq_true, List.all_eq_true]
  constructor
  · intro c hc
    rcases List.mem_append.mp hc with hc | hc
    · exact h.whole c hc
    · cases fraction with
      | none => cases hc
      | some digits => exact h.fraction digits rfl c hc
  · intro c hc
    cases power with
    | none => cases hc
    | some p => exact (h.power p rfl).digits c hc

/-- A plain literal is one of ASCII digits. -/
theorem WellFormed.of_isPlain {digit : Char → Bool} {l : Literal} (h : l.WellFormed digit)
    (hplain : l.isPlain = true) : l.WellFormed Text.isAsciiDigit := by
  rw [isPlain, Bool.and_eq_true, List.all_eq_true, List.all_eq_true] at hplain
  obtain ⟨hdigits, hpower⟩ := hplain
  refine ⟨fun c hc => hdigits c (List.mem_append_left _ hc), fun digits hd c hc => hdigits c ?_,
    h.nonempty, fun p hp => ⟨(h.power p hp).mark, (h.power p hp).sign, (h.power p hp).nonempty,
      fun c hc => hpower c ?_⟩⟩
  · rw [Literal.digits, Option.mem_def.mp hd]
    exact List.mem_append_right _ hc
  · rw [Option.mem_def.mp hp]
    exact hc

/-- A mantissa alone is scanned back. -/
theorem scanMantissa?_text_append {digit : Char → Bool} (hc : IsDigitClass digit) {l : Literal}
    (hl : l.WellFormed digit) (hpower : l.power = none) {rest : List Char}
    (hr : ∀ c ∈ rest.head?, digit c = false ∧ c ≠ '.') :
    scanMantissa? digit (l.text ++ rest) = some (l.whole, l.fraction, rest) := by
  have htext : l.text ++ rest = l.whole ++ (fractionText l.fraction ++ rest) := by
    simp [text, hpower, powerText]
  rw [htext]
  exact scanMantissa?_append hc hl.whole hl.fraction hl.nonempty (fun c hm => (hr c hm).1)
    fun _ c hm => (hr c hm).2

end Literal

namespace Factor

/-- A factor as it is scanned, where `powers` says whether its number may have a power of ten. -/
structure WellFormed (powers : Bool) (f : Factor) : Prop where
  /-- A written sign is one of the two signs. -/
  sign : ∀ c ∈ f.sign, c = '+' ∨ c = '-'
  /-- A written number is a literal. -/
  literal : ∀ l ∈ f.literal, l.WellFormed Text.isDecimalDigit
  /-- It has a power of ten only where it may. -/
  power : powers = false → ∀ l ∈ f.literal, l.power = none

/-- Whether a factor ends before the text: nothing at the head of the text could go on with it. -/
def EndsBefore (rest : List Char) : Prop :=
  ∀ c ∈ rest.head?, Text.isDecimalDigit c = false ∧ c ∉ ['.', 'e', 'E', '+', '-', '*']

/-- The number is scanned back before a text that cannot go on with it. -/
theorem scanLiteral_text_append {powers : Bool} {f : Factor} (hf : f.WellFormed powers)
    {rest : List Char}
    (hr : ∀ c ∈ rest.head?, Text.isDecimalDigit c = false ∧ c ∉ ['.', 'e', 'E']) :
    scanLiteral powers (literalText f.literal ++ rest) = (f.literal, rest) := by
  have hclass := Literal.isDigitClass_isDecimalDigit
  have hends : Literal.EndsBefore Text.isDecimalDigit rest := fun c hc => by
    simpa using hr c hc
  obtain ⟨sign, literal, star⟩ := f
  cases literal with
  | some l =>
    have hl := hf.literal l rfl
    cases powers with
    | true =>
      simp only [scanLiteral, literalText, if_true, Literal.scan?_text_append hclass hl hends]
    | false =>
      have hpower := hf.power rfl l rfl
      have hscan := Literal.scanMantissa?_text_append hclass hl hpower
        fun c hc => ⟨(hends c hc).1, (hends c hc).2.1⟩
      simp only [scanLiteral, literalText, Bool.false_eq_true, if_false, hscan, ← hpower]
  | none =>
    have hmantissa : Literal.scanMantissa? Text.isDecimalDigit rest = none := by
      cases rest with
      | nil => rfl
      | cons c rest =>
        obtain ⟨hdigit, hdot, -⟩ := hends c rfl
        simp [Literal.scanMantissa?, hdigit, hdot]
    cases powers <;> simp [scanLiteral, literalText, Literal.scan?, hmantissa]

/-- A factor is scanned back, before any text if a star ends it, else before one that cannot go on
with it. -/
theorem scan_text_append {powers : Bool} {f : Factor} (hf : f.WellFormed powers) {rest : List Char}
    (hr : f.star = false → EndsBefore rest) : scan powers (f.text ++ rest) = (f, rest) := by
  have hstar : splitStar (starText f.star ++ rest) = (f.star, rest) := by
    cases hs : f.star with
    | true => rfl
    | false =>
      cases rest with
      | nil => rfl
      | cons c rest =>
        have hc : c ≠ '*' := fun h => (hr hs c rfl).2 (by simp [h])
        simp [starText, splitStar, hc]
  have hbehind : ∀ c ∈ (starText f.star ++ rest).head?,
      Text.isDecimalDigit c = false ∧ c ∉ ['.', 'e', 'E'] ∧ c ≠ '+' ∧ c ≠ '-' := by
    intro c hc
    cases hs : f.star with
    | true =>
      rw [hs] at hc
      cases hc
      decide
    | false =>
      rw [hs] at hc
      have hend := hr hs c hc
      simp only [List.mem_cons, List.not_mem_nil, or_false, not_or] at hend ⊢
      exact ⟨hend.1, ⟨hend.2.1, hend.2.2.1, hend.2.2.2.1⟩, hend.2.2.2.2.1, hend.2.2.2.2.2.1⟩
  have hunsigned : ∀ c ∈ (literalText f.literal ++ (starText f.star ++ rest)).head?,
      c ≠ '+' ∧ c ≠ '-' := by
    intro c hc
    cases hl : f.literal with
    | none =>
      rw [hl] at hc
      exact (hbehind c hc).2.2
    | some l =>
      have hne := Literal.text_ne_nil (hf.literal l hl)
      rw [hl, literalText, List.head?_append_of_ne_nil _ hne] at hc
      exact Literal.head_text_ne_sign Literal.isDigitClass_isDecimalDigit (hf.literal l hl) c hc
  have hsign := Literal.splitSign_append hf.sign hunsigned
  have hliteral := scanLiteral_text_append hf fun c hc => ⟨(hbehind c hc).1, (hbehind c hc).2.1⟩
  simp only [scan, text, List.append_assoc, hsign, hliteral, hstar]

/-- The characters of a factor whose number is one over a class of digits. -/
theorem mem_text {powers : Bool} {f : Factor} (hf : f.WellFormed powers) {digit : Char → Bool}
    (hdigit : ∀ l ∈ f.literal, l.WellFormed digit) {c : Char} (h : c ∈ f.text) :
    digit c = true ∨ c ∈ ['.', 'e', 'E', '+', '-', '*'] := by
  obtain ⟨sign, literal, star⟩ := f
  simp only [text, List.mem_append, Option.mem_toList] at h
  rcases h with h | h | h
  · rcases hf.sign c h with rfl | rfl <;> exact Or.inr (by simp)
  · cases literal with
    | none => cases h
    | some l =>
      rcases Literal.mem_text (hdigit l rfl) h with h | h
      · exact Or.inl h
      · exact Or.inr (List.mem_append_left ['*'] h)
  · cases star <;> simp [starText] at h
    exact Or.inr (by simp [h])

end Factor

/-! ### Terms -/

/-- A term as it is read: a number alone has a value, and no star stands behind it. -/
structure Term.WellFormed (t : Term) : Prop where
  /-- The factor is one with powers. -/
  factor : t.factor.WellFormed true
  /-- A term without symbol is a number with a value. -/
  number : t.monomial = .one → t.factor.star = false ∧ ∃ l ∈ t.factor.literal, l.isPlain = true

/-- The characters of a term whose number is one over a class of digits. -/
theorem Term.mem_text {t : Term} (ht : t.WellFormed) {digit : Char → Bool}
    (hdigit : ∀ l ∈ t.factor.literal, l.WellFormed digit) {c : Char} (h : c ∈ t.text) :
    digit c = true ∨ c ∈ ['.', 'e', 'E', '+', '-', '*', 'x', '^', '2', 'y'] := by
  rcases List.mem_append.mp h with h | h
  · rcases Factor.mem_text ht.factor hdigit h with h | h
    · exact Or.inl h
    · exact Or.inr (List.mem_append_left ['x', '^', '2', 'y'] h)
  · have hsymbol : t.monomial.symbol ⊆ ['x', '^', '2', 'y'] := by cases t.monomial <;> decide
    exact Or.inr (List.mem_append_right ['.', 'e', 'E', '+', '-', '*'] (hsymbol h))

/-- A factor ends before every symbol. -/
theorem Monomial.endsBefore_symbol (m : Monomial) : Factor.EndsBefore m.symbol := by
  intro c hc
  cases m with
  | one => cases hc
  | square | x | y =>
    cases hc
    decide

/-- A term is read back. -/
theorem Term.read?_text {t : Term} (h : t.WellFormed) : Term.read? t.text = some t := by
  have hscan := Factor.scan_text_append h.factor fun _ => t.monomial.endsBefore_symbol
  unfold Term.read? Term.text
  rw [hscan]
  obtain ⟨factor, monomial⟩ := t
  cases monomial with
  | square => rfl
  | x => rfl
  | y => rfl
  | one =>
    obtain ⟨hstar, l, hl, hplain⟩ := h.number rfl
    obtain ⟨sign, literal, star⟩ := factor
    cases hl
    cases hstar
    simp [Monomial.symbol, hplain]

/-! ### Rows of terms -/

namespace Terms

/-- Whether a character is neither a sign nor a parenthesis. -/
def Ordinary (c : Char) : Prop :=
  c ∉ ['+', '-', '(', ')']

/-- An ordinary character opens and closes nothing. -/
theorem nesting_of_ordinary {c : Char} (h : Ordinary c) : nesting c = 0 := by
  unfold nesting
  split
  · exact absurd (by simp) h
  · exact absurd (by simp) h
  · rfl

/-- Ordinary characters do not end a term. -/
theorem splitFrom_ordinary {text : List Char} (h : ∀ c ∈ text, Ordinary c) (depth : Int)
    (current rest : List Char) :
    splitFrom depth current (text ++ rest) = splitFrom depth (text.reverse ++ current) rest := by
  induction text generalizing current with
  | nil => rfl
  | cons c text ih =>
    have hc : c ≠ '+' ∧ c ≠ '-' ∧ c ≠ '(' ∧ c ≠ ')' := by simpa [Ordinary] using h c (by simp)
    obtain ⟨hplus, hminus, -⟩ := hc
    have hnesting : nesting c = 0 := nesting_of_ordinary (h c (by simp))
    have hstep : splitFrom depth current (c :: (text ++ rest)) =
        splitFrom depth (c :: current) (text ++ rest) := by
      rw [splitFrom, if_neg (by simp [hplus, hminus]), hnesting, Int.add_zero]
    rw [List.cons_append, hstep, ih fun d hd => h d (by simp [hd])]
    simp

/-- A sign that joins no terms does not end one either. -/
theorem splitFrom_sign {s : Char} (hs : Signs.isSign s = true) {current rest : List Char}
    (h : joins current rest = false) :
    splitFrom 0 current (s :: rest) = splitFrom 0 (s :: current) rest := by
  have hnesting : nesting s = 0 := by
    rcases Signs.isSign_iff.mp hs with rfl | rfl <;> rfl
  rw [splitFrom, if_neg (by simp [h]), hnesting, Int.zero_add]

/-- A sign that joins terms ends one. -/
theorem splitFrom_join {s : Char} (hs : Signs.isSign s = true) {current rest : List Char}
    (h : joins current rest = true) :
    splitFrom 0 current (s :: rest) = current.reverse :: splitFrom 0 [s] rest := by
  have hsign : (s == '+' || s == '-') = true := hs
  rw [splitFrom, if_pos (by simp [h, hsign])]

end Terms

namespace Literal

/-- The digits and the point. -/
def mantissa (l : Literal) : List Char :=
  l.whole ++ fractionText l.fraction

/-- A sign of the power of ten is one of the number: the mark stands behind a digit. -/
def Tight (l : Literal) : Prop :=
  ∀ p ∈ l.power, p.sign ≠ none → l.fraction ≠ some []

variable {l : Literal}

/-- Behind the mantissa stands the power of ten. -/
theorem text_eq (l : Literal) : l.text = l.mantissa ++ powerText l.power := by
  simp [text, mantissa]

/-- The characters of a mantissa. -/
theorem mem_mantissa (hl : l.WellFormed Text.isAsciiDigit) {c : Char} (h : c ∈ l.mantissa) :
    Text.isAsciiDigit c = true ∨ c = '.' := by
  rcases List.mem_append.mp h with h | h
  · exact Or.inl (hl.whole c h)
  · cases hf : l.fraction with
    | none => rw [hf] at h; cases h
    | some digits =>
      rw [hf] at h
      rcases List.mem_cons.mp h with rfl | h
      · exact Or.inr rfl
      · exact Or.inl (hl.fraction digits hf c h)

/-- A mantissa ends in a digit, unless it ends in the point. -/
theorem exists_last_mantissa (hl : l.WellFormed Text.isAsciiDigit) (h : l.fraction ≠ some []) :
    ∃ u c, l.mantissa = u ++ [c] ∧ Text.isAsciiDigit c = true := by
  cases hf : l.fraction with
  | none =>
    have hne : l.whole ≠ [] := by simpa [digits, hf] using hl.nonempty
    refine ⟨l.whole.dropLast, l.whole.getLast hne, ?_, hl.whole _ (List.getLast_mem hne)⟩
    rw [List.dropLast_append_getLast, mantissa, hf, fractionText, List.append_nil]
  | some digits =>
    have hne : digits ≠ [] := fun hnil => h (by rw [hf, hnil])
    refine ⟨l.whole ++ '.' :: digits.dropLast, digits.getLast hne, ?_,
      hl.fraction digits hf _ (List.getLast_mem hne)⟩
    rw [List.append_assoc, List.cons_append, List.dropLast_append_getLast, mantissa, hf,
      fractionText]

/-- A digit is an ordinary character. -/
theorem ordinary_of_digit {c : Char} (h : Text.isAsciiDigit c = true) : Terms.Ordinary c := by
  intro hc
  simp only [List.mem_cons, List.not_mem_nil, or_false] at hc
  rcases hc with rfl | rfl | rfl | rfl <;> exact absurd h (by decide)

/-- So is everything in a mantissa. -/
theorem ordinary_of_mem_mantissa (hl : l.WellFormed Text.isAsciiDigit) {c : Char}
    (h : c ∈ l.mantissa) : Terms.Ordinary c := by
  rcases mem_mantissa hl h with h | rfl
  · exact ordinary_of_digit h
  · unfold Terms.Ordinary
    decide

/-- No term ends within a literal. -/
theorem splitFrom_text (hl : l.WellFormed Text.isAsciiDigit) (ht : l.Tight)
    (current rest : List Char) :
    Terms.splitFrom 0 current (l.text ++ rest) =
      Terms.splitFrom 0 (l.text.reverse ++ current) rest := by
  have hmantissa : ∀ c ∈ l.mantissa, Terms.Ordinary c := fun c hc => ordinary_of_mem_mantissa hl hc
  rw [text_eq]
  cases hp : l.power with
  | none =>
    rw [powerText, List.append_nil]
    exact Terms.splitFrom_ordinary hmantissa 0 current rest
  | some p =>
    obtain ⟨mark, sign, digits⟩ := p
    have hpower := hl.power _ hp
    have hmark : Terms.Ordinary mark := by
      unfold Terms.Ordinary
      rcases hpower.mark with hm | hm <;> dsimp only at hm <;> rw [hm] <;> decide
    have hdigits : ∀ c ∈ digits, Terms.Ordinary c := fun c hc =>
      ordinary_of_digit (hpower.digits c hc)
    have hfront : ∀ c ∈ l.mantissa ++ [mark], Terms.Ordinary c := by
      intro c hc
      rcases List.mem_append.mp hc with hc | hc
      · exact hmantissa c hc
      · exact List.mem_singleton.mp hc ▸ hmark
    have htext : l.mantissa ++ powerText (some ⟨mark, sign, digits⟩) ++ rest =
        l.mantissa ++ [mark] ++ (sign.toList ++ (digits ++ rest)) := by
      simp [powerText, Power.text]
    rw [htext, Terms.splitFrom_ordinary hfront]
    cases sign with
    | none =>
      rw [Option.toList_none, List.nil_append, Terms.splitFrom_ordinary hdigits]
      simp [powerText, Power.text]
    | some s =>
      -- The digit before the mark and the one behind the sign keep the sign in the number.
      obtain ⟨u, d, hlast, hd⟩ := exists_last_mantissa hl (ht _ hp (by simp))
      obtain ⟨e, digits, rfl⟩ := List.exists_cons_of_ne_nil hpower.nonempty
      have he : Text.isAsciiDigit e = true := hpower.digits e (by simp)
      have hs : Signs.isSign s = true := Signs.isSign_iff.mpr (hpower.sign s rfl)
      have hjoins : Terms.joins ((l.mantissa ++ [mark]).reverse ++ current)
          (e :: (digits ++ rest)) = false := by
        have hmark' : (mark == 'e' || mark == 'E') = true := by simpa using hpower.mark
        simp [Terms.joins, Terms.inPower, hlast, hd, he, hmark']
      have hstep := Terms.splitFrom_sign hs hjoins
      have hbehind := Terms.splitFrom_ordinary hdigits 0
        (s :: ((l.mantissa ++ [mark]).reverse ++ current)) rest
      rw [List.cons_append] at hbehind
      rw [Option.toList_some, List.singleton_append, List.cons_append, hstep, hbehind]
      simp [powerText, Power.text]

/-- What a literal ends in: a digit or the point. -/
theorem exists_last_text (hl : l.WellFormed Text.isAsciiDigit) :
    ∃ u c, l.text = u ++ [c] ∧ (Text.isAsciiDigit c = true ∨ c = '.') := by
  rw [text_eq]
  cases hp : l.power with
  | none =>
    by_cases hf : l.fraction = some []
    · exact ⟨l.whole, '.', by simp [mantissa, hf, fractionText, powerText], Or.inr rfl⟩
    · obtain ⟨u, c, hlast, hc⟩ := exists_last_mantissa hl hf
      exact ⟨u, c, by simp [hlast, powerText], Or.inl hc⟩
  | some p =>
    have hpower := hl.power _ hp
    refine ⟨l.mantissa ++ p.mark :: (p.sign.toList ++ p.digits.dropLast),
      p.digits.getLast hpower.nonempty, ?_,
      Or.inl (hpower.digits _ (List.getLast_mem hpower.nonempty))⟩
    rw [List.append_assoc, List.cons_append, List.append_assoc, List.dropLast_append_getLast]
    rfl

/-- A digit is no sign. -/
theorem isSign_of_digit {c : Char} (h : Text.isAsciiDigit c = true) : Signs.isSign c = false := by
  obtain ⟨hplus, hminus⟩ := ne_sign_of_digit isDigitClass_isAsciiDigit h
  simp [Signs.isSign, hplus, hminus]

/-- A literal does not end in a sign. -/
theorem isSign_of_mem_getLast? (hl : l.WellFormed Text.isAsciiDigit) {c : Char}
    (h : c ∈ l.text.getLast?) : Signs.isSign c = false := by
  obtain ⟨u, d, htext, hd⟩ := exists_last_text hl
  rw [htext, List.getLast?_concat, Option.mem_some_iff] at h
  subst h
  rcases hd with hd | rfl
  · exact isSign_of_digit hd
  · rfl

/-- A literal does not begin with a sign. -/
theorem isSign_of_mem_head? (hl : l.WellFormed Text.isAsciiDigit) {c : Char}
    (h : c ∈ l.text.head?) : Signs.isSign c = false := by
  obtain ⟨hplus, hminus⟩ := head_text_ne_sign isDigitClass_isAsciiDigit hl c h
  simp [Signs.isSign, hplus, hminus]

/-- In a literal no two signs stand side by side. -/
theorem settled_text (hl : l.WellFormed Text.isAsciiDigit) : Signs.Settled l.text := by
  have hmantissa : ∀ c ∈ l.mantissa, Signs.isSign c = false := by
    intro c hc
    rcases mem_mantissa hl hc with hc | rfl
    · exact isSign_of_digit hc
    · rfl
  rw [text_eq]
  cases hp : l.power with
  | none =>
    rw [powerText, List.append_nil]
    exact Signs.settled_of_not_isSign hmantissa
  | some p =>
    have hpower := hl.power p hp
    have hdigits : ∀ c ∈ p.digits, Signs.isSign c = false := fun c hc =>
      isSign_of_digit (hpower.digits c hc)
    have hmark : Signs.isSign p.mark = false := by
      rcases hpower.mark with hm | hm <;> rw [hm] <;> rfl
    have hfront : Signs.Settled (l.mantissa ++ [p.mark]) := by
      refine Signs.settled_of_not_isSign fun c hc => ?_
      rcases List.mem_append.mp hc with hc | hc
      · exact hmantissa c hc
      · exact List.mem_singleton.mp hc ▸ hmark
    have hsign : Signs.Settled p.sign.toList := by
      cases p.sign <;> simp [Signs.Settled]
    have hbehind : Signs.Settled (p.sign.toList ++ p.digits) :=
      hsign.append (Signs.settled_of_not_isSign hdigits)
        (Or.inr fun c hc => hdigits c (List.mem_of_mem_head? hc))
    have htext : l.mantissa ++ powerText (some p) =
        l.mantissa ++ [p.mark] ++ (p.sign.toList ++ p.digits) := by
      simp [powerText, Power.text]
    have hlast : ∀ c ∈ (l.mantissa ++ [p.mark]).getLast?, Signs.isSign c = false := by
      intro c hc
      rw [List.getLast?_concat, Option.mem_some_iff] at hc
      exact hc ▸ hmark
    rw [htext]
    exact hfront.append hbehind (Or.inl hlast)

end Literal

namespace Term

/-- What stands behind the sign of a term. -/
def body (t : Term) : List Char :=
  Factor.literalText t.factor.literal ++ (Factor.starText t.factor.star ++ t.monomial.symbol)

/-- A term of ASCII digits that no row of terms is cut within. -/
structure Tight (t : Term) : Prop extends t.WellFormed where
  /-- The digits are ASCII digits. -/
  ascii : ∀ l ∈ t.factor.literal, l.WellFormed Text.isAsciiDigit
  /-- A sign of the power of ten is one of the number. -/
  tight : ∀ l ∈ t.factor.literal, l.Tight

/-- A term is its sign and its body. -/
theorem text_eq (t : Term) : t.text = t.factor.sign.toList ++ t.body := by
  simp [text, body, Factor.text]

/-- Star and symbol are ordinary. -/
theorem ordinary_of_mem {t : Term} {c : Char}
    (h : c ∈ Factor.starText t.factor.star ++ t.monomial.symbol) : Terms.Ordinary c := by
  unfold Terms.Ordinary
  rcases List.mem_append.mp h with h | h
  · cases hs : t.factor.star <;> rw [hs] at h <;> simp [Factor.starText] at h
    rw [h]
    decide
  · cases hm : t.monomial <;> rw [hm] at h <;> simp [Monomial.symbol] at h
    · rcases h with rfl | rfl | rfl <;> decide
    · rw [h]
      decide
    · rw [h]
      decide

/-- No term ends within the body of one. -/
theorem splitFrom_body {t : Term} (ht : t.Tight) (current rest : List Char) :
    Terms.splitFrom 0 current (t.body ++ rest) =
      Terms.splitFrom 0 (t.body.reverse ++ current) rest := by
  have hordinary := Terms.splitFrom_ordinary fun (c : Char)
    (hc : c ∈ Factor.starText t.factor.star ++ t.monomial.symbol) => ordinary_of_mem hc
  unfold body
  cases hl : t.factor.literal with
  | none =>
    rw [Factor.literalText, List.nil_append]
    exact hordinary 0 current rest
  | some l =>
    have hliteral := Literal.splitFrom_text (ht.ascii l hl) (ht.tight l hl)
    rw [Factor.literalText, List.append_assoc, hliteral, hordinary, ← List.append_assoc, ← List.reverse_append]

/-- What a term ends in is neither an operator nor the mark of a power. -/
theorem exists_last_text {t : Term} (ht : t.WellFormed) :
    ∃ u c, t.body = u ++ [c] ∧ c ∉ ['^', '*', '/', 'e', 'E', '+', '-'] := by
  obtain ⟨⟨sign, literal, star⟩, monomial⟩ := t
  have hlast : ∀ u v c, v ++ [c] = u → ∃ w, Factor.literalText literal ++
      (Factor.starText star ++ u) = w ++ [c] := by
    rintro u v c rfl
    exact ⟨Factor.literalText literal ++ (Factor.starText star ++ v), by simp⟩
  cases monomial with
  | square =>
    obtain ⟨w, hw⟩ := hlast ['x', '^', '2'] ['x', '^'] '2' rfl
    exact ⟨w, '2', hw, by decide⟩
  | x =>
    obtain ⟨w, hw⟩ := hlast ['x'] [] 'x' rfl
    exact ⟨w, 'x', hw, by decide⟩
  | y =>
    obtain ⟨w, hw⟩ := hlast ['y'] [] 'y' rfl
    exact ⟨w, 'y', hw, by decide⟩
  | one =>
    obtain ⟨hstar, l, hl, hplain⟩ := ht.number rfl
    have hascii := (ht.factor.literal l hl).of_isPlain hplain
    cases hl
    cases hstar
    obtain ⟨u, c, htext, hc⟩ := Literal.exists_last_text hascii
    have hbody : body ⟨⟨sign, some l, false⟩, .one⟩ = u ++ [c] := by
      simpa [body, Factor.literalText, Factor.starText, Monomial.symbol] using htext
    refine ⟨u, c, hbody, ?_⟩
    rcases hc with hc | rfl
    · intro hmem
      simp only [List.mem_cons, List.not_mem_nil, or_false] at hmem
      rcases hmem with rfl | rfl | rfl | rfl | rfl | rfl | rfl <;> exact absurd hc (by decide)
    · decide

end Term

namespace Terms

/-- Behind a term every sign joins another one. -/
theorem joins_of_last {c : Char} (h : c ∉ ['^', '*', '/', 'e', 'E', '+', '-'])
    (current rest : List Char) : joins (c :: current) rest = true := by
  simp only [List.mem_cons, List.not_mem_nil, or_false, not_or] at h
  have hmark : (c == 'e' || c == 'E') = false := by simp [h.2.2.2.1, h.2.2.2.2.1]
  have hpower : inPower (c :: current) rest = false := by
    unfold inPower
    split
    · next mark _ _ _ _ heq =>
      obtain ⟨rfl, -⟩ := List.cons.inj heq
      rw [hmark, Bool.false_and, Bool.false_and]
    · rfl
  simp [joins, hpower, h.1, h.2.1, h.2.2.1]

/-- A row of further terms is cut before each of them. -/
theorem splitFrom_texts {ts : List Term} (hts : ∀ t ∈ ts, t.Tight ∧ t.factor.sign ≠ none)
    {current : List Char} {c : Char} (hc : c ∉ ['^', '*', '/', 'e', 'E', '+', '-']) :
    splitFrom 0 (c :: current) (ts.flatMap Term.text) =
      (c :: current).reverse :: ts.map Term.text := by
  induction ts generalizing c current with
  | nil => rfl
  | cons t ts ih =>
    obtain ⟨htight, hsign⟩ := hts t (by simp)
    obtain ⟨s, hs⟩ := Option.ne_none_iff_exists'.mp hsign
    have hsSign : Signs.isSign s = true := Signs.isSign_iff.mpr (htight.factor.sign s hs)
    have htext : t.text = s :: t.body := by rw [Term.text_eq, hs]; rfl
    obtain ⟨u, d, hbody, hd⟩ := Term.exists_last_text htight.toWellFormed
    have hrest : splitFrom 0 (d :: (u.reverse ++ [s])) (ts.flatMap Term.text) =
        (d :: (u.reverse ++ [s])).reverse :: ts.map Term.text :=
      ih (fun t ht => hts t (by simp [ht])) hd
    have hcurrent : t.body.reverse ++ [s] = d :: (u.reverse ++ [s]) := by simp [hbody]
    have hreverse : (d :: (u.reverse ++ [s])).reverse = t.text := by simp [htext, hbody]
    rw [List.flatMap_cons, List.map_cons, htext, List.cons_append,
      splitFrom_join hsSign (joins_of_last hc _ _), Term.splitFrom_body htight, hcurrent, hrest,
      hreverse, htext]

/-- A row of terms is cut into its terms. -/
theorem split_texts {t : Term} {ts : List Term} (ht : t.Tight)
    (hts : ∀ t ∈ ts, t.Tight ∧ t.factor.sign ≠ none) :
    split ((t :: ts).flatMap Term.text) = (t :: ts).map Term.text := by
  obtain ⟨u, d, hbody, hd⟩ := Term.exists_last_text ht.toWellFormed
  have hfirst : splitFrom 0 [] (t.text ++ ts.flatMap Term.text) =
      splitFrom 0 t.text.reverse (ts.flatMap Term.text) := by
    rw [Term.text_eq]
    cases hs : t.factor.sign with
    | none =>
      rw [Option.toList_none, List.nil_append, Term.splitFrom_body ht, List.append_nil]
    | some s =>
      have hsSign : Signs.isSign s = true := Signs.isSign_iff.mpr (ht.factor.sign s hs)
      rw [Option.toList_some, List.singleton_append, List.cons_append, splitFrom_sign hsSign rfl,
        Term.splitFrom_body ht, List.reverse_cons]
  have hreverse : t.text.reverse = d :: (u.reverse ++ t.factor.sign.toList.reverse) := by
    simp [Term.text_eq, hbody]
  rw [split, List.flatMap_cons, hfirst, hreverse, splitFrom_texts hts hd, ← hreverse,
    List.reverse_reverse, List.map_cons]

/-- Terms that are read one by one are read together. -/
theorem readAll_texts {ts : List Term} (hts : ∀ t ∈ ts, t.WellFormed) :
    readAll (ts.map Term.text) = .ok ts := by
  induction ts with
  | nil => rfl
  | cons t ts ih =>
    rw [List.map_cons, readAll, Term.read?_text (hts t (by simp)),
      ih fun t ht => hts t (by simp [ht])]
    rfl

/-- A row of terms is read as these terms. -/
theorem read_texts {t : Term} {ts : List Term} (ht : t.Tight)
    (hts : ∀ t ∈ ts, t.Tight ∧ t.factor.sign ≠ none) {text : List Char}
    (htext : Signs.normalize text = (t :: ts).flatMap Term.text) : read text = .ok (t :: ts) := by
  have hwell : ∀ t' ∈ t :: ts, t'.WellFormed := by
    intro t' ht'
    rcases List.mem_cons.mp ht' with rfl | ht'
    · exact ht.toWellFormed
    · exact (hts t' ht').1.toWellFormed
  simp only [read, htext, split_texts ht hts, readAll_texts hwell]
  rfl

end Terms

end CurvePlot
