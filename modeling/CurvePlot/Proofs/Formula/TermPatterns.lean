import CurvePlot.Proofs.Formula.CollectedTerms
import CurvePlot.Proofs.Formula.PolynomialMeaning
import Mathlib.Computability.RegularExpressions

/-!
# The patterns of terms and the cuts between them

What a term may look like is said by a regular expression for each symbol (`Monomial.pattern`);
over ASCII digits the texts that match are those of terms (`Monomial.pattern_rmatch_iff`). The cuts
between the terms of a sum are found by looking at single characters instead. Both agree but for one
form of numbers: the patterns let a signed power of ten stand right behind the point, as in `1.e-3`,
while the cut asks for a digit in front of the mark. Matching texts are cut apart as they were put
together just when none of them has that form (`Terms.split_flatten_iff_and_readQuadratic_iff`).
-/

namespace CurvePlot

/-! ### Regular expressions over characters -/

namespace Pattern

open RegularExpression

/-- One of the characters. -/
def anyOf (cs : List Char) : RegularExpression Char :=
  (cs.map .char).foldr (· + ·) 0

/-- The expression or nothing. -/
def optional (pattern : RegularExpression Char) : RegularExpression Char :=
  1 + pattern

/-- The text itself. -/
def word (text : List Char) : RegularExpression Char :=
  (text.map .char).foldr (· * ·) 1

/-- Any number of ASCII digits. -/
def digits : RegularExpression Char :=
  (anyOf ['0', '1', '2', '3', '4', '5', '6', '7', '8', '9']).star

/-- At least one ASCII digit. -/
def someDigits : RegularExpression Char :=
  anyOf ['0', '1', '2', '3', '4', '5', '6', '7', '8', '9'] * digits

/-- Digits with an optional point and further digits, or a point and digits. -/
def mantissa : RegularExpression Char :=
  someDigits * (optional (.char '.') * digits) + .char '.' * someDigits

/-- A sign. -/
def sign : RegularExpression Char :=
  anyOf ['+', '-']

/-- A power of ten. -/
def power : RegularExpression Char :=
  anyOf ['e', 'E'] * (optional sign * someDigits)

/-- A number without a sign. -/
def number : RegularExpression Char :=
  mantissa * optional power

end Pattern

/-- The terms with a symbol: a number, a star and a sign are optional where there is a symbol, else
a number with an optional sign. -/
def Monomial.pattern : Monomial → RegularExpression Char
  | one => Pattern.optional Pattern.sign * Pattern.number
  | m => Pattern.optional Pattern.sign *
      (Pattern.optional Pattern.number * (Pattern.optional (.char '*') * Pattern.word m.symbol))

namespace Pattern

open RegularExpression

variable {p q : RegularExpression Char} {text : List Char}

/-- Alternatives match what one of them matches. -/
theorem add_rmatch : (p + q).rmatch text = true ↔ p.rmatch text = true ∨ q.rmatch text = true := by
  simp only [rmatch_iff_matches', matches'_add, Language.mem_add]

/-- A sequence matches a text in two parts. -/
theorem mul_rmatch : (p * q).rmatch text = true ↔
    ∃ u v, p.rmatch u = true ∧ q.rmatch v = true ∧ u ++ v = text := by
  simp only [rmatch_iff_matches', matches'_mul, Language.mem_mul]
  constructor
  · rintro ⟨u, hu, v, hv, htext⟩
    exact ⟨u, v, hu, hv, htext⟩
  · rintro ⟨u, v, hu, hv, htext⟩
    exact ⟨u, hu, v, hv, htext⟩

/-- An optional expression matches the empty text, too. -/
theorem optional_rmatch : (optional p).rmatch text = true ↔ text = [] ∨ p.rmatch text = true := by
  rw [optional, add_rmatch, one_rmatch_iff]

/-- A choice of characters matches each of them. -/
theorem anyOf_rmatch {cs : List Char} :
    (anyOf cs).rmatch text = true ↔ ∃ c ∈ cs, text = [c] := by
  induction cs with
  | nil => simp [anyOf]
  | cons c cs ih =>
    have hcons : anyOf (c :: cs) = .char c + anyOf cs := rfl
    rw [hcons, add_rmatch, char_rmatch_iff, ih, List.exists_mem_cons_iff]

/-- A text matches itself alone. -/
theorem word_rmatch {symbol : List Char} :
    (word symbol).rmatch text = true ↔ text = symbol := by
  induction symbol generalizing text with
  | nil => exact one_rmatch_iff text
  | cons c symbol ih =>
    have hcons : word (c :: symbol) = .char c * word symbol := rfl
    simp only [hcons, mul_rmatch, char_rmatch_iff, ih]
    constructor
    · rintro ⟨u, v, rfl, rfl, rfl⟩
      rfl
    · rintro rfl
      exact ⟨[c], symbol, rfl, rfl, rfl⟩

/-- The ten digits. -/
theorem mem_digits {c : Char} :
    c ∈ ['0', '1', '2', '3', '4', '5', '6', '7', '8', '9'] ↔ Text.isAsciiDigit c = true := by
  constructor
  · intro h
    simp only [List.mem_cons, List.not_mem_nil, or_false] at h
    rcases h with rfl | rfl | rfl | rfl | rfl | rfl | rfl | rfl | rfl | rfl <;> rfl
  · intro h
    rw [Text.isAsciiDigit, Bool.and_eq_true, decide_eq_true_eq, decide_eq_true_eq] at h
    have hlow : 48 ≤ c.toNat := h.1
    have hhigh : c.toNat ≤ 57 := h.2
    rw [← Char.ofNat_toNat c]
    interval_cases c.toNat <;> decide

/-- Rows of digits match the expression for them. -/
theorem digits_rmatch : digits.rmatch text = true ↔ ∀ c ∈ text, Text.isAsciiDigit c = true := by
  simp only [digits, rmatch_iff_matches', matches'_star, Language.mem_kstar]
  constructor
  · rintro ⟨parts, rfl, hparts⟩ c hc
    obtain ⟨part, hpart, hc⟩ := List.mem_flatten.mp hc
    obtain ⟨d, hd, rfl⟩ := anyOf_rmatch.mp ((rmatch_iff_matches' _ _).mpr (hparts part hpart))
    rw [List.mem_singleton.mp hc]
    exact mem_digits.mp hd
  · intro h
    have hflatten : text = (text.map fun c => [c]).flatten := by
      rw [← List.flatMap_def, List.flatMap_singleton']
    refine ⟨text.map fun c => [c], hflatten, fun part hpart => ?_⟩
    obtain ⟨c, hc, rfl⟩ := List.mem_map.mp hpart
    exact (rmatch_iff_matches' _ _).mp (anyOf_rmatch.mpr ⟨c, mem_digits.mpr (h c hc), rfl⟩)

/-- Rows of digits that are not empty match the expression for them. -/
theorem someDigits_rmatch :
    someDigits.rmatch text = true ↔ text ≠ [] ∧ ∀ c ∈ text, Text.isAsciiDigit c = true := by
  simp only [someDigits, mul_rmatch, anyOf_rmatch, digits_rmatch]
  constructor
  · rintro ⟨u, v, ⟨c, hc, rfl⟩, hv, rfl⟩
    refine ⟨by simp, fun d hd => ?_⟩
    rcases List.mem_cons.mp hd with rfl | hd
    · exact mem_digits.mp hc
    · exact hv d hd
  · rintro ⟨hne, h⟩
    obtain ⟨c, rest, rfl⟩ := List.exists_cons_of_ne_nil hne
    exact ⟨[c], rest, ⟨c, mem_digits.mpr (h c (by simp)), rfl⟩,
      fun d hd => h d (List.mem_cons_of_mem c hd), rfl⟩

/-- The written forms of a mantissa. -/
theorem mantissa_rmatch : mantissa.rmatch text = true ↔
    ∃ whole fraction, (∀ c ∈ whole, Text.isAsciiDigit c = true) ∧
      (∀ digits ∈ fraction, ∀ c ∈ digits, Text.isAsciiDigit c = true) ∧
      whole ++ fraction.getD [] ≠ [] ∧ whole ++ Literal.fractionText fraction = text := by
  simp only [mantissa, add_rmatch, mul_rmatch, optional_rmatch, char_rmatch_iff, digits_rmatch,
    someDigits_rmatch]
  constructor
  · rintro (⟨u, v, ⟨hne, hu⟩, ⟨point, digits, hpoint, hdigits, rfl⟩, rfl⟩ |
      ⟨u, digits, rfl, ⟨hne, hdigits⟩, rfl⟩)
    · rcases hpoint with rfl | rfl
      · refine ⟨u ++ digits, none, fun c hc => ?_, by simp, by simp [hne], by
          simp [Literal.fractionText]⟩
        exact (List.mem_append.mp hc).elim (hu c) (hdigits c)
      · exact ⟨u, some digits, hu, by simpa using hdigits, by simp [hne], by
          simp [Literal.fractionText]⟩
    · exact ⟨[], some digits, by simp, by simpa using hdigits, by simpa using hne, rfl⟩
  · rintro ⟨whole, fraction, hwhole, hfraction, hne, rfl⟩
    cases fraction with
    | none =>
      exact Or.inl ⟨whole, [], ⟨by simpa using hne, hwhole⟩,
        ⟨[], [], Or.inl rfl, by simp, rfl⟩, rfl⟩
    | some digits =>
      cases whole with
      | nil => exact Or.inr ⟨['.'], digits, rfl, ⟨by simpa using hne, hfraction digits rfl⟩, rfl⟩
      | cons c whole =>
        exact Or.inl ⟨c :: whole, '.' :: digits, ⟨by simp, hwhole⟩,
          ⟨['.'], digits, Or.inr rfl, hfraction digits rfl, rfl⟩, rfl⟩

/-- The written forms of a sign. -/
theorem sign_rmatch : (optional sign).rmatch text = true ↔
    ∃ s : Option Char, (∀ c ∈ s, c = '+' ∨ c = '-') ∧ s.toList = text := by
  rw [optional_rmatch, sign, anyOf_rmatch]
  constructor
  · rintro (rfl | ⟨c, hc, rfl⟩)
    · exact ⟨none, by simp, rfl⟩
    · exact ⟨some c, by simpa using hc, rfl⟩
  · rintro ⟨s, hs, rfl⟩
    cases s with
    | none => exact Or.inl rfl
    | some c => exact Or.inr ⟨c, by simpa using hs c rfl, rfl⟩

/-- The written forms of a power of ten. -/
theorem power_rmatch : power.rmatch text = true ↔
    ∃ p : Literal.Power, p.WellFormed Text.isAsciiDigit ∧ p.text = text := by
  simp only [power, mul_rmatch, sign_rmatch, anyOf_rmatch, someDigits_rmatch]
  constructor
  · rintro ⟨u, v, ⟨mark, hmark, rfl⟩, ⟨_, digits, ⟨s, hs, rfl⟩, ⟨hne, hdigits⟩, rfl⟩, rfl⟩
    exact ⟨⟨mark, s, digits⟩, ⟨by simpa using hmark, hs, hne, hdigits⟩, rfl⟩
  · rintro ⟨⟨mark, s, digits⟩, ⟨hmark, hs, hne, hdigits⟩, rfl⟩
    exact ⟨[mark], s.toList ++ digits, ⟨mark, by simpa using hmark, rfl⟩,
      ⟨s.toList, digits, ⟨s, hs, rfl⟩, ⟨hne, hdigits⟩, rfl⟩, rfl⟩

/-- The written forms of a number are those of the literals. -/
theorem number_rmatch : number.rmatch text = true ↔
    ∃ l : Literal, l.WellFormed Text.isAsciiDigit ∧ l.text = text := by
  simp only [number, mul_rmatch, mantissa_rmatch, optional_rmatch, power_rmatch]
  constructor
  · rintro ⟨u, v, ⟨whole, fraction, hwhole, hfraction, hne, rfl⟩, hpower, rfl⟩
    rcases hpower with rfl | ⟨p, hp, rfl⟩
    · exact ⟨⟨whole, fraction, none⟩, ⟨hwhole, hfraction, hne, by simp⟩, by
        simp [Literal.text, Literal.powerText]⟩
    · exact ⟨⟨whole, fraction, some p⟩, ⟨hwhole, hfraction, hne, by simpa using hp⟩, by
        simp [Literal.text, Literal.powerText]⟩
  · rintro ⟨l, hl, rfl⟩
    refine ⟨l.mantissa, Literal.powerText l.power,
      ⟨l.whole, l.fraction, hl.whole, hl.fraction, hl.nonempty, rfl⟩, ?_, l.text_eq.symm⟩
    cases hp : l.power with
    | none => exact Or.inl rfl
    | some p => exact Or.inr ⟨p, hl.power p hp, rfl⟩

/-- The written forms of the optional number in front of a symbol. -/
theorem optional_number_rmatch : (optional number).rmatch text = true ↔
    ∃ l : Option Literal, (∀ number ∈ l, number.WellFormed Text.isAsciiDigit) ∧
      Factor.literalText l = text := by
  rw [optional_rmatch, number_rmatch]
  constructor
  · rintro (rfl | ⟨l, hl, rfl⟩)
    · exact ⟨none, by simp, rfl⟩
    · exact ⟨some l, by simpa using hl, rfl⟩
  · rintro ⟨l, hl, rfl⟩
    cases l with
    | none => exact Or.inl rfl
    | some l => exact Or.inr ⟨l, hl l rfl, rfl⟩

/-- The written forms of the optional star in front of a symbol. -/
theorem star_rmatch : (optional (.char '*')).rmatch text = true ↔
    ∃ star, Factor.starText star = text := by
  rw [optional_rmatch, char_rmatch_iff, Bool.exists_bool]
  exact ⟨fun h => h.imp Eq.symm Eq.symm, fun h => h.imp Eq.symm Eq.symm⟩

end Pattern

/-- A factor of ASCII digits is one as it is scanned. -/
theorem Factor.wellFormed_of_ascii {f : Factor} (hf : f.Ascii) : f.WellFormed true :=
  ⟨hf.sign, fun l hl => (hf.literal l hl).mono fun _ => Text.isDecimalDigit_of_isAsciiDigit,
    by simp⟩

/-- The texts that match the pattern of a symbol are those of the terms of ASCII digits in it. -/
theorem Monomial.pattern_rmatch_iff {m : Monomial} {text : List Char} :
    m.pattern.rmatch text = true ↔ ∃ t : Term, t.Ascii ∧ t.monomial = m ∧ t.text = text := by
  by_cases hone : m = .one
  · subst hone
    simp only [pattern, Pattern.mul_rmatch, Pattern.sign_rmatch, Pattern.number_rmatch]
    constructor
    · rintro ⟨_, _, ⟨s, hs, rfl⟩, ⟨l, hl, rfl⟩, rfl⟩
      have hfactor : Factor.Ascii ⟨s, some l, false⟩ := ⟨hs, by simpa using hl⟩
      have hplain : l.isPlain = true := Literal.isPlain_of_wellFormed hl
      refine ⟨⟨⟨s, some l, false⟩, .one⟩, ⟨⟨Factor.wellFormed_of_ascii hfactor, ?_⟩,
        hfactor.literal⟩, rfl, ?_⟩
      · exact fun _ => ⟨rfl, l, rfl, hplain⟩
      · simp [Term.text, Factor.text, Factor.literalText, Factor.starText, symbol]
    · rintro ⟨⟨⟨s, literal, star⟩, _⟩, ht, rfl, rfl⟩
      obtain ⟨rfl, l, rfl, -⟩ := ht.number rfl
      refine ⟨s.toList, l.text, ⟨s, ht.factor.sign, rfl⟩, ⟨l, ht.ascii l rfl, rfl⟩, ?_⟩
      simp [Term.text, Factor.text, Factor.literalText, Factor.starText, symbol]
  · have hpattern : m.pattern = Pattern.optional Pattern.sign * (Pattern.optional Pattern.number *
        (Pattern.optional (.char '*') * Pattern.word m.symbol)) := by
      cases m <;> first | rfl | exact absurd rfl hone
    simp only [hpattern, Pattern.mul_rmatch, Pattern.sign_rmatch, Pattern.optional_number_rmatch,
      Pattern.star_rmatch, Pattern.word_rmatch]
    constructor
    · rintro ⟨_, _, ⟨s, hs, rfl⟩, ⟨_, _, ⟨l, hl, rfl⟩, ⟨_, _, ⟨star, rfl⟩, rfl, rfl⟩, rfl⟩, rfl⟩
      have hfactor : Factor.Ascii ⟨s, l, star⟩ := ⟨hs, hl⟩
      refine ⟨⟨⟨s, l, star⟩, m⟩, ⟨⟨Factor.wellFormed_of_ascii hfactor, fun h => absurd h hone⟩,
        hl⟩, rfl, ?_⟩
      simp [Term.text, Factor.text]
    · rintro ⟨⟨⟨s, l, star⟩, _⟩, ht, rfl, rfl⟩
      exact ⟨s.toList, _, ⟨s, ht.factor.sign, rfl⟩, ⟨_, _, ⟨l, ht.ascii, rfl⟩,
        ⟨_, _, ⟨star, rfl⟩, rfl, rfl⟩, rfl⟩, by simp [Term.text, Factor.text]⟩

/-! ### Rows of matching texts -/

namespace Term

/-- A term holds neither blanks nor parentheses. -/
theorem inert_of_mem_text {t : Term} (ht : t.Ascii) {c : Char} (h : c ∈ t.text) :
    Text.isBlank c = false ∧ Terms.nesting c = 0 := by
  rcases mem_text ht.toWellFormed ht.ascii h with h | h
  · exact ⟨Text.not_isBlank_of_isDecimalDigit (Text.isDecimalDigit_of_isAsciiDigit h),
      Terms.nesting_of_ordinary (Literal.ordinary_of_digit h)⟩
  · simp only [List.mem_cons, List.not_mem_nil, or_false] at h
    rcases h with rfl | rfl | rfl | rfl | rfl | rfl | rfl | rfl | rfl | rfl <;> decide

end Term

namespace Terms

/-- Whether a signed power of ten stands right behind a point. -/
def PowerBehindPoint (text : List Char) : Prop :=
  ∃ mark ∈ ['e', 'E'], ∃ s ∈ ['+', '-'], ['.', mark, s] <:+: text

instance : DecidablePred PowerBehindPoint := fun text =>
  decidable_of_iff
    ((['e', 'E'].any fun mark => ['+', '-'].any fun s => Text.contains ['.', mark, s] text) = true)
    (by simp only [PowerBehindPoint, List.any_eq_true, Text.contains_iff])

/-- A term whose text holds no signed power of ten right behind a point is tight. -/
theorem tight_of_not_powerBehindPoint {t : Term} (ht : t.Ascii) (h : ¬PowerBehindPoint t.text) :
    t.Tight := by
  refine ⟨ht.toWellFormed, ht.ascii, fun l hl p hp hsign hfraction => h ?_⟩
  obtain ⟨s, hs⟩ := Option.ne_none_iff_exists'.mp hsign
  have hpower := (ht.ascii l hl).power p hp
  refine ⟨p.mark, by simpa using hpower.mark, s, by simpa using hpower.sign s hs,
    t.factor.sign.toList ++ l.whole,
    p.digits ++ (Factor.starText t.factor.star ++ t.monomial.symbol), ?_⟩
  simp [Term.text, Factor.text, Option.mem_def.mp hl, Factor.literalText, Literal.text,
    Option.mem_def.mp hp, hfraction, Literal.fractionText, Literal.powerText,
    Literal.Power.text, hs]

/-- In front of the sign of a power of ten that stands right behind a point a term ends: in the mark
of that power. -/
theorem exists_mem_splitFrom {front : List Char} {mark s : Char} (current rest : List Char)
    (hfront : ∀ c ∈ front, nesting c = 0) (hmark : mark ∈ ['e', 'E']) (hs : s ∈ ['+', '-']) :
    ∃ part ∈ splitFrom 0 current (front ++ '.' :: mark :: s :: rest), mark ∈ part.getLast? := by
  induction front generalizing current with
  | nil =>
    have hsign : Signs.isSign s = true := Signs.isSign_iff.mpr (by simpa using hs)
    have hpoint : Text.isAsciiDigit '.' = false := rfl
    have hoperator : mark ∉ ['^', '*', '/', '+', '-', '(', ')'] := by
      simp only [List.mem_cons, List.not_mem_nil, or_false] at hmark
      rcases hmark with rfl | rfl <;> decide
    have hordinary : ∀ c ∈ ['.', mark], Ordinary c := by
      intro c hc
      rcases List.mem_cons.mp hc with rfl | hc
      · unfold Ordinary
        decide
      · rw [List.mem_singleton.mp hc]
        exact fun h => hoperator (List.mem_append_right ['^', '*', '/'] h)
    have hjoins : joins (mark :: '.' :: current) rest = true := by
      have hpower : inPower (mark :: '.' :: current) rest = false := by
        cases rest <;> simp [inPower, hpoint]
      simp only [List.mem_cons, List.not_mem_nil, or_false, not_or] at hoperator
      simp [joins, hpower, hoperator]
    have hcut : splitFrom 0 current ('.' :: mark :: s :: rest) =
        (mark :: '.' :: current).reverse :: splitFrom 0 [s] rest :=
      (splitFrom_ordinary hordinary 0 current (s :: rest)).trans (splitFrom_join hsign hjoins)
    exact ⟨_, by rw [List.nil_append, hcut]; exact List.mem_cons_self, by simp⟩
  | cons c front ih =>
    have hnesting : nesting c = 0 := hfront c (by simp)
    have hrest : ∀ d ∈ front, nesting d = 0 := fun d hd => hfront d (by simp [hd])
    rw [List.cons_append, splitFrom]
    split
    · obtain ⟨part, hpart, hlast⟩ := ih [c] hrest
      exact ⟨part, List.mem_cons_of_mem _ hpart, hlast⟩
    · rw [hnesting, Int.add_zero]
      exact ih (c :: current) hrest

/-- A text that ends in the mark of a power writes no term. -/
theorem read?_of_mark {text : List Char} {mark : Char} (hmark : mark ∈ ['e', 'E'])
    (hlast : mark ∈ text.getLast?) : Term.read? text = none := by
  rw [← Option.not_isSome_iff_eq_none, Option.isSome_iff_exists]
  rintro ⟨t, ht⟩
  obtain ⟨u, c, hbody, hc⟩ := Term.exists_last_text (Term.wellFormed_of_read? ht).1
  rw [← Term.text_of_read? ht, Term.text_eq, hbody, ← List.append_assoc, List.getLast?_concat,
    Option.mem_some_iff] at hlast
  subst hlast
  simp only [List.mem_cons, List.not_mem_nil, or_false] at hmark
  rcases hmark with rfl | rfl <;> simp at hc

/-- Where one text writes no term, some text is reported. -/
theorem exists_readAll_eq_error {texts : List (List Char)} {text : List Char} (hmem : text ∈ texts)
    (h : Term.read? text = none) : ∃ term, readAll texts = .error (.unsupported term) := by
  induction texts with
  | nil => cases hmem
  | cons first texts ih =>
    rw [readAll]
    cases hfirst : Term.read? first with
    | none => exact ⟨_, rfl⟩
    | some t =>
      have hrest : text ∈ texts := by
        rcases List.mem_cons.mp hmem with rfl | hrest
        · rw [h] at hfirst
          cases hfirst
        · exact hrest
      obtain ⟨term, hterm⟩ := ih hrest
      exact ⟨term, by rw [hterm]; rfl⟩

variable {ts : List Term}

/-- The texts of terms, one behind the other, hold no blank. -/
theorem compact_texts (hts : ∀ t ∈ ts, t.Ascii) :
    Text.compact (ts.flatMap Term.text) = ts.flatMap Term.text := by
  rw [Text.compact, List.filter_eq_self]
  intro c hc
  obtain ⟨t, ht, hc⟩ := List.mem_flatMap.mp hc
  simp [(Term.inert_of_mem_text (hts t ht) hc).1]

/-- A signed power of ten right behind a point leaves a part that writes no term. -/
theorem exists_mem_split (hts : ∀ t ∈ ts, t.Ascii) (h : ∃ t ∈ ts, PowerBehindPoint t.text) :
    ∃ part ∈ split (ts.flatMap Term.text), Term.read? part = none := by
  obtain ⟨t, ht, mark, hmark, s, hs, hinfix⟩ := h
  have hterm : t.text <:+: ts.flatMap Term.text := by
    rw [List.flatMap_def]
    exact List.infix_of_mem_flatten (List.mem_map_of_mem ht)
  obtain ⟨front, rest, hflat⟩ := hinfix.trans hterm
  rw [List.append_assoc] at hflat
  have hnesting : ∀ c ∈ front, nesting c = 0 := by
    intro c hc
    have hmem : c ∈ ts.flatMap Term.text := by
      rw [← hflat]
      exact List.mem_append_left _ hc
    obtain ⟨u, hu, hcu⟩ := List.mem_flatMap.mp hmem
    exact (Term.inert_of_mem_text (hts u hu) hcu).2
  obtain ⟨part, hpart, hlast⟩ := exists_mem_splitFrom [] rest hnesting hmark hs
  refine ⟨part, ?_, read?_of_mark hmark hlast⟩
  rw [split, ← hflat]
  exact hpart

/-- The texts of terms are cut apart as they were put together just when no signed power of ten
stands right behind a point in one of them. -/
theorem split_flatMap_iff (hts : ∀ t ∈ ts, t.Ascii) (hsigns : ∀ t ∈ ts.tail, t.factor.sign ≠ none) :
    split (ts.flatMap Term.text) = ts.map Term.text ↔ ∀ t ∈ ts, ¬PowerBehindPoint t.text := by
  constructor
  · intro hsplit t ht hpower
    obtain ⟨part, hpart, hnone⟩ := exists_mem_split hts ⟨t, ht, hpower⟩
    rw [hsplit] at hpart
    obtain ⟨u, hu, rfl⟩ := List.mem_map.mp hpart
    rw [Term.read?_text (hts u hu).toWellFormed] at hnone
    cases hnone
  · intro h
    have htight : ∀ t ∈ ts, t.Tight := fun t ht =>
      tight_of_not_powerBehindPoint (hts t ht) (h t ht)
    cases ts with
    | nil => rfl
    | cons t ts =>
      exact split_texts (htight t (by simp)) fun u hu =>
        ⟨htight u (List.mem_cons_of_mem t hu), hsigns u hu⟩

/-- The sum of terms is refused for one of its terms just when a signed power of ten stands right
behind a point. -/
theorem read_flatMap_iff (hts : ∀ t ∈ ts, t.Ascii) (hsigns : ∀ t ∈ ts.tail, t.factor.sign ≠ none) :
    (∃ term, read (ts.flatMap Term.text) = .error (.unsupported term)) ↔
      ∃ t ∈ ts, PowerBehindPoint t.text := by
  have hcompact := compact_texts hts
  constructor
  · rintro ⟨term, hterm⟩
    by_contra hno
    have htight : ∀ t ∈ ts, t.Tight := fun t ht =>
      tight_of_not_powerBehindPoint (hts t ht) fun hpower => hno ⟨t, ht, hpower⟩
    by_cases hnil : ts = []
    · have hempty : read [] = .error .empty := by
        rw [read, Signs.normalize, Text.compact, List.filter_nil, Signs.collapse_eq_joined]
        rfl
      rw [hnil, List.flatMap_nil, hempty] at hterm
      cases hterm
    · rw [read_of_row ⟨hnil, htight, hsigns, hcompact⟩] at hterm
      cases hterm
  · intro h
    obtain ⟨part, hpart, hnone⟩ := exists_mem_split hts h
    obtain ⟨term, hterm⟩ := exists_readAll_eq_error hpart hnone
    have hnormal : Signs.normalize (ts.flatMap Term.text) = ts.flatMap Term.text := by
      rw [Signs.normalize, hcompact, Signs.collapse_eq_joined,
        Signs.joined_of_settled (settled_texts hts)]
    have hne : (split (ts.flatMap Term.text)).isEmpty = false := by
      rw [List.isEmpty_eq_false_iff]
      exact List.ne_nil_of_mem hpart
    refine ⟨term, ?_⟩
    simp only [read, hnormal, hne, Bool.false_eq_true, if_false, hterm]

/-- A polynomial is refused for one of its terms just when its text is. -/
theorem readQuadratic_iff_read {α : Type} [Scalar α] [BEq α] {text : List Char} {term : String} :
    readQuadratic (α := α) text = .error (.terms (.unsupported term)) ↔
      read text = .error (.unsupported term) := by
  unfold readQuadratic collect
  cases read text with
  | error e => simp [Except.map]
  | ok ts =>
    simp only [Except.map, reduceCtorEq, iff_false]
    split <;> simp

/-- Texts that match the patterns of terms, each but the first with a sign in front, are the texts
of terms with these signs. -/
theorem exists_terms_of_rmatch {texts : List (List Char)}
    (hmatch : ∀ text ∈ texts, ∃ m : Monomial, m.pattern.rmatch text = true)
    (hsign : ∀ text ∈ texts.tail, ∃ c ∈ text.head?, Signs.isSign c = true) :
    ∃ ts : List Term, ts.map Term.text = texts ∧ (∀ t ∈ ts, t.Ascii) ∧
      ∀ t ∈ ts.tail, t.factor.sign ≠ none := by
  have hterms : ∃ ts : List Term, ts.map Term.text = texts ∧ ∀ t ∈ ts, t.Ascii := by
    induction texts with
    | nil => exact ⟨[], rfl, by simp⟩
    | cons text texts ih =>
      obtain ⟨m, hm⟩ := hmatch text (by simp)
      obtain ⟨t, ht, -, htext⟩ := Monomial.pattern_rmatch_iff.mp hm
      obtain ⟨ts, hts, hascii⟩ := ih (fun text h => hmatch text (List.mem_cons_of_mem _ h))
        fun text h => hsign text (List.mem_of_mem_tail h)
      exact ⟨t :: ts, by rw [List.map_cons, htext, hts], by simpa using ⟨ht, hascii⟩⟩
  obtain ⟨ts, rfl, hascii⟩ := hterms
  refine ⟨ts, rfl, hascii, fun t ht hnone => ?_⟩
  -- Without a sign the text of the term would begin with its body.
  obtain ⟨c, hc, hcsign⟩ := hsign t.text (by rw [← List.map_tail]; exact List.mem_map_of_mem ht)
  have hbody : t.text = t.body := by rw [Term.text_eq, hnone]; rfl
  rw [hbody] at hc
  rw [Term.isSign_of_mem_head? (hascii t (List.mem_of_mem_tail ht)) hc] at hcsign
  cases hcsign

/-- Texts that match the patterns of terms over ASCII digits, each but the first with a sign in
front, are cut apart as they were put together just when no signed power of ten stands right behind
a point in one of them; and just when one does, some term of their sum is reported as
unsupported. -/
theorem split_flatten_iff_and_readQuadratic_iff {texts : List (List Char)}
    (hmatch : ∀ text ∈ texts, ∃ m : Monomial, m.pattern.rmatch text = true)
    (hsign : ∀ text ∈ texts.tail, ∃ c ∈ text.head?, Signs.isSign c = true) :
    (split texts.flatten = texts ↔ ∀ text ∈ texts, ¬PowerBehindPoint text) ∧
    ((∃ term, readQuadratic (α := Float) texts.flatten = .error (.terms (.unsupported term))) ↔
      ∃ text ∈ texts, PowerBehindPoint text) := by
  obtain ⟨ts, rfl, hascii, hsigns⟩ := exists_terms_of_rmatch hmatch hsign
  have hnone : (∀ text ∈ ts.map Term.text, ¬PowerBehindPoint text) ↔
      ∀ t ∈ ts, ¬PowerBehindPoint t.text := List.forall_mem_map
  have hsome : (∃ text ∈ ts.map Term.text, PowerBehindPoint text) ↔
      ∃ t ∈ ts, PowerBehindPoint t.text := by
    simp only [List.mem_map, exists_exists_and_eq_and]
  simp only [hnone, hsome, readQuadratic_iff_read]
  rw [← List.flatMap_def]
  exact ⟨split_flatMap_iff hascii hsigns, read_flatMap_iff hascii hsigns⟩

/-- Numbers with a point, with a power of ten and with both are cut apart. -/
theorem split_flatten_iff_and_readQuadratic_iff_numbers :
    split ['.', '5', 'x', '^', '2', '-', '1', 'e', '-', '3', '*', 'x', '+', '2', '.', 'e', '3'] =
      [['.', '5', 'x', '^', '2'], ['-', '1', 'e', '-', '3', '*', 'x'],
        ['+', '2', '.', 'e', '3']] := by
  have hmatch : ∀ text ∈ [['.', '5', 'x', '^', '2'], ['-', '1', 'e', '-', '3', '*', 'x'],
      ['+', '2', '.', 'e', '3']], ∃ m : Monomial, m.pattern.rmatch text = true := by
    intro text htext
    simp only [List.mem_cons, List.not_mem_nil, or_false] at htext
    rcases htext with rfl | rfl | rfl
    · exact ⟨.square, Monomial.pattern_rmatch_iff.mpr
        ⟨⟨⟨none, some ⟨[], some ['5'], none⟩, false⟩, .square⟩, by decide +kernel, rfl, rfl⟩⟩
    · exact ⟨.x, Monomial.pattern_rmatch_iff.mpr
        ⟨⟨⟨some '-', some ⟨['1'], none, some ⟨'e', some '-', ['3']⟩⟩, true⟩, .x⟩,
          by decide +kernel, rfl, rfl⟩⟩
    · exact ⟨.one, Monomial.pattern_rmatch_iff.mpr
        ⟨⟨⟨some '+', some ⟨['2'], some [], some ⟨'e', none, ['3']⟩⟩, false⟩, .one⟩,
          by decide +kernel, rfl, rfl⟩⟩
  have hsign : ∀ text ∈ [['-', '1', 'e', '-', '3', '*', 'x'], ['+', '2', '.', 'e', '3']],
      ∃ c ∈ text.head?, Signs.isSign c = true := by simp [Signs.isSign]
  have hpower : ∀ text ∈ [['.', '5', 'x', '^', '2'], ['-', '1', 'e', '-', '3', '*', 'x'],
      ['+', '2', '.', 'e', '3']], ¬PowerBehindPoint text := by decide +kernel
  exact (split_flatten_iff_and_readQuadratic_iff hmatch hsign).1.mpr hpower

/-- The number `1.e-3` matches a pattern, but is cut in two, and refused for its first part. -/
theorem not_split_flatten :
    Monomial.one.pattern.rmatch "1.e-3".toList = true ∧
    split "1.e-3".toList = ["1.e".toList, "-3".toList] ∧
    readQuadratic (α := Float) "1.e-3".toList = .error (.terms (.unsupported "1.e")) := by
  have hnormal : Signs.normalize "1.e-3".toList = "1.e-3".toList := by
    rw [Signs.normalize, Signs.collapse_eq_joined]
    decide +kernel
  have hread : read "1.e-3".toList = .error (.unsupported "1.e") := by
    rw [read, hnormal]
    decide +kernel
  exact ⟨by decide +kernel, by decide +kernel, readQuadratic_iff_read.mpr hread⟩

end Terms

end CurvePlot
