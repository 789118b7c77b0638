import CurvePlot.Proofs.Number.DecimalReading
import CurvePlot.Proofs.Number.RoundingError
import CurvePlot.Toml.Moment
import CurvePlot.Toml.Number

/-!
# Written numbers are read back

At the end of a line the digits of a natural number below `2 ^ 63` are read as the integer
(`Toml.readNumber_nat_append`), and the text of a double that is not NaN as the double
(`Toml.readNumber_writeFloat_append`). No such text begins like a date or a time
(`Toml.readMoment_eq_none`).
-/

namespace CurvePlot.Toml

open CurvePlot.Text

/-! ### Rows of digits -/

/-- A row of digits as it opens a number: a lone zero, or one that does not open with a zero. -/
structure IsWhole (digits : List Char) : Prop where
  /-- All characters are digits. -/
  isDigit : ∀ c ∈ digits, isAsciiDigit c = true
  /-- There is a digit. -/
  nonempty : digits ≠ []
  /-- A zero in front stands alone. -/
  zero : digits.head? = some '0' → digits = ['0']

/-- A row of digits is read up to a character that does not go on with it. -/
theorem readDigits_append {digits : List Char} (hdigits : ∀ c ∈ digits, isAsciiDigit c = true)
    (hne : digits ≠ []) (rest : List Char)
    (hrest : ∀ c ∈ rest.head?, isAsciiDigit c = false ∧ c ≠ '_') :
    readDigits isAsciiDigit (digits ++ rest) = some (digits, rest) := by
  obtain ⟨first, further, rfl⟩ := List.exists_cons_of_ne_nil hne
  have hread : ∀ c ∈ further, ∀ tail, True →
      furtherDigit isAsciiDigit ([c] ++ tail) = some (c, tail) := by
    intro c hc tail _
    have hdigit := hdigits c (List.mem_cons_of_mem _ hc)
    have hunderscore : c ≠ '_' := by rintro rfl; cases hdigit
    rw [List.singleton_append]
    unfold furtherDigit
    split
    · next h => exact absurd (List.cons.inj h).1 hunderscore
    · next h =>
      obtain ⟨rfl, rfl⟩ := List.cons.inj h
      rw [if_pos hdigit]
    · next h => cases h
  have hend : furtherDigit isAsciiDigit rest = none := by
    unfold furtherDigit
    split
    · exact absurd rfl (hrest '_' rfl).2
    · next c tail _ => rw [if_neg (by simp [(hrest c rfl).1])]
    · rfl
  have hfurther := Reader.repeated_flatMap id (fun _ => True) hread (by simp)
    (fun _ _ _ => trivial) trivial hend
  rw [List.flatMap_singleton', List.map_id] at hfurther
  rw [List.cons_append, readDigits, if_pos (hdigits first List.mem_cons_self), hfurther]

/-- The digits that open a number are read. -/
theorem readWhole_append {digits : List Char} (h : IsWhole digits) (rest : List Char)
    (hrest : ∀ c ∈ rest.head?, isAsciiDigit c = false ∧ c ≠ '_') :
    readWhole (digits ++ rest) = some (digits, rest) := by
  by_cases hzero : digits.head? = some '0'
  · rw [h.zero hzero]
    rfl
  · obtain ⟨first, further, rfl⟩ := List.exists_cons_of_ne_nil h.nonempty
    have hread := readDigits_append h.isDigit h.nonempty rest hrest
    unfold readWhole
    split
    · next heq => exact absurd (congrArg some (List.cons.inj heq).1) hzero
    · exact hread

/-- The digits of a number open a number. -/
theorem isWhole_toDigits (n : ℕ) : IsWhole (Nat.toDigits 10 n) where
  isDigit := fun _ hc => isAsciiDigit_of_mem_toDigits hc
  nonempty := Nat.toDigits_ne_nil
  zero := by
    rcases Nat.eq_zero_or_pos n with rfl | hn
    · exact fun _ => Nat.toDigits_zero 10
    · exact fun h => absurd h (head_toDigits_ne_zero hn)

/-- Digits that open a number have no sign in front. -/
theorem IsWhole.splitSign_append {digits : List Char} (h : IsWhole digits) (rest : List Char) :
    splitSign (digits ++ rest) = (none, digits ++ rest) := by
  refine @Literal.splitSign_append none (by rintro c ⟨⟩) (digits ++ rest) fun c hc => ?_
  obtain ⟨first, further, rfl⟩ := List.exists_cons_of_ne_nil h.nonempty
  cases hc
  exact Literal.ne_sign_of_digit Literal.isDigitClass_isAsciiDigit (h.isDigit c List.mem_cons_self)

/-! ### Integers -/

/-- Digits at the end of a line have no fraction and no power of ten. -/
theorem IsWhole.readScaled_eq_none {digits : List Char} (h : IsWhole digits) (rest : List Char) :
    readScaled (digits ++ '\n' :: rest) = none := by
  have hwhole := readWhole_append h ('\n' :: rest) (by rintro c ⟨⟩; decide)
  have hscale : readScale ('\n' :: rest) = none := rfl
  simp [readScaled, h.splitSign_append, hwhole, hscale]

/-- They are no word. -/
theorem IsWhole.readWord_eq_none {digits : List Char} (h : IsWhole digits) (rest : List Char) :
    readWord (digits ++ rest) = none := by
  have hhead : ∀ c ∈ (digits ++ rest).head?, isAsciiDigit c = true := by
    obtain ⟨first, further, rfl⟩ := List.exists_cons_of_ne_nil h.nonempty
    intro c hc
    cases hc
    exact h.isDigit _ List.mem_cons_self
  rw [readWord, h.splitSign_append]
  dsimp only
  split
  · next heq => exact absurd (hhead 'i' (by rw [heq]; rfl)) (by decide)
  · next heq => exact absurd (hhead 'n' (by rw [heq]; rfl)) (by decide)
  · rfl

/-- They are the digits of a decimal integer. -/
theorem IsWhole.readInteger_append {digits : List Char} (h : IsWhole digits)
    (hfits : fitsWord (digitsValue digits) = true) (rest : List Char) :
    readInteger (digits ++ '\n' :: rest) = some ((digitsValue digits : ℤ), '\n' :: rest) := by
  have hwhole := readWhole_append h ('\n' :: rest) (by rintro c ⟨⟩; decide)
  have hdecimal : readDecimal (digits ++ '\n' :: rest) =
      some ((digitsValue digits : ℤ), '\n' :: rest) := by
    rw [readDecimal, h.splitSign_append]
    dsimp only
    rw [hwhole]
    rfl
  -- A zero that opens an integer in another base would be followed by a letter.
  have hbase : ∀ c behind, digits ++ '\n' :: rest = '0' :: c :: behind →
      digits = ['0'] ∧ c = '\n' := by
    intro c behind heq
    have hzero : digits = ['0'] := by
      refine h.zero ?_
      obtain ⟨first, further, rfl⟩ := List.exists_cons_of_ne_nil h.nonempty
      rw [(List.cons.inj heq).1]
      rfl
    rw [hzero] at heq
    exact ⟨hzero, (List.cons.inj (List.cons.inj heq).2).1.symm⟩
  unfold readInteger
  dsimp only
  split
  · next heq => exact absurd (hbase 'x' _ heq).2 (by decide)
  · next heq => exact absurd (hbase 'o' _ heq).2 (by decide)
  · next heq => exact absurd (hbase 'b' _ heq).2 (by decide)
  · rw [hdecimal]
    simp [Option.filter, hfits]

/-- The digits of a natural number of 63 bits are read as the integer. -/
theorem readNumber_nat_append {n : ℕ} (hn : n < 2 ^ 63) (rest : List Char) :
    readNumber (Nat.toDigits 10 n ++ '\n' :: rest) = some (.integer n, '\n' :: rest) := by
  have hwhole := isWhole_toDigits n
  have hvalue := digitsValue_toDigits n
  have hfits : fitsWord (digitsValue (Nat.toDigits 10 n)) = true := by
    rw [hvalue, fitsWord, Bool.and_eq_true, decide_eq_true_eq, decide_eq_true_eq]
    omega
  have hinteger := hwhole.readInteger_append hfits rest
  rw [hvalue] at hinteger
  rw [readNumber, hwhole.readScaled_eq_none, hwhole.readWord_eq_none, hinteger]
  rfl

/-! ### Doubles -/

/-- A decimal is written with digits on both sides of a point and without a power of ten. -/
theorem literal_numbers {n : Numeral} (hn : n.significand = 0 → n.exponent = 0) :
    IsWhole (numbers.literal n).whole ∧ (numbers.literal n).power = none ∧
      ∃ fraction, (numbers.literal n).fraction = some fraction ∧ fraction ≠ [] := by
  have hwhole := (Spelling.wellFormed_literal numbers n).whole
  have hne := Spelling.whole_literal_ne_nil numbers n
  have hzero : (Nat.toDigits 10 n.significand).head? = some '0' → n = ⟨0, 0⟩ := by
    intro hhead
    have hsignificand : n.significand = 0 := by
      by_contra hz
      exact head_toDigits_ne_zero (Nat.pos_of_ne_zero hz) hhead
    obtain ⟨significand, exponent⟩ := n
    rw [show significand = 0 from hsignificand, show exponent = 0 from hn hsignificand]
  have hdigits : Nat.toDigits 10 n.significand ≠ [] := Nat.toDigits_ne_nil
  obtain ⟨first, further, hfirst⟩ := List.exists_cons_of_ne_nil hdigits
  have hpositional : ∀ lead, numbers.positional lead = true := fun _ => rfl
  simp only [Spelling.literal, hpositional, if_true] at hwhole hne ⊢
  split at hwhole
  · next hlead =>
    rw [if_pos hlead]
    exact ⟨⟨hwhole, by simp, fun _ => rfl⟩, rfl, _, rfl, by simp [hdigits]⟩
  · next hlead =>
    rw [if_neg hlead] at hne ⊢
    split at hwhole
    · next hlength =>
      rw [if_pos hlength] at hne ⊢
      refine ⟨⟨hwhole, hne, fun hhead => ?_⟩, rfl, ['0'], rfl, by simp⟩
      have hlone : n = ⟨0, 0⟩ := by
        refine hzero ?_
        rw [hfirst] at hhead ⊢
        exact hhead
      rw [hlone]
      rfl
    · next hlength =>
      rw [if_neg hlength] at hne ⊢
      refine ⟨⟨hwhole, hne, fun hhead => ?_⟩, rfl, _, rfl, ?_⟩
      · have hlone : n = ⟨0, 0⟩ := by
          refine hzero ?_
          rw [hfirst] at hhead ⊢
          exact hhead
        rw [hlone] at hlength
        exact absurd (by decide) hlength
      · intro hnil
        have hle := List.drop_eq_nil_iff.mp hnil
        exact hlength hle

/-- A literal with a fraction at the end of a line is read whole. -/
theorem readScaled_append {sign : Option Char} (hsign : ∀ c ∈ sign, c = '+' ∨ c = '-')
    {whole fraction : List Char} (hwhole : IsWhole whole)
    (hfraction : ∀ c ∈ fraction, isAsciiDigit c = true) (hne : fraction ≠ []) {x : Float}
    (hread : Double.read? (sign.toList ++ (whole ++ '.' :: fraction)) = some x)
    (hx : x.isInf = false) (rest : List Char) :
    readScaled (sign.toList ++ (whole ++ ('.' :: (fraction ++ '\n' :: rest)))) =
      some (x, '\n' :: rest) := by
  have hsplit : splitSign (sign.toList ++ (whole ++ ('.' :: (fraction ++ '\n' :: rest)))) =
      (sign, whole ++ ('.' :: (fraction ++ '\n' :: rest))) := by
    refine Literal.splitSign_append hsign fun c hc => ?_
    obtain ⟨first, further, rfl⟩ := List.exists_cons_of_ne_nil hwhole.nonempty
    cases hc
    exact Literal.ne_sign_of_digit Literal.isDigitClass_isAsciiDigit
      (hwhole.isDigit _ List.mem_cons_self)
  have hdigits := readWhole_append hwhole ('.' :: (fraction ++ '\n' :: rest))
    (by intro c hc; cases hc; decide)
  have hfurther := readDigits_append hfraction hne ('\n' :: rest)
    (by intro c hc; cases hc; decide)
  have hpower : Reader.optional readPower ('\n' :: rest) = (none, '\n' :: rest) := rfl
  have hscale : readScale ('.' :: (fraction ++ '\n' :: rest)) =
      some ('.' :: fraction, '\n' :: rest) := by
    simp [readScale, readFraction, hfurther, hpower]
  simp [readScaled, hsplit, hdigits, hscale, hread, hx]

/-- The text of a double that is not NaN: perhaps a minus sign, and either digits on both sides of a
point or the word for the infinity. -/
theorem writeFloat_cases {x : Float} (hx : x.isNaN = false) :
    ∃ sign : Option Char, (∀ c ∈ sign, c = '-') ∧
      ((x.isFinite = true ∧ ∃ whole fraction, IsWhole whole ∧
          (∀ c ∈ fraction, isAsciiDigit c = true) ∧ fraction ≠ [] ∧
          (writeFloat x).toList = sign.toList ++ (whole ++ '.' :: fraction)) ∨
        (x = (if sign == some '-' then -Double.infinity else Double.infinity) ∧
          (writeFloat x).toList = sign.toList ++ ['i', 'n', 'f'])) := by
  have hsign : ∀ c ∈ (if Magnitude.isNegative x then some '-' else none), c = '-' := by
    intro c hc
    split at hc <;> cases hc
    rfl
  refine ⟨_, hsign, ?_⟩
  cases hfinite : x.isFinite with
  | true =>
    obtain ⟨hwhole, hpower, fraction, hfraction, hne⟩ :=
      literal_numbers (Shortest.exponent_decimal_of_zero numbers.tie (.ofFloat x))
    have hdigits := (Spelling.wellFormed_literal numbers
      (Shortest.decimal numbers.tie (.ofFloat x))).fraction fraction hfraction
    refine Or.inl ⟨rfl, _, fraction, hwhole, hdigits, hne, ?_⟩
    rw [writeFloat, Spelling.toList_write hfinite, Literal.text, hpower, hfraction,
      Literal.fractionText, Literal.powerText, List.append_nil]
  | false =>
    have hinf : x.isInf = true := by
      change x.toModel.unpack.isInf = true
      rw [Double.unpack_of_infinite hx hfinite]
      rfl
    have heq := Double.eq_infinity hx hfinite
    refine Or.inr ⟨?_, ?_⟩
    · cases hneg : Magnitude.isNegative x <;> rw [hneg] at heq <;> exact heq
    · rw [writeFloat, Spelling.write, hx, hinf]
      cases Magnitude.isNegative x <;> simp [numbers]

/-- The text of a double that is not NaN is read as the double. -/
theorem readNumber_writeFloat_append {x : Float} (hx : x.isNaN = false) (rest : List Char) :
    readNumber ((writeFloat x).toList ++ '\n' :: rest) = some (.float x, '\n' :: rest) := by
  obtain ⟨sign, hsign, ⟨hfinite, whole, fraction, hwhole, hdigits, hne, htext⟩ | ⟨heq, htext⟩⟩ :=
    writeFloat_cases hx
  · have hread : Double.read? (writeFloat x).toList = some x := Double.read?_write numbers hfinite
    have hscaled := readScaled_append (fun c hc => Or.inr (hsign c hc)) hwhole hdigits hne
      (htext ▸ hread) (Double.isNaN_isInf_of_isFinite hfinite).2 rest
    rw [htext, readNumber, List.append_assoc, List.append_assoc, List.cons_append, hscaled]
  · rw [htext, heq]
    cases sign with
    | none => rfl
    | some c =>
      rw [hsign c rfl]
      rfl

/-! ### Dates and times -/

/-- A number of fixed length ends within the word. -/
theorem readFixed_append {count value : ℕ} {word rest after : List Char}
    (h : readFixed count (word ++ '\n' :: rest) = some (value, after)) :
    count ≤ word.length ∧ after = word.drop count ++ '\n' :: rest := by
  simp only [readFixed, Bool.and_eq_true, beq_iff_eq] at h
  split at h
  · next hdigits =>
    have hle : count ≤ word.length := by
      by_contra hlt
      have hfeed : '\n' ∈ (word ++ '\n' :: rest).take count := by
        rw [List.take_append, List.mem_append]
        refine Or.inr ?_
        obtain ⟨k, hk⟩ : ∃ k, count - word.length = k + 1 := ⟨count - word.length - 1, by omega⟩
        simp [hk]
      exact absurd (List.all_eq_true.mp hdigits.2 _ hfeed) (by decide)
    cases h
    exact ⟨hle, List.drop_append_of_le_length hle⟩
  · cases h

/-- Behind such a number follows no sign of a date or time that the word does not have. -/
theorem skip?_of_readFixed {count value : ℕ} {word rest after : List Char} {c : Char}
    (h : readFixed count (word ++ '\n' :: rest) = some (value, after)) (hcount : 1 ≤ count)
    (hc : c ∉ word.tail) (hfeed : c ≠ '\n') : Reader.skip? [c] after = none := by
  obtain ⟨-, rfl⟩ := readFixed_append h
  have hbehind : c ∉ word.drop count := by
    intro hmem
    rw [show count = 1 + (count - 1) by omega, ← List.drop_drop, List.drop_one] at hmem
    exact hc (List.mem_of_mem_drop hmem)
  cases hword : word.drop count with
  | nil => simp [Reader.skip?, hfeed]
  | cons d behind =>
    have hne : c ≠ d := by
      rintro rfl
      simp [hword] at hbehind
    simp [Reader.skip?, hne]

/-- A word without the signs of dates and times is neither a date nor a time. -/
theorem readMoment_eq_none (word : List Char) (hdate : '-' ∉ word.tail) (htime : ':' ∉ word.tail)
    (rest : List Char) : readMoment (word ++ '\n' :: rest) = none := by
  have hnodate : skipDate? (word ++ '\n' :: rest) = none := by
    cases hyear : readFixed 4 (word ++ '\n' :: rest) with
    | none => simp [skipDate?, hyear]
    | some found =>
      obtain ⟨year, after⟩ := found
      simp [skipDate?, hyear, skip?_of_readFixed hyear (by norm_num) hdate (by decide)]
  have hnotime : skipTime? (word ++ '\n' :: rest) = none := by
    cases hhour : readTwo 0 23 (word ++ '\n' :: rest) with
    | none => simp [skipTime?, hhour]
    | some found =>
      obtain ⟨hour, after⟩ := found
      have hfixed : readFixed 2 (word ++ '\n' :: rest) = some (hour, after) :=
        (Option.filter_eq_some_iff.mp hhour).1
      simp [skipTime?, hhour, skip?_of_readFixed hfixed (by norm_num) htime (by decide)]
  simp [readMoment, skipMoment?, hnodate, hnotime]

end CurvePlot.Toml
