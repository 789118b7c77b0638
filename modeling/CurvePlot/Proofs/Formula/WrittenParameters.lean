import CurvePlot.Formula.Values
import CurvePlot.Proofs.Formula.WrittenTerms
import CurvePlot.Proofs.Number.Arithmetic
import CurvePlot.Proofs.Text.OuterBlanks

/-!
# Written parameters

A parameter is a literal, perhaps behind a minus sign. In a list it is read as the number that it
writes (`WrittenParameter.readValue?_text`), and so it is as the factor of a term
(`WrittenParameter.value_term`). Where it is added to what stands before it, joining signs makes one
sign of the plus and the minus (`WrittenParameter.joined_summand_append`).
-/

namespace CurvePlot

/-- A parameter as written: a literal, perhaps behind a minus sign. -/
structure WrittenParameter where
  /-- Whether there is a minus sign. -/
  negative : Bool
  /-- The number behind it. -/
  literal : Literal
deriving DecidableEq, Repr

namespace WrittenParameter

/-- The written sign. -/
def sign (p : WrittenParameter) : Option Char :=
  if p.negative then some '-' else none

/-- The parameter as written. -/
def text (p : WrittenParameter) : List Char :=
  p.sign.toList ++ p.literal.text

/-- The number that is meant. -/
def value (p : WrittenParameter) : Float :=
  if p.negative then -p.literal.toFloat else p.literal.toFloat

/-- The sign before the literal where the parameter is added to something. -/
def joint (p : WrittenParameter) : Char :=
  if p.negative then '-' else '+'

/-- The parameter as it is added to something: behind a plus, which before a minus may have been
left away already. -/
def summand (joined : Bool) (p : WrittenParameter) : List Char :=
  if p.negative && joined then p.text else '+' :: p.text

/-- Whether the explicit grammar can hold the parameter of a family: no sign of a power of ten joins
terms, and around exponentials and logarithms there are no powers of ten. -/
def FitsIn (family : Family) (p : WrittenParameter) : Prop :=
  if family = .exponential ∨ family = .logarithmic then p.literal.power = none else p.literal.Tight

/-- A parameter of ASCII digits with a finite value. -/
structure WellFormed (p : WrittenParameter) : Prop where
  /-- The literal is one of ASCII digits. -/
  literal : p.literal.WellFormed Text.isAsciiDigit
  /-- Its value is finite. -/
  finite : p.literal.toFloat.isFinite = true

end WrittenParameter

/-! ### Parameters -/

namespace WrittenParameter

variable {p : WrittenParameter}

/-- The written sign is a minus. -/
theorem eq_of_mem_sign {c : Char} (h : c ∈ p.sign) : c = '-' := by
  unfold sign at h
  split at h <;> cases h
  rfl

/-- What stands in a parameter. -/
theorem mem_text (hp : p.WellFormed) {c : Char} (h : c ∈ p.text) :
    Text.isAsciiDigit c = true ∨ c ∈ ['.', 'e', 'E', '+', '-'] := by
  rcases List.mem_append.mp h with h | h
  · have hc := eq_of_mem_sign (Option.mem_toList.mp h)
    exact Or.inr (by simp [hc])
  · exact Literal.mem_text hp.literal h

/-- A parameter is visible. -/
theorem isGraphic_of_mem_text (hp : p.WellFormed) {c : Char} (h : c ∈ p.text) :
    Text.isGraphic c = true := by
  have hothers : ∀ c ∈ ['.', 'e', 'E', '+', '-'], Text.isGraphic c = true :=
    List.all_eq_true.mp rfl
  rcases mem_text hp h with hc | hc
  · exact Text.isGraphic_of_digit hc
  · exact hothers c hc

/-- So is a summand. -/
theorem isGraphic_of_mem_summand (hp : p.WellFormed) {joined : Bool} {c : Char}
    (h : c ∈ p.summand joined) : Text.isGraphic c = true := by
  unfold summand at h
  split at h
  · exact isGraphic_of_mem_text hp h
  · rcases List.mem_cons.mp h with rfl | h
    · decide
    · exact isGraphic_of_mem_text hp h

/-- What stands in a parameter without a power of ten. -/
theorem mem_text_of_power (hp : p.WellFormed) (hpower : p.literal.power = none) {c : Char}
    (h : c ∈ p.text) : Text.isAsciiDigit c = true ∨ c ∈ ['.', '-'] := by
  rcases List.mem_append.mp h with h | h
  · have hc := eq_of_mem_sign (Option.mem_toList.mp h)
    exact Or.inr (by simp [hc])
  · rw [Literal.text_eq, hpower, Literal.powerText, List.append_nil] at h
    rcases Literal.mem_mantissa hp.literal h with h | h
    · exact Or.inl h
    · exact Or.inr (by simp [h])

/-- What stands in a summand. -/
theorem mem_summand (hp : p.WellFormed) {joined : Bool} {c : Char} (h : c ∈ p.summand joined) :
    Text.isAsciiDigit c = true ∨ c ∈ ['.', 'e', 'E', '+', '-'] := by
  unfold summand at h
  split at h
  · exact mem_text hp h
  · rcases List.mem_cons.mp h with rfl | h
    · exact Or.inr (by simp)
    · exact mem_text hp h

/-- A parameter is not empty. -/
theorem text_ne_nil (hp : p.WellFormed) : p.text ≠ [] := by
  have hliteral := Literal.text_ne_nil hp.literal
  simp [text, hliteral]

/-- A parameter is read as its value. -/
theorem read?_text (hp : p.WellFormed) : Double.read? p.text = some p.value := by
  have hsign : ∀ c ∈ p.sign, c = '+' ∨ c = '-' := fun c hc => Or.inr (eq_of_mem_sign hc)
  rw [text, Double.read?_append_text hsign hp.literal]
  cases hnegative : p.negative <;> simp [sign, value, hnegative]

/-- The value of a factor that writes the parameter. -/
theorem value_factor (hp : p.WellFormed) {s : Option Char} (hs : s = p.sign ∨ s = some p.joint)
    (star : Bool) : Factor.value (⟨s, some p.literal, star⟩ : Factor) = p.value := by
  have hplain := Literal.isPlain_of_wellFormed hp.literal
  have hmagnitude : Factor.magnitude (⟨s, some p.literal, star⟩ : Factor) = p.literal.toFloat := by
    rw [Factor.magnitude]
    simp only [hplain, if_true]
    rfl
  rw [Factor.value, hmagnitude, Factor.signed, value]
  rcases hs with rfl | rfl <;> cases hnegative : p.negative <;> simp [sign, joint, hnegative]

/-- A factor that writes the parameter, with a power of ten only where there may be one. -/
theorem wellFormed_factor (hp : p.WellFormed) {powers : Bool}
    (hpower : powers = false → p.literal.power = none) {s : Option Char}
    (hs : s = p.sign ∨ s = some p.joint) (star : Bool) :
    Factor.WellFormed powers ⟨s, some p.literal, star⟩ where
  sign := by
    intro c hc
    rcases hs with rfl | rfl
    · exact Or.inr (eq_of_mem_sign hc)
    · cases hc
      cases hnegative : p.negative <;> simp [joint, hnegative]
  literal := by
    rintro l ⟨⟩
    exact hp.literal.mono fun c => Text.isDecimalDigit_of_isAsciiDigit
  power := by
    rintro hpowers l ⟨⟩
    exact hpower hpowers

/-- A summand without a plus before a minus is the literal behind one sign. -/
theorem summand_true (p : WrittenParameter) : p.summand true = p.joint :: p.literal.text := by
  cases hnegative : p.negative <;> simp [summand, text, joint, sign, hnegative]

/-- Behind a parameter without a power of ten and a star, scanning a factor stops. -/
theorem scan_starred (hp : p.WellFormed) (hpower : p.literal.power = none) (rest : List Char) :
    Factor.scan false (p.text ++ ['*'] ++ rest) = (⟨p.sign, some p.literal, true⟩, rest) := by
  have htext : p.text ++ ['*'] = (⟨p.sign, some p.literal, true⟩ : Factor).text := by
    simp [Factor.text, Factor.literalText, Factor.starText, text]
  rw [htext]
  exact Factor.scan_text_append (wellFormed_factor hp (fun _ => hpower) (Or.inl rfl) true) (by simp)

/-- A summand without a power of ten is scanned as a factor. -/
theorem scan_summand (hp : p.WellFormed) (hpower : p.literal.power = none) :
    Factor.scan false (p.summand true) = (⟨some p.joint, some p.literal, false⟩, []) := by
  have htext : p.summand true = (⟨some p.joint, some p.literal, false⟩ : Factor).text ++ [] := by
    simp [Factor.text, Factor.literalText, Factor.starText, summand_true]
  rw [htext]
  exact Factor.scan_text_append (wellFormed_factor hp (fun _ => hpower) (Or.inr rfl) false)
    fun _ => by simp [Factor.EndsBefore]

/-- In lower case, no `e` stands in a parameter without a power of ten. -/
theorem e_not_mem_lower_text (hp : p.WellFormed) (hpower : p.literal.power = none) :
    'e' ∉ Text.lower p.text := by
  intro hmem
  obtain ⟨c, hc, heq⟩ := List.mem_map.mp hmem
  have hlow : c.toNat < 0x41 := by
    rcases mem_text_of_power hp hpower hc with hc | hc
    · have := Text.toNat_of_digit hc
      omega
    · simp only [List.mem_cons, List.not_mem_nil, or_false] at hc
      rcases hc with rfl | rfl <;> decide
  rw [Text.toLower_of_lt hlow] at heq
  rw [heq] at hlow
  exact absurd hlow (by decide)

/-- Joining signs leaves a parameter alone. -/
theorem joined_text_append (hp : p.WellFormed) (rest : List Char) :
    Signs.joined (p.text ++ rest) = p.text ++ Signs.joined rest := by
  have hsign : Signs.Settled p.sign.toList := by
    cases p.sign <;> simp [Signs.Settled]
  have hsettled : Signs.Settled p.text :=
    hsign.append (Literal.settled_text hp.literal)
      (Or.inr fun c hc => Literal.isSign_of_mem_head? hp.literal hc)
  refine Signs.joined_append hsettled fun c hc => ?_
  rw [text, List.getLast?_append_of_ne_nil _ (Literal.text_ne_nil hp.literal)] at hc
  exact Literal.isSign_of_mem_getLast? hp.literal hc

/-- Joining signs takes the plus before a minus away. -/
theorem joined_summand_append (hp : p.WellFormed) (joined : Bool) (rest : List Char) :
    Signs.joined (p.summand joined ++ rest) = p.summand true ++ Signs.joined rest := by
  have hjoint : Signs.joined (p.joint :: p.literal.text ++ rest) =
      p.joint :: p.literal.text ++ Signs.joined rest := by
    have hsettled : Signs.Settled (p.joint :: p.literal.text) :=
      Signs.Settled.append (.singleton p.joint) (Literal.settled_text hp.literal)
        (Or.inr fun c hc => Literal.isSign_of_mem_head? hp.literal hc)
    refine Signs.joined_append hsettled fun c hc => ?_
    rw [List.getLast?_cons_of_ne_nil (Literal.text_ne_nil hp.literal)] at hc
    exact Literal.isSign_of_mem_getLast? hp.literal hc
  rw [summand_true]
  cases hnegative : p.negative with
  | false =>
    have hsummand : p.summand joined = p.joint :: p.literal.text := by
      simp [summand, text, sign, joint, hnegative]
    rw [hsummand, hjoint]
  | true =>
    have htext : p.text = p.joint :: p.literal.text := by
      simp [text, sign, joint, hnegative]
    cases joined with
    | true =>
      have hsummand : p.summand true = p.text := by simp [summand, hnegative]
      rw [hsummand, htext, hjoint]
    | false =>
      have hsummand : p.summand false = '+' :: p.joint :: p.literal.text := by
        simp [summand, htext]
      have hminus : p.joint = '-' := by simp [joint, hnegative]
      rw [hsummand, ← hjoint, hminus]
      exact Signs.joined_sign_sign rfl rfl _

end WrittenParameter

/-! ### Parameters in lists -/

section Lists

variable {rules : ReadingRules} {text : List Char} {texts : List (List Char)}

/-- A visible text that is read as a finite number is its value in a list, if no setting says
otherwise. -/
theorem readValue?_of_read? {v : Float} (hseparator : ∀ s ∈ rules.groupSeparator, s ∉ text)
    (hword : rules.isMissingWord text = false) (hne : text ≠ [])
    (hblank : ∀ c ∈ text, Text.isBlank c = false) (hread : Double.read? text = some v)
    (hfinite : v.isFinite = true) : readValue? rules text = some v := by
  have hempty : text.isEmpty = false := List.isEmpty_eq_false_iff.mpr hne
  have hungrouped : rules.ungrouped text = text := by
    unfold ReadingRules.ungrouped
    split
    · next s hs =>
      rw [List.filter_eq_self]
      intro c hc
      have hother : c ≠ s := fun heq => hseparator s hs (heq ▸ hc)
      simpa using hother
    · rfl
  simp only [readValue?, Text.trim_of_not_blank hblank, hempty, hword, hungrouped, hread, hfinite,
    Bool.or_self, Bool.false_eq_true, if_false, if_true]

/-- A text with a comma is not blank, so that it is a list of all its pieces. -/
theorem readValues_of_comma (h : ',' ∈ text) :
    readValues rules text = (Text.pieces ',' text).map (readValue? rules) := by
  have hkept := Text.mem_trim (by decide) h
  rw [readValues, if_neg (by simp [List.ne_nil_of_mem hkept])]

/-- A list of two or more texts has their values. -/
theorem readValues_intercalate (htwo : 2 ≤ texts.length) (hcomma : ∀ text ∈ texts, ',' ∉ text) :
    readValues rules ([','].intercalate texts) = texts.map (readValue? rules) := by
  have hne : texts ≠ [] := List.ne_nil_of_length_pos (by omega)
  rw [readValues_of_comma (Text.mem_intercalate htwo), Text.pieces_intercalate hne hcomma]

end Lists

/-- The settings under which a parameter in a list is read as the number that it writes. -/
structure ReadingRules.Admits (rules : ReadingRules) (p : WrittenParameter) : Prop where
  /-- The character between groups of digits does not stand in it. -/
  separator : ∀ s ∈ rules.groupSeparator, s ∉ p.text
  /-- It is no word for a missing value. -/
  word : rules.isMissingWord p.text = false

/-- A parameter is finite. -/
theorem WrittenParameter.isFinite_value {p : WrittenParameter} (hp : p.WellFormed) :
    p.value.isFinite = true := by
  unfold value
  split
  · exact (Double.value_neg hp.finite).1
  · exact hp.finite

/-- A parameter of a list is read as its value. -/
theorem WrittenParameter.readValue?_text {p : WrittenParameter} (hp : p.WellFormed)
    {rules : ReadingRules} (hrules : rules.Admits p) : readValue? rules p.text = some p.value :=
  readValue?_of_read? hrules.separator hrules.word (text_ne_nil hp)
    (fun _ hc => Text.not_isBlank_of_isGraphic (isGraphic_of_mem_text hp hc)) (read?_text hp)
    (isFinite_value hp)

/-! ### Parameters as factors of terms -/

namespace WrittenParameter

variable {p : WrittenParameter}

/-- The term that a parameter makes with a monomial, behind a star. -/
def term (p : WrittenParameter) (sign : Option Char) (m : Monomial) : Term :=
  ⟨⟨sign, some p.literal, !m.symbol.isEmpty⟩, m⟩

/-- Such a term is read. -/
theorem tight_term (hp : p.WellFormed) (ht : p.literal.Tight) {s : Option Char}
    (hs : s = p.sign ∨ s = some p.joint) (m : Monomial) : (p.term s m).Tight where
  factor := wellFormed_factor hp (by simp) hs _
  number := by
    rintro rfl
    exact ⟨rfl, p.literal, rfl, Literal.isPlain_of_wellFormed hp.literal⟩
  ascii := by
    rintro l ⟨⟩
    exact hp.literal
  tight := by
    rintro l ⟨⟩
    exact ht

@[simp] theorem monomial_term (p : WrittenParameter) (s : Option Char) (m : Monomial) :
    (p.term s m).monomial = m := rfl

/-- What stands behind the literal of such a term. -/
def starred (m : Monomial) : List Char :=
  match m with
  | .one => []
  | m => '*' :: m.symbol

/-- The term behind the parameter as it is written. -/
theorem text_term_sign (p : WrittenParameter) (m : Monomial) :
    (p.term p.sign m).text = p.text ++ starred m := by
  cases m <;> simp [term, Term.text, Factor.text, Factor.literalText, Factor.starText, text,
    starred, Monomial.symbol]

/-- The term behind the parameter as it is added. -/
theorem text_term_joint (p : WrittenParameter) (m : Monomial) :
    (p.term (some p.joint) m).text = p.summand true ++ starred m := by
  cases m <;> simp [term, Term.text, Factor.text, Factor.literalText, Factor.starText,
    summand_true, starred, Monomial.symbol]

/-- The factor of such a term is the parameter. -/
theorem value_term (hp : p.WellFormed) {s : Option Char} (hs : s = p.sign ∨ s = some p.joint)
    (m : Monomial) : (p.term s m).factor.value = p.value :=
  value_factor hp hs _

/-- A row of terms that begins with a parameter, further ones being added to it. -/
def row (p : WrittenParameter) (m : Monomial) (others : List (WrittenParameter × Monomial)) :
    List Term :=
  p.term p.sign m :: others.map fun other => other.1.term (some other.1.joint) other.2

/-- A row of terms is read. -/
theorem read_row (hp : p.WellFormed) (ht : p.literal.Tight) {m : Monomial}
    {others : List (WrittenParameter × Monomial)}
    (hothers : ∀ other ∈ others, other.1.WellFormed ∧ other.1.literal.Tight) {text : List Char}
    (htext : Signs.normalize text = (p.row m others).flatMap Term.text) :
    Terms.read text = .ok (p.row m others) := by
  refine Terms.read_texts (tight_term hp ht (Or.inl rfl) m) ?_ htext
  intro t hmem
  obtain ⟨other, hother, rfl⟩ := List.mem_map.mp hmem
  obtain ⟨hwell, htight⟩ := hothers other hother
  exact ⟨tight_term hwell htight (Or.inr rfl) other.2, by simp [term]⟩

/-- The sums of a row of terms. -/
theorem collect_row (hp : p.WellFormed) (ht : p.literal.Tight) {m : Monomial}
    {others : List (WrittenParameter × Monomial)}
    (hothers : ∀ other ∈ others, other.1.WellFormed ∧ other.1.literal.Tight) {text : List Char}
    (htext : Signs.normalize text = (p.row m others).flatMap Term.text) :
    Terms.collect (α := Float) text = .ok ((p.row m others).foldl Terms.add Terms.zero) := by
  rw [Terms.collect, read_row hp ht hothers htext]
  rfl

/-- No power is raised in a parameter, and no parenthesis stands in it. -/
theorem not_mem_text (hp : p.WellFormed) {c : Char} (hc : c = '^' ∨ c = '(' ∨ c = 'y') :
    c ∉ p.text := by
  intro hmem
  rcases hc with rfl | rfl | rfl <;> rcases mem_text hp hmem with h | h <;>
    exact absurd h (by decide)

/-- Neither in a summand. -/
theorem not_mem_summand (hp : p.WellFormed) {joined : Bool} {c : Char}
    (hc : c = '^' ∨ c = '(' ∨ c = 'y') : c ∉ p.summand joined := by
  intro hmem
  rcases hc with rfl | rfl | rfl <;> rcases mem_summand hp hmem with h | h <;>
    exact absurd h (by decide)

end WrittenParameter

end CurvePlot
