import CurvePlot.Proofs.Formula.WrittenTerms
import Mathlib.Data.List.Perm.Basic

/-!
# A row of terms is collected by symbols

Tight terms written one behind the other have no two signs side by side, so that taking out the
blanks leaves the row as it is and joining signs does not change it (`Terms.normalize_of_row`). What
is collected from the row is, for each symbol, the sum of the factors in front of it, from left to
right and from zero on (`Terms.collect_of_read`). Another order of the same terms changes the order
of the summands and nothing else (`Terms.collect_and_collect_permuted`).
-/

namespace CurvePlot

/-! ### Well-formedness can be checked -/

section Decidable

variable (digit : Char → Bool)

/-- A sign that may be missing is written with one of the two characters. -/
theorem Signs.all_isSign_iff {sign : Option Char} :
    sign.all isSign = true ↔ ∀ c ∈ sign, c = '+' ∨ c = '-' := by
  cases sign with
  | none => simp
  | some c => simp [isSign]

-- Characters are tested with `all`: a decision over all `c` could go through every character there
-- is.
instance (p : Literal.Power) : Decidable (p.WellFormed digit) :=
  decidable_of_iff ((p.mark = 'e' ∨ p.mark = 'E') ∧ p.sign.all Signs.isSign = true ∧
      p.digits ≠ [] ∧ p.digits.all digit = true)
    ⟨fun h => ⟨h.1, Signs.all_isSign_iff.mp h.2.1, h.2.2.1, List.all_eq_true.mp h.2.2.2⟩,
      fun h => ⟨h.mark, Signs.all_isSign_iff.mpr h.sign, h.nonempty,
        List.all_eq_true.mpr h.digits⟩⟩

instance (l : Literal) : Decidable (l.WellFormed digit) :=
  decidable_of_iff (l.whole.all digit = true ∧
      (∀ digits ∈ l.fraction, digits.all digit = true) ∧ l.digits ≠ [] ∧
      ∀ p ∈ l.power, p.WellFormed digit)
    (by
      simp only [List.all_eq_true]
      exact ⟨fun h => ⟨h.1, h.2.1, h.2.2.1, h.2.2.2⟩,
        fun h => ⟨h.whole, h.fraction, h.nonempty, h.power⟩⟩)

instance (l : Literal) : Decidable l.Tight :=
  inferInstanceAs (Decidable (∀ p ∈ l.power, p.sign ≠ none → l.fraction ≠ some []))

instance (powers : Bool) (f : Factor) : Decidable (f.WellFormed powers) :=
  decidable_of_iff (f.sign.all Signs.isSign = true ∧
      (∀ l ∈ f.literal, l.WellFormed Text.isDecimalDigit) ∧
      (powers = false → ∀ l ∈ f.literal, l.power = none))
    ⟨fun h => ⟨Signs.all_isSign_iff.mp h.1, h.2.1, h.2.2⟩,
      fun h => ⟨Signs.all_isSign_iff.mpr h.sign, h.literal, h.power⟩⟩

instance (t : Term) : Decidable t.WellFormed :=
  decidable_of_iff (t.factor.WellFormed true ∧
      (t.monomial = .one → t.factor.star = false ∧ ∃ l ∈ t.factor.literal, l.isPlain = true))
    ⟨fun h => ⟨h.1, h.2⟩, fun h => ⟨h.factor, h.number⟩⟩

instance (t : Term) : Decidable t.Tight :=
  decidable_of_iff (t.WellFormed ∧ (∀ l ∈ t.factor.literal, l.WellFormed Text.isAsciiDigit) ∧
      ∀ l ∈ t.factor.literal, l.Tight)
    ⟨fun h => ⟨h.1, h.2.1, h.2.2⟩, fun h => ⟨h.toWellFormed, h.ascii, h.tight⟩⟩

end Decidable

/-! ### Factors and terms -/

namespace Factor

/-- The number that a factor stands for, as written: one is written out. -/
def numberText (f : Factor) : List Char :=
  f.sign.toList ++ (f.literal.elim ['1'] Literal.text)

/-- The factor with its sign written out. -/
def withSign (f : Factor) : Factor :=
  { f with sign := some (f.sign.getD '+') }

/-- Writing the sign out keeps the value. -/
theorem value_withSign {α : Type} [Scalar α] (f : Factor) : (f.withSign.value : α) = f.value := by
  obtain ⟨sign, literal, star⟩ := f
  cases sign <;> rfl

/-- The value of a factor is the double that its number reads as. -/
theorem read?_numberText {f : Factor} (hsign : ∀ c ∈ f.sign, c = '+' ∨ c = '-')
    (hascii : ∀ l ∈ f.literal, l.WellFormed Text.isAsciiDigit) :
    Double.read? f.numberText = some f.value := by
  obtain ⟨sign, literal, star⟩ := f
  cases literal with
  | none =>
    have hone : (⟨['1'], none, none⟩ : Literal).WellFormed Text.isAsciiDigit :=
      ⟨by simpa using by decide, by simp, by simp [Literal.digits], by simp⟩
    exact Double.read?_append_text hsign hone
  | some l =>
    have hplain : l.isPlain = true := Literal.isPlain_of_wellFormed (hascii l rfl)
    have hvalue : (value ⟨sign, some l, star⟩ : Float) =
        if sign == some '-' then -l.toFloat else l.toFloat := by
      simp only [value, signed, magnitude, hplain, if_true]
      rfl
    rw [hvalue]
    exact Double.read?_append_text hsign (hascii l rfl)

end Factor

namespace Term

/-- A term of ASCII digits. -/
structure Ascii (t : Term) : Prop extends t.WellFormed where
  /-- The digits are ASCII digits. -/
  ascii : ∀ l ∈ t.factor.literal, l.WellFormed Text.isAsciiDigit

instance (t : Term) : Decidable t.Ascii :=
  decidable_of_iff (t.WellFormed ∧ ∀ l ∈ t.factor.literal, l.WellFormed Text.isAsciiDigit)
    ⟨fun h => ⟨h.1, h.2⟩, fun h => ⟨h.toWellFormed, h.ascii⟩⟩

/-- A tight term is one of ASCII digits. -/
theorem Tight.isAscii {t : Term} (ht : t.Tight) : t.Ascii :=
  ⟨ht.toWellFormed, ht.ascii⟩

/-- The term with its sign written out. -/
def withSign (t : Term) : Term :=
  { t with factor := t.factor.withSign }

variable {t : Term}

/-- A term is tight when it is with its sign written out and the written sign is one. -/
theorem tight_of_withSign {u : Term} (hu : u.Tight) (h : t.withSign = u.withSign) : t.Tight := by
  obtain ⟨⟨sign, literal, star⟩, monomial⟩ := t
  obtain ⟨⟨sign', literal', star'⟩, monomial'⟩ := u
  simp only [withSign, Factor.withSign, mk.injEq, Factor.mk.injEq, Option.some.injEq] at h
  obtain ⟨⟨hsign, rfl, rfl⟩, rfl⟩ := h
  have hwritten : ∀ c ∈ sign, c = '+' ∨ c = '-' := by
    rintro c ⟨⟩
    cases sign' with
    | none => exact Or.inl hsign
    | some d =>
      have hcd : c = d := hsign
      exact hcd ▸ hu.factor.sign d rfl
  exact ⟨⟨⟨hwritten, hu.factor.literal, hu.factor.power⟩, hu.number⟩, hu.ascii, hu.tight⟩

/-- Star and symbol hold no sign. -/
theorem isSign_of_mem {c : Char}
    (h : c ∈ Factor.starText t.factor.star ++ t.monomial.symbol) : Signs.isSign c = false := by
  have hc := ordinary_of_mem h
  simp only [Terms.Ordinary, List.mem_cons, not_or] at hc
  simp [Signs.isSign, hc.1, hc.2.1]

/-- The body of a term does not begin with a sign. -/
theorem isSign_of_mem_head? (ht : t.Ascii) {c : Char} (h : c ∈ t.body.head?) :
    Signs.isSign c = false := by
  unfold body at h
  cases hl : t.factor.literal with
  | none =>
    rw [hl] at h
    exact isSign_of_mem (List.mem_of_mem_head? h)
  | some l =>
    have hne := Literal.text_ne_nil (ht.ascii l hl)
    rw [hl, Factor.literalText, List.head?_append_of_ne_nil _ hne] at h
    exact Literal.isSign_of_mem_head? (ht.ascii l hl) h

/-- In the body of a term no two signs stand side by side. -/
theorem settled_body (ht : t.Ascii) : Signs.Settled t.body := by
  have hback : Signs.Settled (Factor.starText t.factor.star ++ t.monomial.symbol) :=
    Signs.settled_of_not_isSign fun _ => isSign_of_mem
  unfold body
  cases hl : t.factor.literal with
  | none => exact hback
  | some l =>
    exact (Literal.settled_text (ht.ascii l hl)).append hback
      (Or.inr fun c hc => isSign_of_mem (List.mem_of_mem_head? hc))

/-- Neither do they in a term. -/
theorem settled_text (ht : t.Ascii) : Signs.Settled t.text := by
  have hsign : Signs.Settled t.factor.sign.toList := by
    cases t.factor.sign <;> simp [Signs.Settled]
  rw [text_eq]
  exact hsign.append (settled_body ht) (Or.inr fun _ => isSign_of_mem_head? ht)

/-- A term does not end in a sign. -/
theorem isSign_of_mem_getLast? (ht : t.WellFormed) {c : Char} (h : c ∈ t.text.getLast?) :
    Signs.isSign c = false := by
  obtain ⟨u, d, hbody, hd⟩ := exists_last_text ht
  rw [text_eq, hbody, ← List.append_assoc, List.getLast?_concat, Option.mem_some_iff] at h
  subst h
  simp only [List.mem_cons, List.not_mem_nil, or_false, not_or] at hd
  simp [Signs.isSign, hd]

end Term

namespace Terms

/-- Whether the terms, one behind the other and with blanks anywhere, make up the text: all are
tight, and each but the first has a sign. -/
structure Row (ts : List Term) (text : List Char) : Prop where
  /-- There is a term. -/
  nonempty : ts ≠ []
  /-- The terms are tight. -/
  tight : ∀ t ∈ ts, t.Tight
  /-- The terms behind the first have a sign. -/
  sign : ∀ t ∈ ts.tail, t.factor.sign ≠ none
  /-- Without its blanks the text is that of the terms. -/
  text : Text.compact text = ts.flatMap Term.text

variable {ts us : List Term} {text other : List Char}

/-- In a row of terms no two signs stand side by side. -/
theorem settled_texts (hts : ∀ t ∈ ts, t.Ascii) : Signs.Settled (ts.flatMap Term.text) := by
  induction ts with
  | nil => exact .nil
  | cons t ts ih =>
    have ht : t.Ascii := hts t (by simp)
    rw [List.flatMap_cons]
    exact (Term.settled_text ht).append (ih fun u hu => hts u (by simp [hu]))
      (Or.inl fun _ => Term.isSign_of_mem_getLast? ht.toWellFormed)

/-- The normal form of a row of terms is its text without the blanks. -/
theorem normalize_of_row (h : Row ts text) : Signs.normalize text = ts.flatMap Term.text := by
  rw [Signs.normalize, h.text, Signs.collapse_eq_joined,
    Signs.joined_of_settled (settled_texts fun t ht => (h.tight t ht).isAscii)]

/-- A row of terms is read as these terms. -/
theorem read_of_row (h : Row ts text) : read text = .ok ts := by
  obtain ⟨t, ts, rfl⟩ := List.exists_cons_of_ne_nil h.nonempty
  exact read_texts (h.tight t (by simp))
    (fun u hu => ⟨h.tight u (List.mem_cons_of_mem t hu), h.sign u hu⟩) (normalize_of_row h)

section Sums

variable {α : Type} [Scalar α]

/-- The factors in front of a symbol, from left to right. -/
def summands (m : Monomial) (ts : List Term) : List α :=
  (ts.filter fun t => t.monomial = m).map fun t => t.factor.value

/-- The sum from zero on, from left to right. -/
def sumUp (summands : List α) : α :=
  summands.foldl (· + ·) Scalar.zero

/-- The sum of the factors in front of each symbol. -/
def sums (ts : List Term) : Terms α :=
  ⟨sumUp (summands .square ts), sumUp (summands .x ts), sumUp (summands .y ts),
    sumUp (summands .one ts)⟩

/-- Adding terms adds to each symbol the factors in front of it. -/
theorem foldl_add (ts : List Term) (start : Terms α) :
    ts.foldl add start =
      ⟨(summands .square ts).foldl (· + ·) start.square, (summands .x ts).foldl (· + ·) start.x,
        (summands .y ts).foldl (· + ·) start.y,
        (summands .one ts).foldl (· + ·) start.constant⟩ := by
  induction ts generalizing start with
  | nil => rfl
  | cons t ts ih =>
    rw [List.foldl_cons, ih]
    obtain ⟨factor, monomial⟩ := t
    cases monomial <;> simp [add, summands]

/-- What is collected from a text is the sum of the factors in front of each symbol. -/
theorem collect_of_read (h : read text = .ok ts) : collect text = .ok (sums ts : Terms α) := by
  rw [collect, h]
  exact congrArg Except.ok (foldl_add ts zero)

/-- The same terms in another order, up to a plus in front, have the same summands in another
order. -/
theorem summands_perm (h : (us.map Term.withSign).Perm (ts.map Term.withSign)) (m : Monomial) :
    (summands m us : List α).Perm (summands m ts) := by
  have hsame : ∀ row : List Term,
      (summands m (row.map Term.withSign) : List α) = summands m row := by
    intro row
    simp only [summands, List.filter_map, List.map_map]
    exact List.map_congr_left fun t _ => Factor.value_withSign t.factor
  rw [← hsame us, ← hsame ts]
  exact (h.filter _).map _

end Sums

/-- From a row of terms, with blanks anywhere, the sum of the factors in front of each symbol is
collected, over every carrier; the factors are the doubles that their numbers read as. The same
terms in another order, where the plus of the first term may be left out, are collected, too, from
the same summands in another order. -/
theorem collect_and_collect_permuted (h : Row ts text) :
    (∀ (α : Type) [Scalar α], collect text = .ok (sums ts : Terms α)) ∧
    (∀ t ∈ ts, Double.read? t.factor.numberText = some t.factor.value) ∧
    ∀ us other, (us.map Term.withSign).Perm (ts.map Term.withSign) →
      (∀ u ∈ us.tail, u.factor.sign ≠ none) → Text.compact other = us.flatMap Term.text →
      ∀ (α : Type) [Scalar α], collect other = .ok (sums us : Terms α) ∧
        ∀ m, (summands m us : List α).Perm (summands m ts) := by
  refine ⟨fun α _ => collect_of_read (read_of_row h), fun t ht => ?_,
    fun us other hperm hsign hother α _ => ?_⟩
  · exact Factor.read?_numberText (h.tight t ht).factor.sign (h.tight t ht).ascii
  · have hnonempty : us ≠ [] := by
      rintro rfl
      exact h.nonempty (List.map_eq_nil_iff.mp hperm.nil_eq.symm)
    have htight : ∀ u ∈ us, u.Tight := by
      intro u hu
      obtain ⟨t, ht, hsame⟩ := List.mem_map.mp (hperm.subset (List.mem_map_of_mem hu))
      exact Term.tight_of_withSign (h.tight t ht) hsame.symm
    exact ⟨collect_of_read (read_of_row ⟨hnonempty, htight, hsign, hother⟩), summands_perm hperm⟩

/-- The terms `2x^2`, `-x`, `+.5e-1*x`, `+y` and `-3`. -/
def exampleTerms : List Term :=
  [⟨⟨none, some ⟨['2'], none, none⟩, false⟩, .square⟩, ⟨⟨some '-', none, false⟩, .x⟩,
    ⟨⟨some '+', some ⟨[], some ['5'], some ⟨'e', some '-', ['1']⟩⟩, true⟩, .x⟩,
    ⟨⟨some '+', none, false⟩, .y⟩, ⟨⟨some '-', some ⟨['3'], none, none⟩, false⟩, .one⟩]

/-- Five terms with blanks between them and within them, and the same terms from last to first. -/
theorem collect_and_collect_permuted_blanks :
    collect "2 x^2 -x + .5e -1 * x\t+y - 3".toList = .ok (sums exampleTerms : Terms Float) ∧
    collect "-3+y+.5e-1*x-x+2x^2".toList =
      .ok (sums (exampleTerms.reverse.map Term.withSign) : Terms Float) ∧
    (sums exampleTerms : Terms Float) = ⟨2, -0.95, 1, -3⟩ := by
  have hrow : Row exampleTerms "2 x^2 -x + .5e -1 * x\t+y - 3".toList :=
    ⟨by decide, by decide +kernel, by decide, by decide⟩
  obtain ⟨hcollect, -, hpermuted⟩ := collect_and_collect_permuted hrow
  refine ⟨hcollect Float, ?_, by decide +kernel⟩
  exact (hpermuted (exampleTerms.reverse.map Term.withSign) _ (by decide) (by decide) (by decide)
    Float).1

end Terms

end CurvePlot
