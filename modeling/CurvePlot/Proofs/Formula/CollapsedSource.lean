import CurvePlot.Proofs.Formula.JoinedSource
import CurvePlot.Proofs.Number.NegatedOperands

/-!
# Doubles of sources with joined signs

Joining the signs of a source moves minus signs in its expression, and over the doubles these moves
change no bit of a value and not whether there is one (`Skeleton.Alike.double?_eq`). So the joined
source evaluates to what the source evaluates to.

There are two limits. Behind an `e` that follows a digit, two signs in front of another digit become
the one sign of a power of ten; behind an `E` this cannot be, because no name is written so
(`Token.Scans.runsInPower_eq_false`). And a power that had a sign in front joins the chain of
products behind it, so a source that takes up all levels of nesting may become too deep. With one
level to spare it is accepted (`Expression.evaluate_normalize`).
-/

namespace CurvePlot

/-! ### Doubles of skeletons -/

/-- The value, if it is finite. -/
def Double.finite? (v : Float) : Option Float :=
  if v.isFinite then some v else none

/-- A finite value passes. -/
theorem Double.finite?_of_isFinite {v : Float} (h : v.isFinite = true) : finite? v = some v :=
  if_pos h

/-- What passes is finite. -/
theorem Double.isFinite_of_finite? {v w : Float} (h : finite? v = some w) : w.isFinite = true := by
  unfold finite? at h
  split at h
  · cases h
    assumption
  · cases h

/-- The opposite of a value passes just if the value does. -/
theorem Double.finite?_neg (v : Float) : finite? (-v) = (finite? v).bind fun a => finite? (-a) := by
  unfold finite?
  cases hv : v.isFinite with
  | true => simp
  | false =>
    have hneg : (-v).isFinite = false := by
      rw [Bool.eq_false_iff] at hv ⊢
      exact mt isFinite_of_neg hv
    simp [hneg]

namespace Skeleton

/-- The double of the expression at `x`, where every part of it is finite. -/
def double? (x : Float) : Skeleton Numeral → Option Float
  | number value => Double.finite? value.toFloat
  | var => Double.finite? x
  | constant name => Double.finite? name.value
  | binary operator left right => do
    let a ← left.double? x
    let b ← right.double? x
    if operator == .div && b == 0 then none else Double.finite? (operator.apply a b)
  | negation operand => do
    let v ← operand.double? x
    Double.finite? (-v)
  | call function argument => do
    let v ← argument.double? x
    Double.finite? (function.apply v)

/-- It is finite. -/
theorem isFinite_of_double? {s : Skeleton Numeral} {x v : Float} (h : s.double? x = some v) :
    v.isFinite = true := by
  cases s with
  | number _ | var | constant _ => exact Double.isFinite_of_finite? h
  | binary operator left right =>
    obtain ⟨a, -, h⟩ := Option.bind_eq_some_iff.mp h
    obtain ⟨b, -, h⟩ := Option.bind_eq_some_iff.mp h
    split at h
    · cases h
    · exact Double.isFinite_of_finite? h
  | negation operand | call function operand =>
    obtain ⟨a, -, h⟩ := Option.bind_eq_some_iff.mp h
    exact Double.isFinite_of_finite? h

/-- Opposites are checked once more. -/
theorem double?_negation {s : Skeleton Numeral} {x a : Float} (h : s.double? x = some a) :
    s.negation.double? x = some (-a) := by
  simp only [double?, h, Option.bind_eq_bind, Option.bind_some]
  exact Double.finite?_of_isFinite (Double.isFinite_neg (isFinite_of_double? h))

/-- An operation on operands with doubles. -/
theorem double?_binary {o : Operator} {l r : Skeleton Numeral} {x a b : Float}
    (hl : l.double? x = some a) (hr : r.double? x = some b) :
    (binary o l r).double? x =
      if o == .div && b == 0 then none else Double.finite? (o.apply a b) := by
  simp only [double?, hl, hr, Option.bind_eq_bind, Option.bind_some]

/-- It is checked alone if it is no quotient. -/
theorem double?_binary_of_ne_div {o : Operator} (ho : o ≠ .div) {l r : Skeleton Numeral}
    {x a b : Float} (hl : l.double? x = some a) (hr : r.double? x = some b) :
    (binary o l r).double? x = Double.finite? (o.apply a b) := by
  rw [double?_binary hl hr, beq_false_of_ne ho, Bool.false_and, if_neg Bool.false_ne_true]

/-- The opposite of an operation on such operands is finite where the operation is. -/
theorem double?_negation_binary {o : Operator} {l r : Skeleton Numeral} {x a b : Float}
    (hl : l.double? x = some a) (hr : r.double? x = some b) :
    (binary o l r).negation.double? x =
      if o == .div && b == 0 then none else Double.finite? (-o.apply a b) := by
  rw [double?, double?_binary hl hr]
  split
  · rfl
  · exact (Double.finite?_neg _).symm

/-- Two expressions of the same operands agree if they have no double without one of the operands'
and the same one with them. -/
theorem double?_eq_of_operands {s t : Skeleton Numeral} {x : Float} (l r : Skeleton Numeral)
    (hnone : l.double? x = none ∨ r.double? x = none → s.double? x = none ∧ t.double? x = none)
    (hsome : ∀ a b, l.double? x = some a → r.double? x = some b → a.isFinite = true →
      b.isFinite = true → s.double? x = t.double? x) : s.double? x = t.double? x := by
  cases hl : l.double? x with
  | none => rw [(hnone (Or.inl hl)).1, (hnone (Or.inl hl)).2]
  | some a =>
    cases hr : r.double? x with
    | none => rw [(hnone (Or.inr hr)).1, (hnone (Or.inr hr)).2]
    | some b => exact hsome a b hl hr (isFinite_of_double? hl) (isFinite_of_double? hr)

/-- Moves of minus signs change neither the double nor whether there is one. -/
theorem Alike.double?_eq {s t : Skeleton Numeral} (h : s.Alike t) (x : Float) :
    s.double? x = t.double? x := by
  induction h with
  | refl s => rfl
  | symm _ ih => exact ih.symm
  | trans _ _ ihst ihtu => exact ihst.trans ihtu
  | binary o _ _ ihl ihr => simp only [double?, ihl, ihr]
  | negation _ ih | call _ _ ih => simp only [double?, ih]
  | negation_negation s =>
    cases hs : s.double? x with
    | none => simp [double?, hs]
    | some a =>
      rw [double?_negation (double?_negation hs),
        Double.opposite_opposite (isFinite_of_double? hs)]
  | add_negation l r =>
    refine double?_eq_of_operands l r (by rintro (h | h) <;> simp [double?, h]) ?_
    intro a b hl hr ha hb
    have hsame : Operator.add.apply a (-b) = Operator.sub.apply a b := Double.add_opposite ha hb
    rw [double?_binary_of_ne_div (by decide) hl (double?_negation hr),
      double?_binary_of_ne_div (by decide) hl hr, hsame]
  | sub_negation l r =>
    refine double?_eq_of_operands l r (by rintro (h | h) <;> simp [double?, h]) ?_
    intro a b hl hr ha hb
    have hsame : Operator.sub.apply a (-b) = Operator.add.apply a b := Double.sub_opposite ha hb
    rw [double?_binary_of_ne_div (by decide) hl (double?_negation hr),
      double?_binary_of_ne_div (by decide) hl hr, hsame]
  | mul_negation l r =>
    refine double?_eq_of_operands l r (by rintro (h | h) <;> simp [double?, h]) ?_
    intro a b hl hr ha hb
    have hsame : Operator.mul.apply (-a) b = -Operator.mul.apply a b := Double.opposite_mul ha hb
    rw [double?_binary (double?_negation hl) hr, double?_negation_binary hl hr, hsame]
  | div_negation l r =>
    refine double?_eq_of_operands l r (by rintro (h | h) <;> simp [double?, h]) ?_
    intro a b hl hr ha hb
    rw [double?_binary (double?_negation hl) hr, double?_negation_binary hl hr]
    cases hzero : b == 0 with
    | true => rfl
    | false =>
      have hne : Double.value b ≠ 0 := by
        intro hvalue
        rw [← Double.value_zero.2, ← Double.beq_iff hb Double.value_zero.1, hzero] at hvalue
        cases hvalue
      have hsame : Operator.div.apply (-a) b = -Operator.div.apply a b :=
        Double.opposite_div ha hb hne
      rw [hsame]

end Skeleton

/-- Where the parts stand matters for the failure alone, not for the double. -/
theorem Expr.toOption_evaluate (x : Float) (e : Expr Numeral) :
    ((e.map Numeral.toFloat).evaluate x).toOption = e.skeleton.double? x := by
  have hchecked : ∀ (v : Float) (span : Span), (checked x v span).toOption = Double.finite? v := by
    intro v span
    unfold checked Double.finite?
    split <;> rfl
  have hbind : ∀ (r : Except EvalError Float) (f : Float → Except EvalError Float),
      (r >>= f).toOption = r.toOption >>= fun a => (f a).toOption := by
    intro r f
    cases r <;> rfl
  induction e with
  | number _ _ | var _ | constant _ _ => exact hchecked _ _
  | binary o l r span ihl ihr =>
    simp only [map, evaluate, skeleton, Skeleton.double?, hbind, ihl, ihr]
    congr! 4
    split
    · rfl
    · exact hchecked _ _
  | negation operand span ih =>
    simp only [map, evaluate, skeleton, Skeleton.double?, hbind, ih, hchecked]
  | call f argument span ih =>
    simp only [map, evaluate, skeleton, Skeleton.double?, hbind, ih]
    congr! 2
    unfold Double.finite?
    split <;> rfl

/-! ### The mark of a power -/

namespace Signs

variable {word rest : List Char}

/-- Where no digit and no point stands, no power of ten begins. -/
theorem runsInPower_append_of_plain (h : ∀ c ∈ word, Text.isAsciiDigit c = false ∧ c ≠ '.') :
    runsInPower (word ++ rest) = runsInPower rest := by
  induction word with
  | nil => rfl
  | cons c word ih =>
    have hc := h c List.mem_cons_self
    rw [List.cons_append, runsInPower, ih fun d hd => h d (List.mem_cons_of_mem c hd)]
    simp [hc.1, hc.2]

/-- A text without neighbouring signs that ends in neither a sign nor a mark has no row of signs behind
a mark, if the text behind it has none and does not begin with one. -/
theorem runsInPower_append_of_settled (hsettled : Settled word)
    (hlast : ∀ c ∈ word.getLast?, isSign c = false ∧ c ≠ 'e' ∧ c ≠ 'E')
    (hbehind : runsAfterMark rest = false) (hrest : runsInPower rest = false) :
    runsInPower (word ++ rest) = false := by
  induction word with
  | nil => exact hrest
  | cons c word ih =>
    have hmark : runsAfterMark (word ++ rest) = false := by
      cases word with
      | nil => exact hbehind
      | cons mark word =>
        cases word with
        | nil =>
          have hend := (hlast mark rfl).2
          cases rest with
          | nil => rfl
          | cons a rest =>
            cases rest with
            | nil => rfl
            | cons b rest => simp [runsAfterMark, hend]
        | cons a word =>
          cases word with
          | nil =>
            have hend := (hlast a rfl).1
            cases rest with
            | nil => rfl
            | cons b rest => simp [runsAfterMark, hend]
          | cons b word =>
            have hpair : ¬(isSign a = true ∧ isSign b = true) :=
              (List.isChain_cons_cons.mp (hsettled.tail.tail)).1
            rw [← Bool.and_eq_true, Bool.not_eq_true, Bool.and_eq_false_iff] at hpair
            rcases hpair with hsign | hsign <;> simp [runsAfterMark, hsign]
    rw [List.cons_append, runsInPower, hmark, Bool.and_false, Bool.false_or]
    refine ih hsettled.tail ?_
    intro d hd
    refine hlast d ?_
    cases word with
    | nil => cases hd
    | cons e word => exact hd

end Signs

namespace Token

open Signs

variable {text rest : List Char} {ls : List Lexeme}

/-- An `E` at the head of a text and in front of a sign is a name. -/
theorem Scans.capital_mem {a : Char} (ha : isSign a = true) (h : Scans ('E' :: a :: rest) ls) :
    Lexeme.name "E" ∈ ls := by
  generalize htext : 'E' :: a :: rest = text at h
  cases h with
  | nil => cases htext
  | blank hc _ =>
    rw [← (List.cons.inj htext).1] at hc
    cases hc
  | @word l word rest' ls hword _ =>
    rcases hword.cases with ⟨c, rfl, hc⟩ | ⟨literal, -, rfl, hl, -, -⟩ | ⟨rfl, hne, hname, hrest⟩
    · rw [← (List.cons.inj htext).1] at hc
      cases hc
    · obtain ⟨d, tail, hd⟩ := List.exists_cons_of_ne_nil (Literal.text_ne_nil hl)
      rw [hd, List.cons_append] at htext
      have hhead := Literal.head_text hl (c := d) (by rw [hd]; rfl)
      rw [← (List.cons.inj htext).1] at hhead
      exact absurd hhead (by decide)
    · obtain ⟨d, tail, rfl⟩ := List.exists_cons_of_ne_nil hne
      obtain ⟨rfl, htail⟩ := List.cons.inj htext
      cases tail with
      | nil => exact List.mem_cons_self
      | cons e tail =>
        have he := isSign_of_isNameChar (hname e (by simp))
        rw [← (List.cons.inj htail).1, ha] at he
        cases he

/-- In a text without the name `E`, no two signs stand behind the mark of a power if none stand
behind a small one. -/
theorem Scans.runsInPower_eq_false (h : Scans text ls) (hcapital : Lexeme.name "E" ∉ ls)
    (hsmall : ∀ c a b : Char, (Text.isAsciiDigit c = true ∨ c = '.') → isSign a = true →
      isSign b = true → ¬[c, 'e', a, b] <:+: text) : runsInPower text = false := by
  induction h with
  | nil => rfl
  | @blank c rest ls hc _ ih =>
    have hplain : ∀ d ∈ [c], Text.isAsciiDigit d = false ∧ d ≠ '.' := by
      intro d hd
      rw [List.mem_singleton.mp hd]
      constructor
      · rw [Bool.eq_false_iff]
        intro hdigit
        rw [Text.not_isBlank_of_isGraphic (Text.isGraphic_of_digit hdigit)] at hc
        cases hc
      · rintro rfl
        cases hc
    rw [← List.singleton_append, runsInPower_append_of_plain hplain]
    exact ih hcapital fun c a b hc ha hb hinside =>
      hsmall c a b hc ha hb (hinside.trans (List.suffix_cons _ _).isInfix)
  | @word l word rest ls hword hscans ih =>
    have hrest : runsInPower rest = false :=
      ih (fun hmem => hcapital (List.mem_cons_of_mem l hmem)) fun c a b hc ha hb hinside =>
        hsmall c a b hc ha hb (hinside.trans (List.suffix_append _ _).isInfix)
    rcases hword.cases with ⟨c, rfl, hc⟩ | ⟨literal, rfl, rfl, hl, -, -⟩ | ⟨-, -, hname, -⟩
    · rw [runsInPower_append_of_plain, hrest]
      intro d hd
      rw [List.mem_singleton.mp hd]
      have hclass : (!Text.isAsciiDigit c && c != '.') = true :=
        Lexeme.class_of_ofSign? (p := fun c => !Text.isAsciiDigit c && c != '.') (by decide) hc
      simpa using hclass
    · obtain ⟨front, c, htext, hc⟩ := Literal.exists_last_text hl
      refine runsInPower_append_of_settled (Literal.settled_text hl) ?_ ?_ hrest
      · intro d hd
        refine ⟨Literal.isSign_of_mem_getLast? hl hd, ?_⟩
        rw [htext, List.getLast?_concat, Option.mem_some_iff] at hd
        subst hd
        constructor <;> rintro rfl <;> exact absurd hc (by decide)
      · -- The mark behind the literal is small, and its signs are excluded, or it is the name.
        rw [Bool.eq_false_iff]
        intro hruns
        obtain ⟨mark, a, b, tail, rfl, rfl | rfl, ha, hb⟩ := exists_of_runsAfterMark hruns
        · exact hsmall c a b hc ha hb ⟨front, tail, by simp [htext]⟩
        · exact hcapital (List.mem_cons_of_mem _ (hscans.capital_mem ha))
    · rw [runsInPower_append_of_plain fun c hc => Text.not_digit_of_isNameChar (hname c hc), hrest]

end Token

/-! ### Sources -/

namespace Expression

/-- An expression evaluates to the double of its skeleton. -/
theorem toOption_evaluate (e : Expression) (x : Float) :
    (e.evaluate x).toOption = e.tree.skeleton.double? x :=
  Expr.toOption_evaluate x e.tree

/-- An accepted source holds no name `E`. -/
theorem capital_not_mem {ls : List Lexeme} {t : Skeleton Numeral}
    (h : Grammar.Derives variableName .expr (Lexeme.withProducts ls) t) :
    Lexeme.name "E" ∉ ls := by
  intro hmem
  have hknown := h.mem_knownNames (Lexeme.mem_withProducts hmem)
  exact absurd hknown (by decide)

/-- An accepted source without blanks, in which no two signs stand behind an `e` that follows a
digit or a point, has the same doubles with its signs joined, and none where it has none. If that is
refused, it is too deep, and the source itself is nested as deep as the limit allows. -/
theorem evaluate_normalize {source : List Char} {e : Expression} (h : ofText source = .ok e)
    (hblank : ∀ c ∈ source, Text.isBlank c = false)
    (hsmall : ∀ c a b : Char, (Text.isAsciiDigit c = true ∨ c = '.') → Signs.isSign a = true →
      Signs.isSign b = true → ¬[c, 'e', a, b] <:+: source) :
    (∃ e', ofText (Signs.normalize source) = .ok e' ∧
      ∀ x, (e'.evaluate x).toOption = (e.evaluate x).toOption) ∨
    (Expr.TooDeep (ofText (Signs.normalize source)) ∧ NestedTo source (nestingLimit - 1)) := by
  obtain ⟨ls, chain, depth, hscans, hdepth, hnests⟩ := exists_nests h
  have hrun : Signs.runsInPower source = false :=
    hscans.runsInPower_eq_false (capital_not_mem hnests.derives) hsmall
  obtain ⟨ms, hms, hjoins⟩ := hscans.joined hrun
  obtain ⟨s, ⟨chain', depth', -, hdepth', hs⟩, halike⟩ := hnests.joinsSigns hjoins.withProducts
  rw [Signs.normalize_of_not_blank hblank]
  obtain ⟨-, e', he', htree⟩ | ⟨hlimit, hdeep⟩ := ofText_of_nests hms hs
  · refine Or.inl ⟨e', he', fun x => ?_⟩
    rw [toOption_evaluate, toOption_evaluate, htree, halike.double?_eq]
  · exact Or.inr ⟨hdeep, (nestedTo_iff_of_nests hscans hnests _).mpr (by omega)⟩

/-- `x--2*-x` evaluates as `x+2*-x`. -/
theorem evaluate_normalize_difference :
    ∃ e, ofText ['x', '-', '-', '2', '*', '-', 'x'] = .ok e ∧
      ((∃ e', ofText (Signs.normalize ['x', '-', '-', '2', '*', '-', 'x']) = .ok e' ∧
        ∀ x, (e'.evaluate x).toOption = (e.evaluate x).toOption) ∨
      (Expr.TooDeep (ofText (Signs.normalize ['x', '-', '-', '2', '*', '-', 'x'])) ∧
        NestedTo ['x', '-', '-', '2', '*', '-', 'x'] (nestingLimit - 1))) := by
  have hok : (ofText ['x', '-', '-', '2', '*', '-', 'x']).isOk = true := by decide +kernel
  cases he : ofText ['x', '-', '-', '2', '*', '-', 'x'] with
  | error error => rw [he] at hok; cases hok
  | ok e =>
    have hgraphic :
        (['x', '-', '-', '2', '*', '-', 'x'].all fun c => !Text.isBlank c) = true := by decide
    have hblank : ∀ c ∈ ['x', '-', '-', '2', '*', '-', 'x'], Text.isBlank c = false := by
      intro c hc
      simpa using List.all_eq_true.mp hgraphic c hc
    refine ⟨e, rfl, evaluate_normalize he hblank ?_⟩
    intro c a b _ _ _ hinside
    exact absurd (hinside.subset (List.mem_cons_of_mem c List.mem_cons_self)) (by decide)

/-- A square taken off with two signs, and with so many factors behind it. -/
def longProduct (n : ℕ) : List Char :=
  ['x', '-', '-', 'x', '^', '2'] ++ (List.replicate n ['*', 'x']).flatten

/-- It is written with five characters. -/
theorem mem_longProduct {n : ℕ} {c : Char} (h : c ∈ longProduct n) :
    c ∈ ['x', '-', '^', '2', '*'] := by
  rcases List.mem_append.mp h with h | h
  · simp only [List.mem_cons, List.not_mem_nil, or_false] at h ⊢
    tauto
  · obtain ⟨factor, hfactor, hc⟩ := List.mem_flatten.mp h
    rw [(List.mem_replicate.mp hfactor).2] at hc
    simp only [List.mem_cons, List.not_mem_nil, or_false] at hc ⊢
    tauto

/-- With all levels taken up, a power that loses its sign is too much: 254 factors are accepted
behind the negative square, and refused behind the square. -/
theorem not_evaluate_normalize :
    ¬∀ (source : List Char) (e : Expression), ofText source = .ok e →
      (∀ c ∈ source, Text.isBlank c = false) →
      (∀ c a b : Char, (Text.isAsciiDigit c = true ∨ c = '.') → Signs.isSign a = true →
        Signs.isSign b = true → ¬[c, 'e', a, b] <:+: source) →
      ∃ e', ofText (Signs.normalize source) = .ok e' ∧
        ∀ x, (e'.evaluate x).toOption = (e.evaluate x).toOption := by
  intro h
  have hok : (ofText (longProduct 254)).isOk = true := by decide +kernel
  have hrefused : (ofText (Signs.joined (longProduct 254))).isOk = false := by decide +kernel
  have hgraphic : (['x', '-', '^', '2', '*'].all fun c => !Text.isBlank c) = true := by decide
  have hblank : ∀ c ∈ longProduct 254, Text.isBlank c = false := by
    intro c hc
    simpa using List.all_eq_true.mp hgraphic c (mem_longProduct hc)
  have hmark : 'e' ∉ longProduct 254 := fun hc => absurd (mem_longProduct hc) (by decide)
  cases he : ofText (longProduct 254) with
  | error error => rw [he] at hok; cases hok
  | ok e =>
    obtain ⟨e', he', -⟩ := h _ e he hblank fun c a b _ _ _ hinside =>
      hmark (hinside.subset (List.mem_cons_of_mem c List.mem_cons_self))
    rw [Signs.normalize_of_not_blank hblank] at he'
    rw [he'] at hrefused
    cases hrefused

end Expression

end CurvePlot
