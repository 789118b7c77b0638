import CurvePlot.Proofs.Formula.KeyedExplicit
import CurvePlot.Proofs.Text.OuterBlanks
import Mathlib.Data.List.ReduceOption

/-!
# Ranges in layers

The domain of a keyed formula is put together from up to four layers: the family's default, the
agreed range, the values of the list behind the parameters, and the list behind the second colon.
Each part of the domain is the last value that a layer has for it (`Domain.foldl_overridden`), and
the domain is normalized afterwards (`ReadingRules.exists_read_of_key`). Where in the first list the
range begins depends on the number of parameters alone, so a range behind a comma and a range behind
a colon come to the same (`ReadingRules.read_comma_and_colon`).
-/

namespace CurvePlot

/-! ### The last value present -/

/-- The last value that is present, or the default if none is. -/
def lastPresent (default : Float) (values : List (Option Float)) : Float :=
  values.reduceOption.getLastD default

/-- A first value takes the place of the default. -/
@[simp] theorem lastPresent_cons (default : Float) (value : Option Float)
    (values : List (Option Float)) :
    lastPresent default (value :: values) = lastPresent (value.getD default) values := by
  cases value with
  | none => rfl
  | some v => rw [lastPresent, List.reduceOption_cons_of_some, List.getLastD_cons]; rfl

/-- Ranges laid over a domain one after the other leave the last value of each part. -/
theorem Domain.foldl_overridden (d : Domain) (ranges : List PartialRange) :
    ranges.foldl Domain.overridden d =
      ⟨lastPresent d.min (ranges.map PartialRange.min),
        lastPresent d.max (ranges.map PartialRange.max),
        lastPresent d.step (ranges.map PartialRange.step)⟩ := by
  induction ranges generalizing d with
  | nil => rfl
  | cons range ranges ih =>
    rw [List.foldl_cons, ih]
    simp only [List.map_cons, lastPresent_cons, Domain.overridden]

/-- Every list of values makes a curve of a family with a closed form. -/
theorem Curve.exists_ofValues? {family : Family} (h : family ≠ .expression)
    (values : List (Option Float)) : ∃ curve, Curve.ofValues? family values = some curve := by
  cases family with
  | expression => exact absurd rfl h
  | _ => exact ⟨_, rfl⟩

namespace ReadingRules

variable {rules : ReadingRules} {family : Family} {key body : List Char}

/-- One part of a domain before it is normalized: the last value present among the family's own, the
agreed one unless the domain holds angles, that of the listed values behind the parameters, and that
of the named range. The agreed range has the part by name, the lists have it at a place. -/
def layered (rules : ReadingRules) (family : Family) (listed named : List (Option Float))
    (standard : Float) (agreed : PartialRange → Option Float) (place : Nat) : Float :=
  lastPresent standard
    [if family.isAngular then none else rules.defaultRange.bind agreed,
      (listed[family.parameterCount + place]?).join, (named[place]?).join]

/-- The domain with each part layered. -/
theorem domainOf_eq_layered (rules : ReadingRules) (family : Family) (listed : List (Option Float))
    (range : Option (List Char)) :
    rules.domainOf family
        (PartialRange.ofValues (listed.drop family.parameterCount) :: rules.rangesOf range) =
      Domain.normalized
        ⟨rules.layered family listed (readValues rules (range.getD [])) family.defaultDomain.min
            PartialRange.min 0,
          rules.layered family listed (readValues rules (range.getD [])) family.defaultDomain.max
            PartialRange.max 1,
          rules.layered family listed (readValues rules (range.getD [])) family.defaultDomain.step
            PartialRange.step 2⟩ family rules.maxSamples := by
  have hnone : readValues rules [] = [] := rfl
  rw [domainOf, Domain.foldl_overridden]
  cases range <;> cases hangular : family.isAngular <;> cases hagreed : rules.defaultRange <;>
    simp [layered, rangesOf, PartialRange.ofValues, hangular, hagreed, hnone]

/-! ### Formulas with a key -/

/-- Blanks behind a value do not count. -/
theorem readValue?_append_blank {back : List Char} (h : ∀ c ∈ back, Text.isBlank c = true)
    (text : List Char) : readValue? rules (text ++ back) = readValue? rules text := by
  simp only [readValue?, Text.trim_append_blank h]

/-- Nor do blanks behind a list of values. -/
theorem readValues_append_blank {back : List Char} (h : ∀ c ∈ back, Text.isBlank c = true)
    (text : List Char) : readValues rules (text ++ back) = readValues rules text := by
  have hcomma : ',' ∉ back := Text.not_mem_of_blank (by decide) h
  obtain ⟨others, last, htext, hback⟩ := Text.pieces_append_back text hcomma
  simp [readValues, Text.trim_append_blank h, htext, hback, readValue?_append_blank h]

/-- Nor do blanks behind a keyed formula. -/
theorem readKeyed_append_blank {back : List Char} (h : ∀ c ∈ back, Text.isBlank c = true)
    (family : Family) (body : List Char) :
    rules.readKeyed family (body ++ back) = rules.readKeyed family body := by
  have hcolon : ':' ∉ back := Text.not_mem_of_blank (by decide) h
  rcases hcut : Text.cut ':' body with ⟨first, _ | second⟩ <;>
    simp only [readKeyed, Text.cut_append body hcolon, hcut, Text.trim_append_blank h,
      readValues_append_blank h, rangesOf, Option.map_some]

/-- The key is what stands before the first colon, without outer blanks and upper case. -/
theorem readShape_ofFormula_of_key (hcolon : ':' ∉ key)
    (hkey : Family.ofKey? (String.ofList (Text.trim (Text.lower key))) = some family) :
    rules.readShape (Shape.ofFormula (key ++ ':' :: body)) = rules.readKeyed family body := by
  obtain ⟨front, inner, kept, back, rfl, rfl, htrim, hfront, hback⟩ :=
    Text.trim_append_cons (by decide) hcolon body
  have hinner : ':' ∉ inner := fun hmem => hcolon (List.mem_append_right _ hmem)
  have hlower : Text.trim (Text.lower (front ++ inner)) = Text.trim (Text.lower inner) := by
    have hsplit : Text.lower (front ++ inner) = Text.lower front ++ Text.lower inner := by
      simp [Text.lower]
    rw [hsplit, Text.lower_of_blank hfront, Text.trim_blank_append hfront]
  rw [hlower] at hkey
  simp only [Shape.ofFormula, htrim, Text.cut_append_cons hinner, hkey, readShape]
  rw [readKeyed_append_blank hback]

/-- A formula with the key of a closed form is read as the curve of the values in front, over the
domain whose parts are layered. -/
theorem exists_read_of_key (rules : ReadingRules) (hcolon : ':' ∉ key)
    (hkey : Family.ofKey? (String.ofList (Text.trim (Text.lower key))) = some family)
    (hclosed : family ≠ .expression) {first : List Char} {second : Option (List Char)}
    (hcut : Text.cut ':' body = (first, second)) :
    ∃ p, rules.read (String.ofList (key ++ ':' :: body)) = .ok p ∧
      Curve.ofValues? family ((readValues rules first).take family.parameterCount) =
        some p.curve ∧
      p.domain = rules.domainOf family
        (PartialRange.ofValues ((readValues rules first).drop family.parameterCount) ::
          rules.rangesOf second) := by
  obtain ⟨curve, hcurve⟩ := Curve.exists_ofValues? hclosed
    ((readValues rules first).take family.parameterCount)
  have hnot : (family == .expression) = false := beq_eq_false_iff_ne.mpr hclosed
  have hread : rules.readKeyed family body =
      .ok (curve, PartialRange.ofValues ((readValues rules first).drop family.parameterCount) ::
        rules.rangesOf second) := by
    simp [readKeyed, hcut, hnot, hcurve]
  simp only [read, String.toList_ofList, readShape_ofFormula_of_key hcolon hkey, hread,
    Curve.family_of_ofValues? hcurve]
  exact ⟨_, rfl, hcurve, rfl⟩

/-- A range is the same behind the parameters' last comma as by itself; a blank one names nothing
there either. -/
theorem ofValues_pieces (rules : ReadingRules) (range : List Char) :
    PartialRange.ofValues ((Text.pieces ',' range).map (readValue? rules)) =
      PartialRange.ofValues (readValues rules range) := by
  rw [readValues]
  split
  · next hempty =>
    have hblank : ',' ∉ range := fun hmem => by
      have hkept := Text.mem_trim (by decide) hmem
      rw [List.isEmpty_iff.mp hempty] at hkept
      cases hkept
    have hnone : readValue? rules range = none := by simp [readValue?, hempty]
    rw [Text.pieces_of_not_mem hblank, List.map_singleton, hnone]
    rfl
  · rfl

/-- As many values as the family has parameters, and a range behind a comma or behind a colon: the
curve and the domain are the same. -/
theorem read_comma_and_colon (rules : ReadingRules) (hcolon : ':' ∉ key)
    (hkey : Family.ofKey? (String.ofList (Text.trim (Text.lower key))) = some family)
    (hclosed : family ≠ .expression) {parameters : List (List Char)} {range : List Char}
    (hlength : parameters.length = family.parameterCount)
    (hparameters : ∀ text ∈ parameters, ',' ∉ text ∧ ':' ∉ text) (hrange : ':' ∉ range) :
    ∃ p q,
      rules.read (String.ofList
        (key ++ ':' :: ([','].intercalate parameters ++ ',' :: range))) = .ok p ∧
      rules.read (String.ofList
        (key ++ ':' :: ([','].intercalate parameters ++ ':' :: range))) = .ok q ∧
      p.curve = q.curve ∧ p.domain = q.domain := by
  have htwo : 2 ≤ parameters.length := by
    rw [hlength]
    cases family <;> first | exact absurd rfl hclosed | decide
  have hne : parameters ≠ [] := List.ne_nil_of_length_pos (by omega)
  have hlist : ':' ∉ [','].intercalate parameters :=
    Text.not_mem_intercalate (by decide) fun text htext => (hparameters text htext).2
  have hpieces : Text.pieces ',' ([','].intercalate parameters) = parameters :=
    Text.pieces_intercalate hne fun text htext => (hparameters text htext).1
  have hfirst : readValues rules ([','].intercalate parameters) =
      parameters.map (readValue? rules) :=
    readValues_intercalate htwo fun text htext => (hparameters text htext).1
  have hlonger : readValues rules ([','].intercalate parameters ++ ',' :: range) =
      parameters.map (readValue? rules) ++ (Text.pieces ',' range).map (readValue? rules) := by
    rw [readValues_of_comma (by simp), Text.pieces_append, hpieces, List.map_append]
  have hcount : (parameters.map (readValue? rules)).length = family.parameterCount := by
    rw [List.length_map, hlength]
  have hone : Text.cut ':' ([','].intercalate parameters ++ ',' :: range) =
      ([','].intercalate parameters ++ ',' :: range, none) :=
    Text.cut_of_not_mem (by simp [hlist, hrange])
  have hboth : Text.cut ':' ([','].intercalate parameters ++ ':' :: range) =
      ([','].intercalate parameters, some range) := Text.cut_append_cons hlist
  obtain ⟨p, hp, hcurve, hdomain⟩ := rules.exists_read_of_key hcolon hkey hclosed hone
  obtain ⟨q, hq, hcurve', hdomain'⟩ := rules.exists_read_of_key hcolon hkey hclosed hboth
  refine ⟨p, q, hp, hq, ?_, ?_⟩
  · rw [hlonger, List.take_left' hcount] at hcurve
    rw [hfirst, List.take_of_length_le hcount.le] at hcurve'
    exact Option.some.inj (hcurve.symm.trans hcurve')
  · rw [hdomain, hdomain', hlonger, hfirst, List.drop_left' hcount,
      List.drop_of_length_le hcount.le, ofValues_pieces]
    exact (WrittenCurve.domainOf_empty_cons family _).symm

/-- A keyed formula of a closed form is read over the normalized domain in which each part is the
last value present among the family's default, the agreed range unless the domain holds angles, the
listed values behind the parameters, and the range behind a second colon. With a full list of
parameters a range behind a comma and one behind a colon give the same curve and domain. -/
theorem read_layered_and_respelled (rules : ReadingRules) (hcolon : ':' ∉ key)
    (hkey : Family.ofKey? (String.ofList (Text.trim (Text.lower key))) = some family)
    (hclosed : family ≠ .expression) :
    (∀ body first second, Text.cut ':' body = (first, second) →
      ∃ p, rules.read (String.ofList (key ++ ':' :: body)) = .ok p ∧
        Curve.ofValues? family ((readValues rules first).take family.parameterCount) =
          some p.curve ∧
        p.domain = Domain.normalized
          ⟨rules.layered family (readValues rules first) (readValues rules (second.getD []))
              family.defaultDomain.min PartialRange.min 0,
            rules.layered family (readValues rules first) (readValues rules (second.getD []))
              family.defaultDomain.max PartialRange.max 1,
            rules.layered family (readValues rules first) (readValues rules (second.getD []))
              family.defaultDomain.step PartialRange.step 2⟩ family rules.maxSamples) ∧
    ∀ (parameters : List (List Char)) (range : List Char),
      parameters.length = family.parameterCount →
      (∀ text ∈ parameters, ',' ∉ text ∧ ':' ∉ text) → ':' ∉ range →
      ∃ p q,
        rules.read (String.ofList
          (key ++ ':' :: ([','].intercalate parameters ++ ',' :: range))) = .ok p ∧
        rules.read (String.ofList
          (key ++ ':' :: ([','].intercalate parameters ++ ':' :: range))) = .ok q ∧
        p.curve = q.curve ∧ p.domain = q.domain := by
  refine ⟨fun body first second hcut => ?_, fun parameters range hlength hparameters hrange =>
    rules.read_comma_and_colon hcolon hkey hclosed hlength hparameters hrange⟩
  obtain ⟨p, hread, hcurve, hdomain⟩ := rules.exists_read_of_key hcolon hkey hclosed hcut
  exact ⟨p, hread, hcurve, hdomain.trans (rules.domainOf_eq_layered family _ second)⟩

/-- Every layer names one part here: the first point stands behind the second colon, the last one
behind the parameters, and the step is the agreed one. -/
theorem read_layered_and_respelled_parabola :
    (∃ p, read { standard with defaultRange := some ⟨some (-3), some 3, some 0.5⟩ }
        " Quad :1,,2,,7 : 0" = .ok p ∧ p.domain = ⟨0, 7, 0.5⟩) ∧
      ∃ p q, standard.read "quad:1,,2,0,,.25" = .ok p ∧ standard.read "quad:1,,2:0,,.25" = .ok q ∧
        p.curve = q.curve ∧ p.domain = q.domain := by
  constructor
  · have hkey : Family.ofKey? (String.ofList (Text.trim (Text.lower " Quad ".toList))) =
        some .quadratic := by decide
    obtain ⟨hlayered, -⟩ := read_layered_and_respelled
      { standard with defaultRange := some ⟨some (-3), some 3, some 0.5⟩ } (by decide) hkey
      (by decide)
    obtain ⟨p, hread, -, hdomain⟩ := hlayered "1,,2,,7 : 0".toList "1,,2,,7 ".toList
      (some " 0".toList) (by decide)
    refine ⟨p, hread, hdomain.trans ?_⟩
    decide +kernel
  · have hkey : Family.ofKey? (String.ofList (Text.trim (Text.lower "quad".toList))) =
        some .quadratic := by decide
    obtain ⟨-, hrespelled⟩ := read_layered_and_respelled standard (by decide) hkey (by decide)
    exact hrespelled [['1'], [], ['2']] "0,,.25".toList (by decide) (by decide) (by decide)

end ReadingRules

end CurvePlot
