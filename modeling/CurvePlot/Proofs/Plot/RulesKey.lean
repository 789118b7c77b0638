import CurvePlot.Plot.Cache
import CurvePlot.Proofs.Output.JsonText

/-!
# What the key of reading rules tells

Two reading rules have the same key exactly when they differ at most in the parts of the agreed
range that are not finite (`ReadingRules.key_eq_iff`). Such a part is overlaid by the formula's own
range or mended by the normalization of the domain like a missing one, so that the rules read and
sample every formula alike (`ReadingRules.sample_eq_of_key_eq`).
-/

namespace CurvePlot

/-! ### Keys -/

/-- The range with the parts left out that are not finite. -/
def PartialRange.finite (range : PartialRange) : PartialRange :=
  ⟨range.min.filter Float.isFinite, range.max.filter Float.isFinite,
    range.step.filter Float.isFinite⟩

/-- A range as a JSON value. -/
def PartialRange.toJson (range : PartialRange) : JsonValue :=
  .object
    [("min", .ofOption .ofFloat range.min), ("max", .ofOption .ofFloat range.max),
      ("step", .ofOption .ofFloat range.step)]

/-- The text of a range is well-formed. -/
theorem PartialRange.wellFormed_toJson (range : PartialRange) : range.toJson.WellFormed := by
  refine .object fun m hm => ?_
  simp only [List.mem_cons, List.not_mem_nil, or_false] at hm
  rcases hm with rfl | rfl | rfl <;>
    exact JsonValue.wellFormed_ofOption JsonValue.wellFormed_ofFloat _

/-- The text of a range tells its finite parts and nothing else. -/
theorem PartialRange.toJson_eq_iff {first second : PartialRange} :
    first.toJson = second.toJson ↔ first.finite = second.finite := by
  simp [toJson, finite, JsonValue.ofOption_ofFloat_eq_iff]

/-- The text of a range that may be missing tells whether it is, and its finite parts. -/
theorem PartialRange.ofOption_toJson_eq_iff {first second : Option PartialRange} :
    JsonValue.ofOption toJson first = JsonValue.ofOption toJson second ↔
      first.map finite = second.map finite := by
  cases first with
  | none => cases second <;> simp [JsonValue.ofOption, toJson]
  | some first =>
    cases second with
    | none => simp [JsonValue.ofOption, toJson]
    | some second => simpa [JsonValue.ofOption] using toJson_eq_iff

/-- The text of a character that may be missing tells the character. -/
theorem JsonValue.ofOption_singleton_eq_iff {first second : Option Char} :
    ofOption (fun c => string (String.singleton c)) first =
      ofOption (fun c => string (String.singleton c)) second ↔ first = second := by
  cases first <;> cases second <;>
    simp [ofOption, String.singleton_inj]

namespace ReadingRules

/-- The JSON value of rules is well-formed. -/
theorem wellFormed_toJson (rules : ReadingRules) : rules.toJson.WellFormed := by
  refine .object fun m hm => ?_
  simp only [List.mem_cons, List.not_mem_nil, or_false] at hm
  rcases hm with rfl | rfl | rfl | rfl
  · refine .array fun item hitem => ?_
    obtain ⟨word, -, rfl⟩ := List.mem_map.mp hitem
    exact .string word
  · exact JsonValue.wellFormed_ofOption (fun c => .string _) _
  · exact JsonValue.wellFormed_ofNat _
  · exact JsonValue.wellFormed_ofOption PartialRange.wellFormed_toJson _

/-- Rules have the same key exactly when they agree but for parts of the agreed range that are not
finite. -/
theorem key_eq_iff {first second : ReadingRules} :
    first.key = second.key ↔
      first.missingWords = second.missingWords ∧ first.groupSeparator = second.groupSeparator ∧
        first.maxSamples = second.maxSamples ∧
        first.defaultRange.map PartialRange.finite = second.defaultRange.map PartialRange.finite := by
  have hrange (rules : ReadingRules) : rules.toJson = .object
      [("nan_aliases", .array (rules.missingWords.map JsonValue.string)),
        ("thousands_separator",
          .ofOption (fun c => .string (String.singleton c)) rules.groupSeparator),
        ("max_samples", .ofNat rules.maxSamples),
        ("default_range", .ofOption PartialRange.toJson rules.defaultRange)] := rfl
  have hstring : Function.Injective JsonValue.string := fun _ _ h => JsonValue.string.inj h
  have hvalue : first.key = second.key ↔ first.toJson = second.toJson :=
    ⟨JsonValue.compact_injective (wellFormed_toJson first) (wellFormed_toJson second),
      congrArg JsonValue.compact⟩
  rw [hvalue, hrange, hrange]
  simp [JsonValue.ofOption_singleton_eq_iff, PartialRange.ofOption_toJson_eq_iff,
    JsonValue.ofNat_injective.eq_iff, (List.map_injective_iff.mpr hstring).eq_iff]

end ReadingRules

/-! ### Domains -/

namespace Domain

/-- A part of a domain, or the standard one when it is not finite. -/
def mendPart (standard part : Float) : Float :=
  if part.isFinite then part else standard

/-- The domain with the family's parts in place of those that are not finite. -/
def mended (d : Domain) (family : Family) : Domain :=
  ⟨mendPart family.defaultDomain.min d.min, mendPart family.defaultDomain.max d.max,
    mendPart family.defaultDomain.step d.step⟩

/-- Mending a part once more changes nothing. -/
theorem mendPart_mendPart (standard part : Float) :
    mendPart standard (mendPart standard part) = mendPart standard part := by
  cases h : part.isFinite with
  | true => simp [mendPart, h]
  | false => simp [mendPart, h]

/-- The normalized bounds depend on the mended ones. -/
theorem normalizedBounds_congr {d e : Domain} {family : Family}
    (hmin : mendPart family.defaultDomain.min d.min = mendPart family.defaultDomain.min e.min)
    (hmax : mendPart family.defaultDomain.max d.max = mendPart family.defaultDomain.max e.max) :
    d.normalizedBounds family = e.normalizedBounds family := by
  unfold mendPart at hmin hmax
  unfold normalizedBounds
  dsimp only
  rw [hmin, hmax]

/-- A mended part that is not positive gives way to the same standard part. -/
theorem mendPart_of_pos (standard part : Float) :
    (if !(mendPart standard part).isFinite || mendPart standard part ≤ 0 then standard
      else mendPart standard part) = if !part.isFinite || part ≤ 0 then standard else part := by
  cases h : part.isFinite with
  | true => simp [mendPart, h]
  | false => simp [mendPart, h]

/-- A step that is not finite is replaced by the family's, as mending does. -/
theorem positiveStep_mended (d : Domain) (family : Family) :
    (d.mended family).positiveStep family = d.positiveStep family :=
  mendPart_of_pos family.defaultDomain.step d.step

/-- Normalization mends first. -/
theorem normalized_mended (d : Domain) (family : Family) (maxSamples : ℕ) :
    (d.mended family).normalized family maxSamples = d.normalized family maxSamples := by
  have hbounds : (d.mended family).normalizedBounds family = d.normalizedBounds family :=
    normalizedBounds_congr (mendPart_mendPart _ _) (mendPart_mendPart _ _)
  simp only [normalized, hbounds, positiveStep_mended]

/-- A part that overlays another is mended like the other when it is not finite, if the other is
mended to the standard one. -/
theorem mendPart_getD_filter (standard : Float) (part : Option Float) :
    mendPart standard ((part.filter Float.isFinite).getD standard) =
      mendPart standard (part.getD standard) := by
  cases part with
  | none => rfl
  | some x =>
    cases hx : x.isFinite with
    | true => simp [Option.filter, hx]
    | false => simp [Option.filter, hx, mendPart]

/-- Over the family's own domain, parts that are not finite count like missing ones. -/
theorem mended_overridden_finite (family : Family) (range : PartialRange) :
    (family.defaultDomain.overridden range.finite).mended family =
      (family.defaultDomain.overridden range).mended family := by
  simp only [mended, overridden, PartialRange.finite, mendPart_getD_filter]

/-- A part that overlays two others that are mended alike leaves them so. -/
theorem mendPart_getD {standard x y : Float} (h : mendPart standard x = mendPart standard y)
    (part : Option Float) :
    mendPart standard (part.getD x) = mendPart standard (part.getD y) := by
  cases part with
  | none => exact h
  | some _ => rfl

/-- A range overlaid on two domains that are mended alike leaves them so. -/
theorem mended_overridden {d e : Domain} {family : Family}
    (h : d.mended family = e.mended family) (range : PartialRange) :
    (d.overridden range).mended family = (e.overridden range).mended family := by
  simp only [mended, Domain.mk.injEq] at h
  simp only [mended, overridden, Domain.mk.injEq]
  exact ⟨mendPart_getD h.1 _, mendPart_getD h.2.1 _, mendPart_getD h.2.2 _⟩

/-- Ranges overlaid on two domains that are mended alike leave them so. -/
theorem mended_foldl_overridden {d e : Domain} {family : Family}
    (h : d.mended family = e.mended family) (ranges : List PartialRange) :
    (ranges.foldl overridden d).mended family = (ranges.foldl overridden e).mended family := by
  induction ranges generalizing d e with
  | nil => exact h
  | cons range ranges ih => exact ih (mended_overridden h range)

end Domain

/-! ### Reading -/

namespace ReadingRules

/-- Agreed ranges with the same finite parts lead to the same domains. -/
theorem domainOf_eq_of_finite_eq {rules : ReadingRules} {agreed : Option PartialRange}
    (h : rules.defaultRange.map PartialRange.finite = agreed.map PartialRange.finite)
    (family : Family) (ranges : List PartialRange) :
    rules.domainOf family ranges = { rules with defaultRange := agreed }.domainOf family ranges := by
  have hagreed : (rules.defaultRange.toList.foldl Domain.overridden family.defaultDomain).mended
        family = (agreed.toList.foldl Domain.overridden family.defaultDomain).mended family := by
    cases hfirst : rules.defaultRange with
    | none =>
      cases agreed with
      | none => rfl
      | some second => rw [hfirst] at h; cases h
    | some first =>
      cases agreed with
      | none => rw [hfirst] at h; cases h
      | some second =>
        rw [hfirst, Option.map_some, Option.map_some, Option.some.injEq] at h
        simp only [Option.toList_some, List.foldl_cons, List.foldl_nil]
        rw [← Domain.mended_overridden_finite, h, Domain.mended_overridden_finite]
  unfold domainOf
  dsimp only
  split
  · rfl
  · rw [List.foldl_append, List.foldl_append, ← Domain.normalized_mended,
      Domain.mended_foldl_overridden hagreed, Domain.normalized_mended]

/-- The agreed range takes no part in reading the shape of a formula. -/
theorem readShape_defaultRange (rules : ReadingRules) (agreed : Option PartialRange)
    (shape : Shape) : { rules with defaultRange := agreed }.readShape shape =
      rules.readShape shape := by
  cases shape <;> rfl

/-- Agreed ranges with the same finite parts lead to the same plots. -/
theorem read_eq_of_finite_eq {rules : ReadingRules} {agreed : Option PartialRange}
    (h : rules.defaultRange.map PartialRange.finite = agreed.map PartialRange.finite)
    (formula : String) : rules.read formula = { rules with defaultRange := agreed }.read formula := by
  simp only [read, readShape_defaultRange, domainOf_eq_of_finite_eq h]

/-- Rules with the same key read and sample every formula alike, refusals included. -/
theorem sample_eq_of_key_eq {first second : ReadingRules} (h : first.key = second.key)
    (formula : String) : first.sample formula = second.sample formula := by
  obtain ⟨hwords, hseparator, hmax, hrange⟩ := key_eq_iff.mp h
  have hsecond : second = { first with defaultRange := second.defaultRange } := by
    rw [hwords, hseparator, hmax]
  rw [hsecond, sample, sample, read_eq_of_finite_eq hrange]

end ReadingRules

end CurvePlot
