import CurvePlot.Output.Picture
import CurvePlot.Proofs.Plot.DrawingBounds

/-!
# Where the lines of a grid stand

The place of a grid line is computed in words of 32 bits, from sides and a margin that were checked
as doubles. A canvas without fault has room between its margins, but this says nothing about the
words: a side of `2 ^ 31` pixels or more is negative as a word, and a room of which so many tenths
are `2 ^ 31` pixels or more overflows when it is multiplied by them.

A line stands where it belongs just when neither happens (`Picture.gridLine_iff`). The product with
the index is the greatest of all numbers on the way, so it decides alone; and as it grows with the
index, the last line decides for all of them, and for the picture: if the sides are words, it is drawn
with its grid when the last line fits, and overflows when it does not
(`DrawingOptions.gridLine_and_keepsGrid_iff`).
-/

namespace CurvePlot

/-- Options that are collected in a list are all there just when each of them is. -/
theorem isSome_mapM_iff {α β : Type} {f : α → Option β} {xs : List α} :
    (xs.mapM f).isSome = true ↔ ∀ x ∈ xs, (f x).isSome = true := by
  induction xs with
  | nil => simp
  | cons x xs ih =>
    rw [List.forall_mem_cons, ← ih, List.mapM_cons]
    cases f x <;> cases xs.mapM f <;> simp

namespace Picture

/-- The pixels of a side that lie between the margins. -/
def gridRoom (margin side : UInt32) : ℤ :=
  side.toNat - 2 * margin.toNat

/-- A line of a grid stands at `place`, and the far margin at `far`: the margin and the side are
words, nothing overflows on the way to the two places, and the line stands between the margins. -/
structure GridLine (margin side : UInt32) (i : ℕ) (place far : Int32) : Prop where
  /-- The margin as a word. -/
  margin_eq : margin.toInt32.toInt = margin.toNat
  /-- The side as a word. -/
  side_eq : side.toInt32.toInt = side.toNat
  /-- The place of the line is computed without an overflow. -/
  computed : gridPlace? margin.toInt32 side.toInt32 i = some place
  /-- It is so many tenths of the room behind the margin. -/
  place_eq : place.toInt = margin.toNat + gridRoom margin side * i / divisions
  /-- The place of the far margin is computed without an overflow. -/
  computed_far : Word.sub? side.toInt32 margin.toInt32 = some far
  /-- It is the margin in front of the end of the side. -/
  far_eq : far.toInt = side.toNat - margin.toNat
  /-- The line is not in front of the near margin. -/
  margin_le : margin.toInt32 ≤ place
  /-- Nor is it behind the far one. -/
  le_far : place ≤ far

section Words

variable {margin side : UInt32} {i j : ℕ}

/-- As a word, a length is the number of its pixels if it is below `2 ^ 31`, and only then. -/
theorem toInt_toInt32_iff (length : UInt32) :
    length.toInt32.toInt = length.toNat ↔ length.toNat < 2 ^ 31 := by
  constructor
  · intro h
    have hlt := length.toInt32.toInt_lt
    omega
  · intro h
    have hword : length.toInt32 = Int32.ofNat length.toNat := by
      rw [← UInt32.toInt32_ofNat', UInt32.ofNat_toNat]
    rw [hword, Int32.toInt_ofNat_of_lt h]

/-- A place is there when the numbers on the way to it are words. -/
theorem gridPlace?_eq_some_iff {margin side place : Int32} :
    gridPlace? margin side i = some place ↔ ∃ margins inside product : Int32,
      margins.toInt = 2 * margin.toInt ∧ inside.toInt = side.toInt - margins.toInt ∧
        product.toInt = inside.toInt * (Int32.ofNat i).toInt ∧
          place.toInt = margin.toInt + (product / Int32.ofNat divisions).toInt := by
  have htwo : Int32.toInt 2 = 2 := rfl
  simp only [gridPlace?, Option.bind_eq_bind, Option.bind_eq_some_iff, Word.add?, Word.sub?,
    Word.mul?, Word.ofInt?_eq_some_iff, htwo]
  constructor
  · rintro ⟨margins, hmargins, inside, hinside, product, hproduct, hplace⟩
    exact ⟨margins, inside, product, hmargins, hinside, hproduct, hplace⟩
  · rintro ⟨margins, inside, product, hmargins, hinside, hproduct, hplace⟩
    exact ⟨margins, hmargins, inside, hinside, product, hproduct, hplace⟩

/-- Between margins that leave room there are pixels. -/
theorem gridRoom_pos (hroom : 2 * margin.toNat < side.toNat) : 0 < gridRoom margin side := by
  unfold gridRoom
  omega

/-- So many tenths of the room do not reach beyond it. -/
theorem part_bounds (hroom : 2 * margin.toNat < side.toNat) (hi : i < divisions) :
    0 ≤ gridRoom margin side * i / divisions ∧
      gridRoom margin side * i / divisions ≤ gridRoom margin side := by
  have hpositive := gridRoom_pos hroom
  have hproduct : gridRoom margin side * i ≤ gridRoom margin side * divisions :=
    mul_le_mul_of_nonneg_left (by omega) hpositive.le
  refine ⟨Int.ediv_nonneg (by positivity) (by omega), ?_⟩
  exact Int.ediv_le_of_le_mul (by decide) hproduct

/-- Between margins that leave room, a line stands where it belongs just when the side is below
`2 ^ 31` and the product with the index is. -/
theorem gridLine_iff (hroom : 2 * margin.toNat < side.toNat) (hi : i < divisions) :
    (∃ place far, GridLine margin side i place far) ↔
      side.toNat < 2 ^ 31 ∧ gridRoom margin side * i < 2 ^ 31 := by
  have hindex : (Int32.ofNat i).toInt = i :=
    Int32.toInt_ofNat_of_lt (hi.trans (by decide))
  have hroomEq : gridRoom margin side = side.toNat - 2 * margin.toNat := rfl
  obtain ⟨hnonneg, hle⟩ := part_bounds hroom hi
  have hpositive := gridRoom_pos hroom
  constructor
  · rintro ⟨place, far, h⟩
    obtain ⟨margins, inside, product, hmargins, hinside, hproduct, -⟩ :=
      gridPlace?_eq_some_iff.mp h.computed
    have hinsideEq : inside.toInt = gridRoom margin side := by
      rw [hinside, hmargins, h.side_eq, h.margin_eq, hroomEq]
    have hlt := product.toInt_lt
    rw [hproduct, hinsideEq, hindex] at hlt
    exact ⟨(toInt_toInt32_iff side).mp h.side_eq, hlt⟩
  · rintro ⟨hlt, hproductLt⟩
    have hside := (toInt_toInt32_iff side).mpr hlt
    have hmargin := (toInt_toInt32_iff margin).mpr (by omega)
    have hproductNonneg : 0 ≤ gridRoom margin side * i := by positivity
    -- Every number on the way is below the side or the product, and so it is a word.
    obtain ⟨margins, hmargins⟩ := Word.exists_toInt_eq (n := 2 * margin.toNat) (by omega) (by omega)
    obtain ⟨inside, hinside⟩ := Word.exists_toInt_eq (n := gridRoom margin side) (by omega) (by omega)
    obtain ⟨product, hproduct⟩ := Word.exists_toInt_eq (n := gridRoom margin side * i) (by omega)
      hproductLt
    obtain ⟨place, hplace⟩ := Word.exists_toInt_eq
      (n := margin.toNat + gridRoom margin side * i / divisions) (by omega) (by omega)
    obtain ⟨far, hfar⟩ := Word.exists_toInt_eq (n := side.toNat - margin.toNat) (by omega) (by omega)
    have hpart : (product / Int32.ofNat divisions).toInt =
        gridRoom margin side * i / divisions := by
      rw [Int32.toInt_div_of_ne_right _ _ (by decide), hproduct]
      exact Int.tdiv_eq_ediv_of_nonneg hproductNonneg
    have hcomputed : gridPlace? margin.toInt32 side.toInt32 i = some place := by
      refine gridPlace?_eq_some_iff.mpr ⟨margins, inside, product, ?_, ?_, ?_, ?_⟩
      · rw [hmargins, hmargin]
      · rw [hinside, hside, hmargins, hroomEq]
      · rw [hproduct, hinside, hindex]
      · rw [hplace, hmargin, hpart]
    have hcomputedFar : Word.sub? side.toInt32 margin.toInt32 = some far := by
      rw [Word.sub?, Word.ofInt?_eq_some_iff, hfar, hside, hmargin]
    refine ⟨place, far, hmargin, hside, hcomputed, hplace, hcomputedFar, hfar, ?_, ?_⟩
    · rw [Int32.le_iff_toInt_le, hmargin, hplace]
      omega
    · rw [Int32.le_iff_toInt_le, hplace, hfar]
      omega

/-- Of two lines that stand where they belong, the one with the greater index is behind. -/
theorem GridLine.place_le {place far other otherFar : Int32}
    (hi : GridLine margin side i place far) (hj : GridLine margin side j other otherFar)
    (hroom : 2 * margin.toNat < side.toNat) (h : i ≤ j) : place ≤ other := by
  have hproduct : gridRoom margin side * i ≤ gridRoom margin side * j :=
    mul_le_mul_of_nonneg_left (by omega) (gridRoom_pos hroom).le
  have hpart := Int.ediv_le_ediv (c := divisions) (by decide) hproduct
  rw [Int32.le_iff_toInt_le, hi.place_eq, hj.place_eq]
  omega

/-- With a side that is a word, a product that is none has no place. -/
theorem gridPlace?_eq_none (hroom : 2 * margin.toNat < side.toNat) (hi : i < divisions)
    (hside : side.toNat < 2 ^ 31) (hproduct : ¬gridRoom margin side * i < 2 ^ 31) :
    gridPlace? margin.toInt32 side.toInt32 i = none := by
  rw [Option.eq_none_iff_forall_ne_some]
  intro place hplace
  obtain ⟨margins, inside, product, hmargins, hinside, hword, -⟩ := gridPlace?_eq_some_iff.mp hplace
  have hindex : (Int32.ofNat i).toInt = i := Int32.toInt_ofNat_of_lt (hi.trans (by decide))
  have hinsideEq : inside.toInt = gridRoom margin side := by
    rw [hinside, hmargins, (toInt_toInt32_iff side).mpr hside,
      (toInt_toInt32_iff margin).mpr (by omega)]
    rfl
  rw [hinsideEq, hindex] at hword
  exact hproduct (hword ▸ product.toInt_lt)

end Words

/-- The lines of an index are there if all of their places are. -/
theorem isSome_gridLines?_iff {width height margin : Int32} {i : ℕ} :
    (gridLines? width height margin i).isSome = true ↔
      (gridPlace? margin width i).isSome = true ∧ (gridPlace? margin height i).isSome = true ∧
        (Word.sub? height margin).isSome = true ∧ (Word.sub? width margin).isSome = true := by
  unfold gridLines?
  cases gridPlace? margin width i <;> cases gridPlace? margin height i <;>
    cases Word.sub? height margin <;> cases Word.sub? width margin <;> simp

/-- A grid is there if the lines of every index are. -/
theorem isSome_gridShapes?_iff {width height margin : Int32} :
    (gridShapes? width height margin).isSome = true ↔
      ∀ i, 1 ≤ i → i < divisions → (gridLines? width height margin i).isSome = true := by
  rw [gridShapes?, Option.isSome_map, isSome_mapM_iff]
  constructor
  · intro h i hfirst hi
    have hline := h (i - 1) (List.mem_range.mpr (by omega))
    rwa [Nat.sub_add_cancel hfirst] at hline
  · intro h i hi
    have hlt := List.mem_range.mp hi
    exact h (i + 1) (by omega) (by omega)

/-- What is beneath the curves is there with a grid if the grid is. -/
theorem isSome_styleShapes?_iff {style : PictureStyle} (hgrid : style.grid = true)
    {width height margin : Int32} :
    (styleShapes? style width height margin).isSome = true ↔
      (gridShapes? width height margin).isSome = true := by
  -- The frame needs no place that the lines do not need.
  have hframe : (gridShapes? width height margin).isSome = true →
      (frame? width height margin).isSome = true := by
    intro h
    obtain ⟨-, -, hbottom, hright⟩ :=
      isSome_gridLines?_iff.mp (isSome_gridShapes?_iff.mp h 1 (by decide) (by decide))
    obtain ⟨bottom, hbottom⟩ := Option.isSome_iff_exists.mp hbottom
    obtain ⟨right, hright⟩ := Option.isSome_iff_exists.mp hright
    rw [frame?, hbottom, hright]
    rfl
  simp only [styleShapes?, hgrid, Bool.or_true, if_true]
  cases hshapes : gridShapes? width height margin with
  | none => simp
  | some shapes =>
    obtain ⟨frame, hsome⟩ := Option.isSome_iff_exists.mp (hframe (by rw [hshapes]; rfl))
    simp [hsome]

/-- On a usable area there is a picture if what is beneath the curves is there, and else an
overflow. -/
theorem ofGroups_eq {o : DrawingOptions} (h : o.canvas.fault? = none) (style : PictureStyle)
    (groups : List FamilyGroup) :
    ((styleShapes? style o.width.toInt32 o.height.toInt32 o.margin.toInt32).isSome = true →
      ∃ p, ofGroups o style groups = .ok p) ∧
    ((styleShapes? style o.width.toInt32 o.height.toInt32 o.margin.toInt32).isSome = false →
      ofGroups o style groups = .error .overflow) := by
  unfold ofGroups
  rw [h]
  dsimp only
  cases styleShapes? style o.width.toInt32 o.height.toInt32 o.margin.toInt32 <;> simp

end Picture

namespace DrawingOptions

open Picture

/-- All lines of a grid stand where they belong, one behind the other. -/
def KeepsGrid (o : DrawingOptions) : Prop :=
  ∀ side ∈ [o.width, o.height],
    (∀ i, 1 ≤ i → i < divisions → ∃ place far, GridLine o.margin side i place far) ∧
    ∀ i j place other, 1 ≤ i → i ≤ j → j < divisions →
      gridPlace? o.margin.toInt32 side.toInt32 i = some place →
        gridPlace? o.margin.toInt32 side.toInt32 j = some other → place ≤ other

/-- Whether both sides, and the room between the margins so many times, are below `2 ^ 31`. -/
def GridFits (o : DrawingOptions) (i : ℕ) : Prop :=
  ∀ side ∈ [o.width, o.height], side.toNat < 2 ^ 31 ∧ gridRoom o.margin side * i < 2 ^ 31

instance (o : DrawingOptions) (i : ℕ) : Decidable (o.GridFits i) :=
  List.decidableBAll _ _

section Fits

variable {o : DrawingOptions} {i : ℕ}

/-- A canvas without fault has room between the margins, in both directions. -/
theorem room_of_side (h : o.canvas.fault? = none) :
    ∀ side ∈ [o.width, o.height], 2 * o.margin.toNat < side.toNat := by
  obtain ⟨hwidth, hheight⟩ := room_of_fault? h
  simp [hwidth, hheight]

/-- What fits at the last index fits at every index. -/
theorem GridFits.of_last (h : o.canvas.fault? = none) (hfits : o.GridFits (divisions - 1))
    (hi : i < divisions) : o.GridFits i := by
  intro side hside
  obtain ⟨hlt, hlast⟩ := hfits side hside
  refine ⟨hlt, lt_of_le_of_lt ?_ hlast⟩
  exact mul_le_mul_of_nonneg_left (by omega) (gridRoom_pos (room_of_side h side hside)).le

/-- Where everything fits at the last index, the grid is there. -/
theorem isSome_gridShapes?_of_fits (h : o.canvas.fault? = none)
    (hfits : o.GridFits (divisions - 1)) :
    (gridShapes? o.width.toInt32 o.height.toInt32 o.margin.toInt32).isSome = true := by
  refine isSome_gridShapes?_iff.mpr fun i _ hi => isSome_gridLines?_iff.mpr ?_
  have hlines : ∀ side ∈ [o.width, o.height], ∃ place far, GridLine o.margin side i place far :=
    fun side hside =>
      (gridLine_iff (room_of_side h side hside) hi).mpr (hfits.of_last h hi side hside)
  obtain ⟨x, right, hx⟩ := hlines o.width (by simp)
  obtain ⟨y, bottom, hy⟩ := hlines o.height (by simp)
  rw [hx.computed, hy.computed, hx.computed_far, hy.computed_far]
  exact ⟨rfl, rfl, rfl, rfl⟩

/-- Where the sides are words and not everything fits at the last index, it is not. -/
theorem isSome_gridShapes?_of_not_fits (h : o.canvas.fault? = none)
    (hwidth : o.width.toNat < 2 ^ 31) (hheight : o.height.toNat < 2 ^ 31)
    (hfits : ¬o.GridFits (divisions - 1)) :
    (gridShapes? o.width.toInt32 o.height.toInt32 o.margin.toInt32).isSome = false := by
  rw [Bool.eq_false_iff]
  intro hsome
  obtain ⟨hx, hy, -, -⟩ := isSome_gridLines?_iff.mp
    (isSome_gridShapes?_iff.mp hsome (divisions - 1) (by decide) (by decide))
  refine hfits fun side hside => ?_
  have hroom := room_of_side h side hside
  by_contra hbeyond
  rcases List.mem_pair.mp hside with rfl | rfl
  · rw [gridPlace?_eq_none hroom (by decide) hwidth fun hlt => hbeyond ⟨hwidth, hlt⟩] at hx
    cases hx
  · rw [gridPlace?_eq_none hroom (by decide) hheight fun hlt => hbeyond ⟨hheight, hlt⟩] at hy
    cases hy

end Fits

/-- The lines of an index stand where they belong just when everything fits at this index, for all
options with an area to draw on. All lines do, one behind the other, just when it fits at the last.
Then there is a picture with a grid; and with sides below `2 ^ 31` there is none otherwise, for its
places overflow. -/
theorem gridLine_and_keepsGrid_iff {o : DrawingOptions} (h : o.canvas.fault? = none) :
    (∀ i, 1 ≤ i → i < divisions →
      ((∀ side ∈ [o.width, o.height], ∃ place far, GridLine o.margin side i place far) ↔
        o.GridFits i)) ∧
    (o.KeepsGrid ↔ o.GridFits (divisions - 1)) ∧
    ∀ (style : PictureStyle) (groups : List FamilyGroup), style.grid = true →
      (o.GridFits (divisions - 1) → ∃ p, ofGroups o style groups = .ok p) ∧
      (o.width.toNat < 2 ^ 31 → o.height.toNat < 2 ^ 31 → ¬o.GridFits (divisions - 1) →
        ofGroups o style groups = .error .overflow) := by
  have hline : ∀ i, i < divisions →
      ((∀ side ∈ [o.width, o.height], ∃ place far, GridLine o.margin side i place far) ↔
        o.GridFits i) :=
    fun i hi => forall₂_congr fun side hside => gridLine_iff (room_of_side h side hside) hi
  refine ⟨fun i _ hi => hline i hi, ⟨fun hkeeps => ?_, fun hfits side hside => ⟨fun i _ hi => ?_, ?_⟩⟩,
    fun style groups hgrid => ⟨fun hfits => ?_, fun hwidth hheight hfits => ?_⟩⟩
  · exact (hline _ (by decide)).mp fun side hside => (hkeeps side hside).1 _ (by decide) (by decide)
  · exact (hline i hi).mpr (hfits.of_last h hi) side hside
  · intro i j place other _ hle hj hplace hother
    obtain ⟨p, far, hp⟩ := (hline i (by omega)).mpr (hfits.of_last h (by omega)) side hside
    obtain ⟨q, otherFar, hq⟩ := (hline j hj).mpr (hfits.of_last h hj) side hside
    rw [hp.computed, Option.some.injEq] at hplace
    rw [hq.computed, Option.some.injEq] at hother
    subst hplace hother
    exact hp.place_le hq (room_of_side h side hside) hle
  · refine (ofGroups_eq h style groups).1 ?_
    exact (isSome_styleShapes?_iff hgrid).mpr (isSome_gridShapes?_of_fits h hfits)
  · refine (ofGroups_eq h style groups).2 ?_
    have hnone := isSome_gridShapes?_of_not_fits h hwidth hheight hfits
    rw [Bool.eq_false_iff, ne_eq, isSome_styleShapes?_iff hgrid, hnone]
    exact Bool.false_ne_true

/-- The standard picture keeps its grid, with its nine lines at multiples of 78 and 48 pixels from
the margin. -/
theorem gridLine_and_keepsGrid_iff_standard :
    standard.canvas.fault? = none ∧ standard.KeepsGrid ∧
      (∃ place far, GridLine 10 800 3 place far) ∧
      ∃ p, ofGroups standard ⟨true, true⟩ [] = .ok p := by
  have hfault : standard.canvas.fault? = none := by decide +kernel
  have hfits : standard.GridFits (divisions - 1) := by decide +kernel
  obtain ⟨hline, hall, hpicture⟩ := gridLine_and_keepsGrid_iff hfault
  exact ⟨hfault, hall.mpr hfits,
    (hline 3 (by decide) (by decide)).mpr (by decide +kernel) _ List.mem_cons_self,
    (hpicture ⟨true, true⟩ [] rfl).1 hfits⟩

/-- In a picture three hundred million pixels wide, the eighth line belongs at 239999994 pixels; but
eight times the room is no word, and there is no picture. -/
theorem not_keepsGrid_wide :
    let wide : DrawingOptions := ⟨300000000, 100, 10, .linear, .linear⟩
    wide.canvas.fault? = none ∧
      gridPlace? wide.margin.toInt32 wide.width.toInt32 8 = none ∧
      ofGroups wide ⟨true, false⟩ [] = .error .overflow ∧
      ¬wide.KeepsGrid := by
  intro wide
  have hplace : gridPlace? wide.margin.toInt32 wide.width.toInt32 8 = none := by decide +kernel
  refine ⟨by decide +kernel, hplace, by decide +kernel, fun hkeeps => ?_⟩
  obtain ⟨place, far, hline⟩ := (hkeeps wide.width List.mem_cons_self).1 8 (by decide) (by decide)
  rw [hline.computed] at hplace
  cases hplace

end DrawingOptions

end CurvePlot
