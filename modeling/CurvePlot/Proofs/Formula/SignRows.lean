import CurvePlot.Proofs.Formula.SignParity
import Mathlib.Data.List.SplitBy
import Mathlib.Logic.Function.Iterate

/-!
# Rows of signs, counted

A text is cut into its rows of signs, each as long as it can be, and the single characters between
them (`Signs.CutsInto`). Normalizing replaces every row by a minus if the minus signs in it are odd
in number, else by a plus, and keeps the rest in order. The rounds of joining that lead there are
those until one changes nothing, and there are no more of them than characters
(`Signs.exists_iterate_collapse`).
-/

namespace CurvePlot.Signs

/-! ### Cutting a text into rows -/

/-- Whether a text is a row of signs. -/
def IsRow (part : List Char) : Prop :=
  part ≠ [] ∧ ∀ c ∈ part, isSign c = true

instance (part : List Char) : Decidable (IsRow part) :=
  decidable_of_iff (part ≠ [] ∧ part.all isSign = true) (by rw [IsRow, List.all_eq_true])

/-- Whether the parts of a text are its rows of signs, as long as they can be, and single other
characters. -/
structure CutsInto (text : List Char) (parts : List (List Char)) : Prop where
  /-- The parts make up the text. -/
  flatten_eq : parts.flatten = text
  /-- A part is a row of signs or one other character. -/
  part : ∀ part ∈ parts, IsRow part ∨ ∃ c, isSign c = false ∧ part = [c]
  /-- No row goes on in the next part. -/
  longest : parts.IsChain fun left right => ¬(IsRow left ∧ IsRow right)

/-- The sign that a row of signs says: a minus if the minus signs are odd in number, else a plus. -/
def saidBy (row : List Char) : Char :=
  if row.count '-' % 2 = 1 then '-' else '+'

/-- What becomes of a part: a row of signs says one sign, and another character stays. -/
def spoken (part : List Char) : List Char :=
  if IsRow part then [saidBy part] else part

/-- Characters of which each is a sign like its neighbours are a row of signs, or there is only one
of them. -/
theorem isRow_or_singleton {part : List Char} (hne : part ≠ [])
    (h : part.IsChain fun c d => (isSign c && isSign d) = true) :
    IsRow part ∨ ∃ c, isSign c = false ∧ part = [c] := by
  induction part with
  | nil => exact absurd rfl hne
  | cons c rest ih =>
    cases rest with
    | nil =>
      cases hc : isSign c with
      | true => exact Or.inl ⟨hne, by simpa using hc⟩
      | false => exact Or.inr ⟨c, hc, rfl⟩
    | cons d behind =>
      obtain ⟨hcd, hrest⟩ := List.isChain_cons_cons.mp h
      obtain ⟨hc, hd⟩ := Bool.and_eq_true_iff.mp hcd
      rcases ih (List.cons_ne_nil d behind) hrest with hrow | ⟨e, he, hone⟩
      · exact Or.inl ⟨hne, List.forall_mem_cons.mpr ⟨hc, hrow.2⟩⟩
      · obtain ⟨rfl, -⟩ := List.cons.inj hone
        rw [hd] at he
        cases he

/-- Every text is cut into its rows. -/
theorem exists_cutsInto (text : List Char) : ∃ parts, CutsInto text parts := by
  refine ⟨text.splitBy fun c d => isSign c && isSign d, List.flatten_splitBy _ _, fun part hpart =>
    isRow_or_singleton (List.ne_nil_of_mem_splitBy hpart) (List.isChain_of_mem_splitBy hpart), ?_⟩
  refine (List.isChain_getLast_head_splitBy _ text).imp ?_
  rintro left right ⟨hleft, hright, hbreak⟩ ⟨hsigns, hsigns'⟩
  rw [hsigns.2 _ (List.getLast_mem hleft), hsigns'.2 _ (List.head_mem hright)] at hbreak
  cases hbreak

/-! ### What a row says -/

/-- One sign says itself. -/
theorem saidBy_singleton {c : Char} (hc : isSign c = true) : saidBy [c] = c := by
  rcases isSign_iff.mp hc with rfl | rfl <;> rfl

/-- A sign in front of a row goes together with what the row says. -/
theorem merge_saidBy {c : Char} (hc : isSign c = true) (row : List Char) :
    merge c (saidBy row) = saidBy (c :: row) := by
  unfold saidBy merge
  rcases isSign_iff.mp hc with rfl | rfl
  · by_cases hodd : row.count '-' % 2 = 1 <;> simp [hodd]
  · by_cases hodd : row.count '-' % 2 = 1
    · have heven : ¬(row.count '-' + 1) % 2 = 1 := by omega
      simp [hodd, heven]
    · have hnext : (row.count '-' + 1) % 2 = 1 := by omega
      simp [hodd, hnext]

/-- A text that begins with no sign begins with none when its signs are joined. -/
theorem not_isSign_of_head_joined {text : List Char} (h : ∀ c ∈ text.head?, isSign c = false) :
    ∀ c ∈ (joined text).head?, isSign c = false := by
  cases text with
  | nil => exact h
  | cons d rest =>
    rw [joined_cons_of_not_isSign (h d rfl)]
    exact h

/-- A whole row in front of a text that begins with no sign is joined to the sign that it says. -/
theorem joined_row_append {row text : List Char} (hrow : IsRow row)
    (htext : ∀ c ∈ text.head?, isSign c = false) :
    joined (row ++ text) = saidBy row :: joined text := by
  obtain ⟨hne, hsigns⟩ := hrow
  induction row with
  | nil => exact absurd rfl hne
  | cons c rest ih =>
    obtain ⟨hc, hrest⟩ := List.forall_mem_cons.mp hsigns
    rw [List.cons_append, joined]
    cases rest with
    | nil =>
      rw [List.nil_append, saidBy_singleton hc, attach_eq_cons]
      exact fun d hd hboth => by simp [not_isSign_of_head_joined htext d hd] at hboth
    | cons d behind =>
      have hsaid : isSign (saidBy (d :: behind)) = true := by unfold saidBy; split <;> rfl
      rw [ih (List.cons_ne_nil d behind) hrest, attach, if_pos (by rw [hc, hsaid]; rfl),
        merge_saidBy hc]

/-- Joining the signs of a text says each of its rows. -/
theorem joined_eq_flatMap {text : List Char} {parts : List (List Char)}
    (h : CutsInto text parts) : joined text = parts.flatMap spoken := by
  obtain ⟨rfl, hpart, hlongest⟩ := h
  induction parts with
  | nil => rfl
  | cons part rest ih =>
    obtain ⟨hfirst, hothers⟩ := List.forall_mem_cons.mp hpart
    obtain ⟨hnext, hlater⟩ := List.isChain_cons.mp hlongest
    rw [List.flatten_cons, List.flatMap_cons, ← ih hothers hlater]
    rcases hfirst with hrow | ⟨c, hc, rfl⟩
    · -- The part behind a row is one other character.
      have hhead : ∀ c ∈ rest.flatten.head?, isSign c = false := by
        cases rest with
        | nil => simp
        | cons second later =>
          rcases hothers second List.mem_cons_self with hsecond | ⟨d, hd, rfl⟩
          · exact absurd ⟨hrow, hsecond⟩ (hnext second rfl)
          · simpa using hd
      rw [joined_row_append hrow hhead, spoken, if_pos hrow, List.singleton_append]
    · have hrow : ¬IsRow [c] := fun hrow => by
        rw [hrow.2 c (List.mem_singleton_self c)] at hc
        cases hc
      rw [List.singleton_append, joined_cons_of_not_isSign hc, spoken, if_neg hrow,
        List.singleton_append]

example : [['x'], ['-', '+', '-', '-'], ['y']].flatMap spoken =
    joined ['x', '-', '+', '-', '-', 'y'] := by decide

/-! ### The rounds of joining -/

/-- The end of joining is reached by rounds that each change something, and there are no more of
them than characters. -/
theorem exists_iterate_collapse (text : List Char) :
    ∃ n ≤ text.length, collapse text = round^[n] text ∧
      ∀ m < n, round (round^[m] text) ≠ round^[m] text := by
  fun_induction collapse text with
  | case1 text hshorter ih =>
    obtain ⟨n, hn, hend, hrounds⟩ := ih
    refine ⟨n + 1, by omega, hend, fun m hm => ?_⟩
    cases m with
    | zero =>
      intro hsame
      rw [Function.iterate_zero, id_eq] at hsame
      rw [hsame] at hshorter
      exact Nat.lt_irrefl _ hshorter
    | succ m =>
      rw [Function.iterate_succ_apply]
      exact hrounds m (by omega)
  | case2 text hsame => exact ⟨0, Nat.zero_le _, rfl, fun m hm => absurd hm (Nat.not_lt_zero m)⟩

/-- Normalizing a text ends after no more rounds of joining than it has characters, at the first one
that changes nothing. Whichever way the text without its blanks is cut into its rows of signs and
the characters between them, and it can be cut, every row becomes a minus if its minus signs are odd
in number, else a plus, and the other characters stay. So the outcome has neither a blank nor two
signs side by side, and normalizing it again changes nothing. -/
theorem normalize_rounds_and_rows (text : List Char) :
    (∃ n ≤ (Text.compact text).length, normalize text = round^[n] (Text.compact text) ∧
      round (normalize text) = normalize text ∧
      ∀ m < n, round (round^[m] (Text.compact text)) ≠ round^[m] (Text.compact text)) ∧
    (∃ parts, CutsInto (Text.compact text) parts) ∧
    (∀ parts, CutsInto (Text.compact text) parts → normalize text = parts.flatMap spoken) ∧
    (∀ c ∈ normalize text, Text.isBlank c = false) ∧
    (normalize text).IsChain (fun c d => ¬(isSign c = true ∧ isSign d = true)) ∧
    normalize (normalize text) = normalize text := by
  refine ⟨?_, exists_cutsInto _, fun parts hparts => ?_, fun c => not_isBlank_of_mem_normalize,
    settled_collapse _, normalize_normalize text⟩
  · obtain ⟨n, hn, hend, hrounds⟩ := exists_iterate_collapse (Text.compact text)
    exact ⟨n, hn, hend, round_collapse _, hrounds⟩
  · rw [normalize, collapse_eq_joined, joined_eq_flatMap hparts]

end CurvePlot.Signs
