import CurvePlot.Formula.Signs
import Mathlib.Data.Nat.Notation

/-!
# Joining signs leaves the rest alone

Joining rows of signs passes over every other character: one at the head or at the end of a text
stays there (`Signs.normalize_cons`, `Signs.normalize_append_singleton`), and the others are those
of the text (`Signs.mem_normalize_iff`).
-/

namespace CurvePlot.Signs

variable {a b one c : Char} {text : List Char}

/-! ### One rule -/

/-- A rule passes over a character at the head that it does not begin with. -/
theorem join_cons (h : c ≠ a) : join a b one (c :: text) = c :: join a b one text := by
  cases text with
  | nil => rfl
  | cons d rest =>
    have hc : ¬(c == a && d == b) = true := by simp [h]
    rw [join, if_neg hc]

/-- A rule passes over a character at the end that it does not end in. -/
theorem join_append_singleton (hb : c ≠ b) :
    join a b one (text ++ [c]) = join a b one text ++ [c] := by
  fun_induction join a b one text with
  | case1 d e rest h ih => rw [List.cons_append, List.cons_append, join, if_pos h, ih]; rfl
  | case2 d e rest h ih =>
    rw [List.cons_append, List.cons_append, join, if_neg h, ← List.cons_append, ih]
    rfl
  | case3 text hshort =>
    match text, hshort with
    | [], _ => rfl
    | [d], _ =>
      have hc : ¬(d == a && c == b) = true := by simp [hb]
      rw [List.singleton_append, join, if_neg hc]
      rfl
    | d :: e :: rest, hshort => exact absurd rfl (hshort d e rest)

/-- Besides its own signs, a rule keeps the characters of a text. -/
theorem mem_join_iff (ha : c ≠ a) (hb : c ≠ b) (hone : c ≠ one) :
    c ∈ join a b one text ↔ c ∈ text := by
  fun_induction join a b one text with
  | case1 d e rest h ih =>
    rw [Bool.and_eq_true, beq_iff_eq, beq_iff_eq] at h
    obtain ⟨rfl, rfl⟩ := h
    simp [ih, ha, hb, hone]
  | case2 d e rest h ih => rw [List.mem_cons, ih, ← List.mem_cons]
  | case3 text => exact Iff.rfl

/-! ### All rules -/

/-- Whether a character is no sign. -/
def Inert (c : Char) : Prop :=
  c ≠ '+' ∧ c ≠ '-'

instance : DecidablePred Inert := fun c =>
  inferInstanceAs (Decidable (c ≠ '+' ∧ c ≠ '-'))

/-- All rules pass over another character at the head. -/
theorem round_cons (h : Inert c) : round (c :: text) = c :: round text := by
  unfold round
  rw [join_cons h.1, join_cons h.2, join_cons h.2, join_cons h.1]

/-- All rules pass over another character at the end. -/
theorem round_append_singleton (h : Inert c) : round (text ++ [c]) = round text ++ [c] := by
  unfold round
  rw [join_append_singleton h.2, join_append_singleton h.1, join_append_singleton h.2,
    join_append_singleton h.1]

/-- All rules keep the other characters. -/
theorem mem_round_iff (h : Inert c) : c ∈ round text ↔ c ∈ text := by
  unfold round
  rw [mem_join_iff h.1 h.1 h.1, mem_join_iff h.2 h.2 h.1, mem_join_iff h.2 h.1 h.2,
    mem_join_iff h.1 h.2 h.2]

/-- Applying the rules as long as they apply passes over another character at the head. -/
theorem collapse_cons (h : Inert c) : collapse (c :: text) = c :: collapse text := by
  fun_induction collapse text with
  | case1 text hshorter ih =>
    have hlt : (round (c :: text)).length < (c :: text).length := by
      rw [round_cons h, List.length_cons, List.length_cons]
      omega
    rw [collapse, if_pos hlt, round_cons h, ih]
  | case2 text hsame =>
    have hge : ¬(round (c :: text)).length < (c :: text).length := by
      rw [round_cons h, List.length_cons, List.length_cons]
      omega
    rw [collapse, if_neg hge]

/-- Applying the rules as long as they apply passes over another character at the end. -/
theorem collapse_append_singleton (h : Inert c) : collapse (text ++ [c]) = collapse text ++ [c] := by
  fun_induction collapse text with
  | case1 text hshorter ih =>
    have hlt : (round (text ++ [c])).length < (text ++ [c]).length := by
      rw [round_append_singleton h, List.length_append, List.length_append]
      omega
    rw [collapse, if_pos hlt, round_append_singleton h, ih]
  | case2 text hsame =>
    have hge : ¬(round (text ++ [c])).length < (text ++ [c]).length := by
      rw [round_append_singleton h, List.length_append, List.length_append]
      omega
    rw [collapse, if_neg hge]

/-- Applying the rules as long as they apply keeps the other characters. -/
theorem mem_collapse_iff (h : Inert c) : c ∈ collapse text ↔ c ∈ text := by
  fun_induction collapse text with
  | case1 text hshorter ih => rw [ih, mem_round_iff h]
  | case2 text hsame => exact Iff.rfl

/-! ### Normal texts -/

/-- A character at the head that is neither blank nor a sign stays there. -/
theorem normalize_cons (h : Inert c) (hblank : Text.isBlank c = false) :
    normalize (c :: text) = c :: normalize text := by
  have hcompact : Text.compact (c :: text) = c :: Text.compact text := by
    simp [Text.compact, hblank]
  rw [normalize, hcompact, collapse_cons h, normalize]

/-- A character at the end that is neither blank nor a sign stays there. -/
theorem normalize_append_singleton (h : Inert c) (hblank : Text.isBlank c = false) :
    normalize (text ++ [c]) = normalize text ++ [c] := by
  have hcompact : Text.compact (text ++ [c]) = Text.compact text ++ [c] := by
    simp [Text.compact, hblank]
  rw [normalize, hcompact, collapse_append_singleton h, normalize]

/-- The characters that are neither blank nor signs stay. -/
theorem mem_normalize_iff (h : Inert c) (hblank : Text.isBlank c = false) :
    c ∈ normalize text ↔ c ∈ text := by
  rw [normalize, mem_collapse_iff h, Text.compact, List.mem_filter]
  simp [hblank]

/-- A normal text has no blank. -/
theorem not_isBlank_of_mem_normalize (h : c ∈ normalize text) : Text.isBlank c = false := by
  by_cases hinert : Inert c
  · rw [normalize, mem_collapse_iff hinert] at h
    exact Text.not_isBlank_of_mem_compact h
  · unfold Inert at hinert
    by_cases hplus : c = '+'
    · rw [hplus]; decide
    · have hminus : c = '-' := Decidable.byContradiction fun hminus => hinert ⟨hplus, hminus⟩
      rw [hminus]; decide

/-- Taking out the blanks first changes nothing. -/
theorem normalize_compact (text : List Char) : normalize (Text.compact text) = normalize text := by
  rw [normalize, normalize, Text.compact, Text.compact, List.filter_filter]
  simp

end CurvePlot.Signs
