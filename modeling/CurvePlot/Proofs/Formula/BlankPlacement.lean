import CurvePlot.Proofs.Formula.KeyedExplicit

/-!
# Blanks in algebraic formulas

The key of a formula is looked for before the blanks are taken out, so where the blanks stand could
decide over the grammar. It does not if the part in front of the first colon holds an equals sign:
such a part is neither a key nor a word that could be one, wherever its blanks stand, and the
formula is read without any of them (`Shape.ofFormula_of_equals_mem`). Two spellings that differ in
their blanks alone are then read alike (`ReadingRules.read_respaced`).
-/

namespace CurvePlot

/-- An equals sign in front of the first colon stands there without the blanks too. -/
theorem Text.equals_mem_head_compact (text : List Char) :
    '=' ∈ (Text.cut ':' (Text.compact text)).1 ↔ '=' ∈ (Text.cut ':' text).1 := by
  rw [Text.cut_compact (by decide), Text.compact, List.mem_filter, and_iff_left]
  decide

/-- A formula with an equals sign in front of the first colon has no key, and is looked at without
its blanks. -/
theorem Shape.ofFormula_of_equals_mem {formula : List Char}
    (h : '=' ∈ (Text.cut ':' formula).1) :
    Shape.ofFormula formula = Shape.ofCompact (Text.compact formula) := by
  rcases hcut : Text.cut ':' (Text.trim formula) with ⟨head, _ | body⟩
  · rw [Shape.ofFormula_of_cut hcut, Text.compact_trim]
  · -- The key is taken from the trimmed formula, whose head holds the equals sign as well.
    have hhead : '=' ∈ head := by
      rw [← Text.equals_mem_head_compact, ← Text.compact_trim, Text.equals_mem_head_compact,
        hcut] at h
      exact h
    have hkey : '=' ∈ Text.trim (Text.lower head) :=
      Text.mem_trim (by decide) (List.mem_map.mpr ⟨'=', hhead, rfl⟩)
    obtain ⟨hfamily, hword⟩ := WrittenCurve.not_key_of_mem hkey
    simp only [Shape.ofFormula, hcut, hfamily, hword, Bool.false_eq_true, if_false,
      Text.compact_trim]

namespace ReadingRules

/-- Formulas of one shape are read as one curve over one domain, or refused for one fault. -/
theorem read_of_shape_eq (rules : ReadingRules) {f g : String}
    (h : Shape.ofFormula f.toList = Shape.ofFormula g.toList) :
    (∃ p q, rules.read f = .ok p ∧ rules.read g = .ok q ∧
      p.curve = q.curve ∧ p.domain = q.domain) ∨
    ∃ fault, rules.read f = .error ⟨fault, f⟩ ∧ rules.read g = .error ⟨fault, g⟩ := by
  simp only [read, h]
  cases rules.readShape (Shape.ofFormula g.toList) with
  | error fault => exact Or.inr ⟨fault, rfl, rfl⟩
  | ok read => exact Or.inl ⟨_, _, rfl, rfl, rfl, rfl⟩

/-- Where the blanks stand does not matter in a formula with an equals sign in front of its first
colon. Two such formulas with the same other characters in the same order are both read, as the same
curve over the same domain and with the same text of an expression, or both refused, for the same
kind of reason and with the same message. -/
theorem read_respaced (rules : ReadingRules) {f g : String}
    (hsame : Text.compact f.toList = Text.compact g.toList)
    (hequals : '=' ∈ (Text.cut ':' f.toList).1) :
    (∃ p q, rules.read f = .ok p ∧ rules.read g = .ok q ∧ p.curve = q.curve ∧
      p.domain = q.domain ∧ p.expressionText? = q.expressionText?) ∨
    ∃ e e', rules.read f = .error e ∧ rules.read g = .error e' ∧
      e.fault.kind = e'.fault.kind ∧ e.fault.message = e'.fault.message := by
  have hequals' : '=' ∈ (Text.cut ':' g.toList).1 := by
    rwa [← Text.equals_mem_head_compact, ← hsame, Text.equals_mem_head_compact]
  have hshape : Shape.ofFormula f.toList = Shape.ofFormula g.toList := by
    rw [Shape.ofFormula_of_equals_mem hequals, Shape.ofFormula_of_equals_mem hequals', hsame]
  rcases rules.read_of_shape_eq hshape with ⟨p, q, hp, hq, hcurve, hdomain⟩ | ⟨fault, hf, hg⟩
  · refine Or.inl ⟨p, q, hp, hq, hcurve, hdomain, ?_⟩
    rw [Plot.expressionText?, Plot.expressionText?, hcurve]
  · exact Or.inr ⟨_, _, hf, hg, rfl, rfl⟩

/-- Blanks stand before and behind the `y`, between digits, and in the range. -/
theorem read_respaced_line :
    ∃ p q, standard.read "y=2x+10:-5,5" = .ok p ∧ standard.read " y =2 x+ 1 0 : - 5,\t5 " = .ok q ∧
      p.curve = q.curve ∧ p.domain = q.domain ∧ p.expressionText? = q.expressionText? := by
  have hread : (standard.read "y=2x+10:-5,5").toOption.map Plot.family = some .linear := by
    decide +kernel
  rcases standard.read_respaced (f := "y=2x+10:-5,5") (g := " y =2 x+ 1 0 : - 5,\t5 ")
    (by decide +kernel) (by decide +kernel) with hboth | ⟨e, -, he, -⟩
  · exact hboth
  · rw [he] at hread
    cases hread

end ReadingRules

end CurvePlot
