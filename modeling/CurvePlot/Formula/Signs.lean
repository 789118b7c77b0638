import CurvePlot.Text.Blank

/-!
# Runs of signs

A row of plus and minus signs says the same as one sign. The four rules that join two neighbouring
signs are applied to the whole text, in turn and again, until none applies. Every rule that applies
shortens the text, so this ends.
-/

namespace CurvePlot.Signs

/-- Every occurrence of the two characters `a`, `b` replaced by one character, from left to right. -/
def join (a b one : Char) : List Char → List Char
  | c :: d :: rest =>
    if c == a && d == b then one :: join a b one rest else c :: join a b one (d :: rest)
  | text => text

/-- All four rules, each applied once to the whole text. -/
def round (text : List Char) : List Char :=
  join '+' '+' '+' (join '-' '-' '+' (join '-' '+' '-' (join '+' '-' '-' text)))

/-- A rule does not lengthen a text. -/
theorem length_join_le (a b one : Char) (text : List Char) :
    (join a b one text).length ≤ text.length := by
  fun_induction join a b one text with
  | case1 c d rest h ih => simp; omega
  | case2 c d rest h ih => simp at ih ⊢; omega
  | case3 text => exact Nat.le_refl _

/-- A rule that keeps the length changes nothing. -/
theorem join_eq_of_length {a b one : Char} {text : List Char}
    (h : (join a b one text).length = text.length) : join a b one text = text := by
  fun_induction join a b one text with
  | case1 c d rest hc ih =>
    have := length_join_le a b one rest
    simp at h; omega
  | case2 c d rest hc ih => simp at h ih ⊢; exact ih h
  | case3 text => rfl

/-- Where all rules together do not shorten a text, no rule changes it. -/
theorem join_eq_of_length_round {text : List Char} (h : text.length ≤ (round text).length) :
    join '+' '-' '-' text = text ∧ join '-' '+' '-' text = text ∧
      join '-' '-' '+' text = text ∧ join '+' '+' '+' text = text := by
  have h1 := length_join_le '+' '-' '-' text
  have h2 := length_join_le '-' '+' '-' (join '+' '-' '-' text)
  have h3 := length_join_le '-' '-' '+' (join '-' '+' '-' (join '+' '-' '-' text))
  have h4 := length_join_le '+' '+' '+'
    (join '-' '-' '+' (join '-' '+' '-' (join '+' '-' '-' text)))
  rw [round] at h
  have hpm : join '+' '-' '-' text = text := join_eq_of_length (by omega)
  rw [hpm] at h h2 h3 h4
  have hmp : join '-' '+' '-' text = text := join_eq_of_length (by omega)
  rw [hmp] at h h3 h4
  have hmm : join '-' '-' '+' text = text := join_eq_of_length (by omega)
  rw [hmm] at h h4
  exact ⟨hpm, hmp, hmm, join_eq_of_length (by omega)⟩

/-- The text with every row of signs joined to one sign. -/
def collapse (text : List Char) : List Char :=
  if (round text).length < text.length then collapse (round text) else text
termination_by text.length

/-- The text without blanks and with every row of signs joined to one sign. -/
def normalize (text : List Char) : List Char :=
  collapse (Text.compact text)

/-- No rule applies to what is left. -/
theorem round_collapse (text : List Char) : round (collapse text) = collapse text := by
  fun_induction collapse text with
  | case1 text h ih => exact ih
  | case2 text h =>
    obtain ⟨hpm, hmp, hmm, hpp⟩ := join_eq_of_length_round (Nat.le_of_not_lt h)
    rw [round, hpm, hmp, hmm, hpp]

end CurvePlot.Signs
