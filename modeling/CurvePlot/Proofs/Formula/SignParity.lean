import CurvePlot.Proofs.Formula.SignRuns
import Mathlib.Data.List.Chain

/-!
# A row of signs says its parity

The rules that join signs are applied in rounds, but what they come to can be said at once: every
row of signs is replaced by a minus if an odd number of minus signs stands in it, else by a plus
(`Signs.collapse_eq_joined`). A text in which no sign stands beside a sign is left alone, and such a
text in front of another, not ending in a sign, keeps the two apart (`Signs.joined_append`).
-/

namespace CurvePlot.Signs

/-- Whether a character is a sign. -/
def isSign (c : Char) : Bool :=
  c == '+' || c == '-'

/-- The sign that two signs say together. -/
def merge (a b : Char) : Char :=
  if a == b then '+' else '-'

/-- A character in front of a text, one with the sign that the text begins with. -/
def attach (c : Char) : List Char → List Char
  | [] => [c]
  | d :: rest => if isSign c && isSign d then merge c d :: rest else c :: d :: rest

/-- The text with every row of signs replaced by the sign that it says. -/
def joined : List Char → List Char
  | [] => []
  | c :: rest => attach c (joined rest)

/-- A character in front of a text stays apart from it, unless two signs meet. -/
theorem attach_eq_cons {c : Char} {text : List Char}
    (h : ∀ d ∈ text.head?, ¬(isSign c = true ∧ isSign d = true)) : attach c text = c :: text := by
  cases text with
  | nil => rfl
  | cons d rest =>
    have hcd := h d rfl
    rw [← Bool.and_eq_true] at hcd
    rw [attach, if_neg hcd]

/-- A character that is no sign stays in front. -/
theorem joined_cons_of_not_isSign {c : Char} (hc : isSign c = false) (rest : List Char) :
    joined (c :: rest) = c :: joined rest := by
  rw [joined, attach_eq_cons]
  simp [hc]

/-- Signs are the plus and the minus. -/
theorem isSign_iff {c : Char} : isSign c = true ↔ c = '+' ∨ c = '-' := by
  simp [isSign]

/-- Two signs say a sign. -/
theorem isSign_merge (a b : Char) : isSign (merge a b) = true := by
  unfold merge
  split <;> rfl

/-- Three signs say the same in either grouping. -/
theorem merge_merge {a b d : Char} (ha : isSign a = true) (hb : isSign b = true)
    (hd : isSign d = true) : merge a (merge b d) = merge (merge a b) d := by
  rw [isSign_iff] at ha hb hd
  rcases ha with rfl | rfl <;> rcases hb with rfl | rfl <;> rcases hd with rfl | rfl <;> rfl

/-- Two signs in front of a text are one sign in front of it. -/
theorem attach_attach {a b : Char} (ha : isSign a = true) (hb : isSign b = true)
    (text : List Char) : attach a (attach b text) = attach (merge a b) text := by
  cases text with
  | nil => simp [attach, ha, hb]
  | cons d rest =>
    by_cases hd : isSign d = true
    · simp [attach, ha, hb, hd, isSign_merge, merge_merge ha hb hd]
    · simp [attach, ha, hb, hd]

/-- A rule does not change what the signs say. -/
theorem joined_join {a b : Char} (ha : isSign a = true) (hb : isSign b = true)
    (text : List Char) : joined (join a b (merge a b) text) = joined text := by
  fun_induction join a b (merge a b) text with
  | case1 c d rest h ih =>
    rw [Bool.and_eq_true, beq_iff_eq, beq_iff_eq] at h
    obtain ⟨rfl, rfl⟩ := h
    rw [joined, ih, joined, joined, attach_attach ha hb]
  | case2 c d rest h ih => rw [joined, ih, joined.eq_2 c]
  | case3 text => rfl

/-- Neither do all rules together. -/
theorem joined_round (text : List Char) : joined (round text) = joined text := by
  unfold round
  have hpp := joined_join (a := '+') (b := '+') rfl rfl
  have hmm := joined_join (a := '-') (b := '-') rfl rfl
  have hmp := joined_join (a := '-') (b := '+') rfl rfl
  have hpm := joined_join (a := '+') (b := '-') rfl rfl
  exact (hpp _).trans ((hmm _).trans ((hmp _).trans (hpm _)))

/-- Whether no sign stands beside a sign. -/
def Settled (text : List Char) : Prop :=
  text.IsChain fun c d => ¬(isSign c = true ∧ isSign d = true)

/-- A text without signs is settled. -/
theorem settled_of_not_isSign {text : List Char} (h : ∀ c ∈ text, isSign c = false) :
    Settled text := by
  rw [Settled, List.isChain_iff_forall_rel_of_append_cons_cons]
  intro c d u v htext
  have hc : isSign c = false := h c (by simp [htext])
  simp [hc]

/-- Two settled texts make a settled one where no two signs meet. -/
theorem Settled.append {u v : List Char} (hu : Settled u) (hv : Settled v)
    (h : (∀ c ∈ u.getLast?, isSign c = false) ∨ ∀ c ∈ v.head?, isSign c = false) :
    Settled (u ++ v) := by
  rw [Settled, List.isChain_append]
  refine ⟨hu, hv, fun c hc d hd => ?_⟩
  rintro ⟨hcsign, hdsign⟩
  rcases h with h | h
  · rw [h c hc] at hcsign
    cases hcsign
  · rw [h d hd] at hdsign
    cases hdsign

/-- A rule that changes nothing finds nothing. -/
theorem isChain_of_join_eq {a b one : Char} {text : List Char} (h : join a b one text = text) :
    text.IsChain fun c d => ¬(c = a ∧ d = b) := by
  fun_induction join a b one text with
  | case1 c d rest hc ih =>
    have hlength := congrArg List.length h
    have := length_join_le a b one rest
    simp at hlength
    omega
  | case2 c d rest hc ih =>
    rw [List.isChain_cons_cons]
    refine ⟨by simpa using hc, ih (List.cons.inj h).2⟩
  | case3 text hshort =>
    cases text with
    | nil => exact .nil
    | cons c text =>
      cases text with
      | nil => exact .singleton c
      | cons d rest => exact absurd rfl (hshort c d rest)

/-- What all rules together do not change, no rule changes. -/
theorem join_eq_of_round_eq {text : List Char} (h : round text = text) {a b : Char}
    (ha : isSign a = true) (hb : isSign b = true) : join a b (merge a b) text = text := by
  obtain ⟨hpm, hmp, hmm, hpp⟩ := join_eq_of_length_round (by rw [h])
  rw [isSign_iff] at ha hb
  rcases ha with rfl | rfl <;> rcases hb with rfl | rfl <;> assumption

/-- The end of joining has no two signs side by side. -/
theorem settled_collapse (text : List Char) : Settled (collapse text) := by
  rw [Settled, List.isChain_iff_forall_rel_of_append_cons_cons]
  intro c d u v htext
  rintro ⟨hc, hd⟩
  have hchain := isChain_of_join_eq (join_eq_of_round_eq (round_collapse text) hc hd)
  exact List.isChain_iff_forall_rel_of_append_cons_cons.mp hchain htext ⟨rfl, rfl⟩

/-- Settled texts say what they say. -/
theorem joined_of_settled {text : List Char} (h : Settled text) : joined text = text := by
  induction text with
  | nil => rfl
  | cons c rest ih =>
    rw [Settled, List.isChain_cons] at h
    rw [joined, ih h.2, attach_eq_cons h.1]

/-- Joining replaces every row of signs by the sign that it says. -/
theorem collapse_eq_joined (text : List Char) : collapse text = joined text := by
  have hsame : joined (collapse text) = joined text := by
    fun_induction collapse text with
    | case1 text h ih => rw [ih, joined_round]
    | case2 text h => rfl
  rw [← hsame, joined_of_settled (settled_collapse text)]

/-- Rows of signs are joined apart on the two sides of a place where no two signs meet. -/
theorem joined_append {u v : List Char} (hu : Settled u)
    (hlast : ∀ c ∈ u.getLast?, isSign c = false) : joined (u ++ v) = u ++ joined v := by
  induction u with
  | nil => rfl
  | cons c rest ih =>
    rw [Settled, List.isChain_cons] at hu
    rw [List.cons_append]
    cases rest with
    | nil => exact joined_cons_of_not_isSign (hlast c rfl) v
    | cons d behind =>
      rw [joined, ih hu.2 (by simpa using hlast)]
      exact attach_eq_cons hu.1

/-- A sign goes together with the sign that follows it. -/
theorem joined_sign_sign {a b : Char} (ha : isSign a = true) (hb : isSign b = true)
    (text : List Char) : joined (a :: b :: text) = joined (merge a b :: text) :=
  attach_attach ha hb (joined text)

/-- Normalizing a text without blanks is joining its signs. -/
theorem normalize_of_not_blank {text : List Char} (h : ∀ c ∈ text, Text.isBlank c = false) :
    normalize text = joined text := by
  have hcompact : Text.compact text = text := by
    rw [Text.compact, List.filter_eq_self]
    simpa using h
  rw [normalize, hcompact, collapse_eq_joined]

/-- A normal text is left as it is. -/
theorem normalize_normalize (text : List Char) : normalize (normalize text) = normalize text := by
  rw [normalize_of_not_blank fun c hc => not_isBlank_of_mem_normalize hc]
  exact joined_of_settled (settled_collapse _)

end CurvePlot.Signs
