import CurvePlot.Proofs.Expr.LexemeText

/-!
# Signs joined in a row of lexemes

Two signs side by side may be joined to one. In the tree this moves a minus between its places: in
front of an operand, in front of a product, and between the operands of a sum. Two expressions are
`Skeleton.Alike` if such moves lead from one to the other.

A row of lexemes in which signs are joined (`Lexeme.JoinsSigns`) is derived at the same level, and
the two expressions are alike (`Grammar.Derives.joinsSigns`). The new one may be nested one level
deeper, but no more (`Grammar.Nests.joinsSigns`): a sign in front of a power keeps the power out of
the chain of products behind it. Stars are never put in beside a sign, so it does not matter whether
signs are joined before or after (`Lexeme.JoinsSigns.withProducts`).
-/

namespace CurvePlot

/-! ### Moves of a minus -/

/-- Whether moves of minus signs lead from one expression to the other. -/
inductive Skeleton.Alike {ν : Type} : Skeleton ν → Skeleton ν → Prop
  /-- Nothing moved. -/
  | refl (s : Skeleton ν) : Alike s s
  /-- Moves can be taken back. -/
  | symm {s t : Skeleton ν} (h : Alike s t) : Alike t s
  /-- Moves one after the other. -/
  | trans {s t u : Skeleton ν} (hst : Alike s t) (htu : Alike t u) : Alike s u
  /-- Moves within the operands. -/
  | binary (o : Operator) {l l' r r' : Skeleton ν} (hl : Alike l l') (hr : Alike r r') :
    Alike (.binary o l r) (.binary o l' r')
  /-- Moves behind a minus. -/
  | negation {s t : Skeleton ν} (h : Alike s t) : Alike (.negation s) (.negation t)
  /-- Moves within the argument. -/
  | call (f : NamedFunction) {s t : Skeleton ν} (h : Alike s t) : Alike (.call f s) (.call f t)
  /-- Two minus signs are none. -/
  | negation_negation (s : Skeleton ν) : Alike (.negation (.negation s)) s
  /-- A summand with a minus is taken off. -/
  | add_negation (l r : Skeleton ν) : Alike (.binary .add l (.negation r)) (.binary .sub l r)
  /-- Taking off what has a minus is adding. -/
  | sub_negation (l r : Skeleton ν) : Alike (.binary .sub l (.negation r)) (.binary .add l r)
  /-- The minus of the first factor is that of the product. -/
  | mul_negation (l r : Skeleton ν) :
    Alike (.binary .mul (.negation l) r) (.negation (.binary .mul l r))
  /-- The minus of the dividend is that of the quotient. -/
  | div_negation (l r : Skeleton ν) :
    Alike (.binary .div (.negation l) r) (.negation (.binary .div l r))

namespace Lexeme

/-- Whether a lexeme is a plus or a minus. -/
def IsSign (l : Lexeme) : Prop :=
  l = plus ∨ l = minus

/-- Whether an operand may end with the lexeme. -/
def Closes (l : Lexeme) : Prop :=
  l.endsOperand = true ∨ l = bar

/-- The sign that two signs say together. -/
def merge (a b : Lexeme) : Lexeme :=
  if a = b then plus else minus

/-- An expression with a sign in front. -/
def signed {ν : Type} (a : Lexeme) (s : Skeleton ν) : Skeleton ν :=
  if a = minus then .negation s else s

/-- Whether the second row comes of the first by joining neighbouring signs. -/
inductive JoinsSigns : List Lexeme → List Lexeme → Prop
  /-- There is nothing to join. -/
  | nil : JoinsSigns [] []
  /-- A lexeme is kept. -/
  | keep (l : Lexeme) {ls ms : List Lexeme} (h : JoinsSigns ls ms) : JoinsSigns (l :: ls) (l :: ms)
  /-- A sign is joined to the sign behind it. -/
  | join {a b : Lexeme} {ls ms : List Lexeme} (ha : a.IsSign) (hb : b.IsSign)
    (h : JoinsSigns ls (b :: ms)) : JoinsSigns (a :: ls) (merge a b :: ms)

variable {a b l : Lexeme} {ls ms rs : List Lexeme}

/-- Two signs say a sign. -/
theorem isSign_merge (a b : Lexeme) : (merge a b).IsSign := by
  unfold merge
  split
  · exact Or.inl rfl
  · exact Or.inr rfl

/-- Two signs in front of an expression are the sign that they say. -/
theorem alike_signed_signed {ν : Type} (ha : a.IsSign) (hb : b.IsSign) (s : Skeleton ν) :
    (signed a (signed b s)).Alike (signed (merge a b) s) := by
  rcases ha with rfl | rfl <;> rcases hb with rfl | rfl
  · exact .refl _
  · exact .refl _
  · exact .refl _
  · exact .negation_negation s

/-- A sign in front of expressions that are alike. -/
theorem alike_signed {ν : Type} (a : Lexeme) {s t : Skeleton ν} (h : s.Alike t) :
    (signed a s).Alike (signed a t) := by
  unfold signed
  split
  · exact h.negation
  · exact h

/-- An operator and the sign in front of its second operand are the operator that both say. -/
theorem alike_sum {ν : Type} {o : Operator} (ho : o = .add ∨ o = .sub) (hb : b.IsSign)
    (l r : Skeleton ν) : ∃ o' : Operator, (o' = .add ∨ o' = .sub) ∧
      o'.lexeme = merge o.lexeme b ∧
      (Skeleton.binary o l (signed b r)).Alike (.binary o' l r) := by
  rcases ho with rfl | rfl <;> rcases hb with rfl | rfl
  · exact ⟨.add, Or.inl rfl, rfl, .refl _⟩
  · exact ⟨.sub, Or.inr rfl, rfl, .add_negation l r⟩
  · exact ⟨.sub, Or.inr rfl, rfl, .refl _⟩
  · exact ⟨.add, Or.inl rfl, rfl, .sub_negation l r⟩

/-- A sign in front of the first factor is in front of the product. -/
theorem alike_product {ν : Type} {o : Operator} (ho : o = .mul ∨ o = .div) (l r : Skeleton ν) :
    (Skeleton.binary o (signed b l) r).Alike (signed b (.binary o l r)) := by
  unfold signed
  split
  · rcases ho with rfl | rfl
    · exact .mul_negation l r
    · exact .div_negation l r
  · exact .refl _

/-! ### Joining -/

/-- Whatever is no sign stays where it is. -/
theorem JoinsSigns.of_cons (hl : ¬l.IsSign) (h : JoinsSigns (l :: ls) ms) :
    ∃ ns, ms = l :: ns ∧ JoinsSigns ls ns := by
  cases h with
  | keep _ h => exact ⟨_, rfl, h⟩
  | join ha _ _ => exact absurd ha hl

/-- It parts the row: signs are joined before it and behind it. -/
theorem JoinsSigns.of_append_cons (hl : ¬l.IsSign) (h : JoinsSigns (ls ++ l :: rs) ms) :
    ∃ ns os, ms = ns ++ l :: os ∧ JoinsSigns ls ns ∧ JoinsSigns rs os := by
  induction ls generalizing ms with
  | nil =>
    obtain ⟨os, rfl, hrs⟩ := h.of_cons hl
    exact ⟨[], os, rfl, .nil, hrs⟩
  | cons a ls ih =>
    cases h with
    | keep _ h =>
      obtain ⟨ns, os, rfl, hls, hrs⟩ := ih h
      exact ⟨a :: ns, os, rfl, .keep a hls, hrs⟩
    | @join _ b _ ms ha hb h =>
      obtain ⟨ns, os, heq, hls, hrs⟩ := ih h
      cases ns with
      | nil => exact absurd ((List.cons.inj heq).1 ▸ hb) hl
      | cons c ns =>
        obtain ⟨rfl, rfl⟩ := List.cons.inj heq
        exact ⟨merge a b :: ns, os, rfl, .join ha hb hls, hrs⟩

/-- Rows are joined apart before what is no sign. -/
theorem JoinsSigns.append_singleton (h : JoinsSigns ls ms) (l : Lexeme) :
    JoinsSigns (ls ++ [l]) (ms ++ [l]) := by
  induction h with
  | nil => exact .keep l .nil
  | keep a _ ih => exact .keep a ih
  | join ha hb _ ih => exact .join ha hb ih

/-- Signs are joined apart on the two sides of a place with no sign in front. -/
theorem JoinsSigns.of_append (hne : ls ≠ []) (hlast : ∀ l ∈ ls.getLast?, ¬l.IsSign)
    (h : JoinsSigns (ls ++ rs) ms) :
    ∃ ns os, ms = ns ++ os ∧ JoinsSigns ls ns ∧ JoinsSigns rs os := by
  obtain ⟨front, l, rfl⟩ := (List.eq_nil_or_concat' ls).resolve_left hne
  have hl : ¬l.IsSign := hlast l (by simp)
  rw [List.append_assoc, List.singleton_append] at h
  obtain ⟨ns, os, rfl, hfront, hrs⟩ := h.of_append_cons hl
  exact ⟨ns ++ [l], os, by simp, hfront.append_singleton l, hrs⟩

/-! ### Unwritten stars -/

/-- No star is put in behind what ends no operand. -/
theorem withProducts_cons_left (hl : l.endsOperand = false) (ls : List Lexeme) :
    Lexeme.withProducts (l :: ls) = l :: Lexeme.withProducts ls := by
  cases ls with
  | nil => rfl
  | cons r ls =>
    have hno : Token.impliesProduct l r = false := by simp [Token.impliesProduct, hl]
    rw [Lexeme.withProducts, if_neg (by simp [hno])]

/-- Nor is one put in before what begins no factor. -/
theorem withProducts_cons_right {r : Lexeme} (hr : r.beginsFactor = false) (l : Lexeme)
    (ls : List Lexeme) :
    Lexeme.withProducts (l :: r :: ls) = l :: Lexeme.withProducts (r :: ls) := by
  have hno : Token.impliesProduct l r = false := by simp [Token.impliesProduct, hr]
  rw [Lexeme.withProducts, if_neg (by simp [hno])]

/-- So where no factor begins, the stars on both sides are put in apart. -/
theorem withProducts_append (h : ∀ l ∈ ms.head?, l.beginsFactor = false) :
    Lexeme.withProducts (ls ++ ms) = Lexeme.withProducts ls ++ Lexeme.withProducts ms := by
  induction ls with
  | nil => rfl
  | cons l ls ih =>
    cases ls with
    | nil =>
      cases ms with
      | nil => rfl
      | cons r ms => exact withProducts_cons_right (h r rfl) l ms
    | cons r ls =>
      rw [List.cons_append] at ih
      rw [List.cons_append, List.cons_append, Lexeme.withProducts, Lexeme.withProducts, ih]
      split <;> rfl

/-- Beside a sign none is put in. -/
theorem IsSign.operandFree (ha : a.IsSign) : a.endsOperand = false ∧ a.beginsFactor = false := by
  rcases ha with rfl | rfl <;> exact ⟨rfl, rfl⟩

/-- Signs may be joined before or after the unwritten stars are put in. -/
theorem JoinsSigns.withProducts (h : JoinsSigns ls ms) :
    JoinsSigns (Lexeme.withProducts ls) (Lexeme.withProducts ms) := by
  induction h with
  | nil => exact .nil
  | @keep l ls ms h ih =>
    cases h with
    | nil => exact .keep l .nil
    | @keep k ls ms h =>
      simp only [Lexeme.withProducts]
      split
      · exact .keep l (.keep star ih)
      · exact .keep l ih
    | @join a b ls ms ha hb h =>
      rw [withProducts_cons_right ha.operandFree.2,
        withProducts_cons_right (isSign_merge a b).operandFree.2]
      exact .keep l ih
  | @join a b ls ms ha hb h ih =>
    rw [withProducts_cons_left hb.operandFree.1] at ih
    rw [withProducts_cons_left ha.operandFree.1,
      withProducts_cons_left (isSign_merge a b).operandFree.1]
    exact .join ha hb ih

end Lexeme

/-! ### Derivations -/

namespace Grammar

open Lexeme

variable {v : String} {level : Level} {ls ms : List Lexeme} {t : Skeleton Numeral}

/-- An expression ends with what may end an operand. -/
theorem Derives.closes_of_getLast? (h : Derives v level ls t) : ∀ l ∈ ls.getLast?, l.Closes := by
  have hclosed : ∀ (front : List Lexeme) (l : Lexeme), l.Closes →
      ∀ k ∈ (front ++ [l]).getLast?, k.Closes := by
    simp
  induction h with
  | number _ | var | constant _ _ _ => simp [Lexeme.Closes, Lexeme.endsOperand]
  | @call name _ ls _ _ _ _ _ => exact hclosed (.name name :: .opening :: ls) _ (Or.inl rfl)
  | @parentheses ls _ _ _ => exact hclosed (.opening :: ls) _ (Or.inl rfl)
  | @bars ls _ _ _ => exact hclosed (.bar :: ls) _ (Or.inr rfl)
  | ofAtom _ ih | ofPower _ ih | ofUnary _ ih | ofTerm _ ih => exact ih
  | power _ hr _ ihr | product _ _ hr _ ihr | sum _ _ hr _ ihr =>
    rwa [List.getLast?_append_cons, List.getLast?_cons_of_ne_nil hr.ne_nil]
  | minus h ih | plus h ih => rwa [List.getLast?_cons_of_ne_nil h.ne_nil]

/-- So it ends with no sign. -/
theorem Derives.last_not_isSign (h : Derives v level ls t) : ∀ l ∈ ls.getLast?, ¬l.IsSign := by
  intro l hl
  rcases h.closes_of_getLast? l hl with hcloses | rfl
  · rintro (rfl | rfl) <;> cases hcloses
  · simp [IsSign]

/-- No atom begins with a sign. -/
theorem Derives.head_not_isSign {a : Lexeme} (h : Derives v .atom (a :: ls) t) : ¬a.IsSign := by
  cases h <;> simp [IsSign]

/-- An operand with a sign in front is an operand. -/
theorem Derives.sign_cons {a : Lexeme} (ha : a.IsSign) (h : Derives v .unary ls t) :
    Derives v .unary (a :: ls) (signed a t) := by
  rcases ha with rfl | rfl
  · exact .plus h
  · exact .minus h

/-- Whether the row is an expression that is a chain of at most so many operators and nested at most
so deep. -/
def NestsWithin (v : String) (level : Level) (chain depth : ℕ) (ls : List Lexeme)
    (t : Skeleton Numeral) : Prop :=
  ∃ c d, c ≤ chain ∧ d ≤ depth ∧ Nests v level c d ls t

variable {chain depth : ℕ}

/-- Bounds may be raised. -/
theorem NestsWithin.mono {chain' depth' : ℕ} (h : NestsWithin v level chain depth ls t)
    (hchain : chain ≤ chain') (hdepth : depth ≤ depth') :
    NestsWithin v level chain' depth' ls t := by
  obtain ⟨c, d, hc, hd, hnests⟩ := h
  exact ⟨c, d, hc.trans hchain, hd.trans hdepth, hnests⟩

/-- An operation is within the bounds that its operands give it. -/
theorem NestsWithin.binary {o : Operator} {chain' depth' : ℕ} {rs : List Lexeme}
    {l r : Skeleton Numeral} (left : NestsWithin v (leftLevel o) chain depth ls l)
    (right : NestsWithin v (rightLevel o) chain' depth' rs r) :
    NestsWithin v (levelOf o) (chain + 1) (max depth (max (chain + 1) (depth' + 1)))
      (ls ++ o.lexeme :: rs) (.binary o l r) := by
  obtain ⟨c, d, hc, hd, hl⟩ := left
  obtain ⟨c', d', hc', hd', hr⟩ := right
  exact ⟨_, _, by omega, by omega, hl.binary hr⟩

/-- So is a sum or a difference. -/
theorem NestsWithin.sum {o : Operator} (ho : o = .add ∨ o = .sub) {chain' depth' : ℕ}
    {rs : List Lexeme} {l r : Skeleton Numeral} (left : NestsWithin v .expr chain depth ls l)
    (right : NestsWithin v .term chain' depth' rs r) :
    NestsWithin v .expr (chain + 1) (max depth (max (chain + 1) (depth' + 1)))
      (ls ++ o.lexeme :: rs) (.binary o l r) := by
  rcases ho with rfl | rfl
  · exact NestsWithin.binary (o := .add) left right
  · exact NestsWithin.binary (o := .sub) left right

/-- An operand with a sign in front is nested one level deeper, and no chain. -/
theorem NestsWithin.sign_cons {a : Lexeme} (ha : a.IsSign)
    (h : NestsWithin v .unary chain depth ls t) :
    NestsWithin v .unary 0 (depth + 1) (a :: ls) (signed a t) := by
  obtain ⟨c, d, -, hd, hnests⟩ := h
  rcases ha with rfl | rfl
  · exact ⟨0, d + 1, le_rfl, by omega, hnests.plus⟩
  · exact ⟨0, d + 1, le_rfl, by omega, hnests.minus⟩

/-- An atom is no chain, and an operand one of a single operator at most. -/
theorem Nests.chain_le_of_rank_le (h : Nests v level chain depth ls t) :
    (level.rank = 0 → chain = 0) ∧ (level.rank ≤ 2 → chain ≤ 1) := by
  induction h with
  | lift hle _ ih => exact ⟨fun h => ih.1 (by omega), fun h => ih.2 (by omega)⟩
  | @binary o chain _ _ _ _ _ _ _ _ _ ihl _ =>
    cases o with
    | pow => exact ⟨fun h => absurd h (by decide), fun _ => by have := ihl.1 rfl; omega⟩
    | add | sub | mul | div =>
      exact ⟨fun h => absurd h (by decide), fun h => absurd h (by decide)⟩
  | _ => exact ⟨fun _ => rfl, fun _ => Nat.zero_le 1⟩

/-- Below the sums, the sign in front of an expression is the sign of all of it. Without the sign a
power at the front joins the chain, which so may have one operator more. -/
theorem Nests.of_sign_cons {a : Lexeme} (ha : a.IsSign) (hlevel : level.rank ≤ 3)
    (h : Nests v level chain depth (a :: ls) t) :
    ∃ s, NestsWithin v level (chain + 1) (max depth (chain + 1)) ls s ∧
      t.Alike (signed a s) := by
  generalize hrow : a :: ls = row at h
  induction h generalizing ls with
  | number _ | var | constant _ _ _ | call _ _ _ _ | parentheses _ _ | bars _ _ =>
    rw [(List.cons.inj hrow).1] at ha
    simp [IsSign] at ha
  | lift hle _ ih =>
    obtain ⟨s, ⟨c, d, hc, hd, hs⟩, halike⟩ := ih (hle.trans hlevel) hrow
    exact ⟨s, ⟨c, d, hc, hd, hs.lift hle⟩, halike⟩
  | minus h _ | plus h _ =>
    obtain ⟨rfl, rfl⟩ := List.cons.inj hrow
    exact ⟨_, ⟨_, _, h.chain_le_of_rank_le.2 le_rfl, by omega, h⟩, .refl _⟩
  | @binary o chain depth chain' depth' ls' rs l r hl hr ihl _ =>
    obtain ⟨b, ls', rfl⟩ := List.exists_cons_of_ne_nil hl.derives.ne_nil
    rw [List.cons_append] at hrow
    obtain ⟨rfl, rfl⟩ := List.cons.inj hrow
    cases o with
    | add | sub => exact absurd hlevel (by decide)
    | pow => exact absurd ha hl.derives.head_not_isSign
    | mul | div =>
      obtain ⟨s, hs, halike⟩ := ihl (by decide) rfl
      exact ⟨_, (hs.binary ⟨_, _, le_rfl, le_rfl, hr⟩).mono le_rfl (by omega),
        (halike.binary _ (.refl r)).trans (alike_product (by simp) s r)⟩

/-- A sign in front of an operand is kept or goes into the sign that the operand begins with. -/
theorem joinsSigns_sign_cons {a : Lexeme} (ha : a.IsSign) (hchain : chain ≤ depth)
    (hoperand : ∀ {ms : List Lexeme}, JoinsSigns ls ms →
      ∃ s, NestsWithin v .unary chain (depth + 1) ms s ∧ t.Alike s)
    (hjoins : JoinsSigns (a :: ls) ms) :
    ∃ s, NestsWithin v .unary 0 (depth + 1 + 1) ms s ∧ (signed a t).Alike s := by
  cases hjoins with
  | keep _ hjoins =>
    obtain ⟨s, hs, halike⟩ := hoperand hjoins
    exact ⟨_, hs.sign_cons ha, alike_signed a halike⟩
  | @join _ b _ ms _ hb hjoins =>
    obtain ⟨s, ⟨c, d, hc, hd, hs⟩, halike⟩ := hoperand hjoins
    obtain ⟨u, hu, halikeu⟩ := hs.of_sign_cons hb (by decide)
    exact ⟨_, (hu.sign_cons (isSign_merge a b)).mono le_rfl (by omega),
      (alike_signed a (halike.trans halikeu)).trans (alike_signed_signed ha hb u)⟩

/-- A sign in front of the right operand of a sum is kept or goes into the operator. -/
theorem joinsSigns_sum {o : Operator} (hsum : o = .add ∨ o = .sub) {chain' depth' : ℕ}
    {rs : List Lexeme} {l r : Skeleton Numeral} (hl : Nests v .expr chain depth ls l)
    (hchain : chain' ≤ depth')
    (hleft : ∀ {ms : List Lexeme}, JoinsSigns ls ms →
      ∃ s, NestsWithin v .expr chain (depth + 1) ms s ∧ l.Alike s)
    (hright : ∀ {ms : List Lexeme}, JoinsSigns rs ms →
      ∃ s, NestsWithin v .term chain' (depth' + 1) ms s ∧ r.Alike s)
    (hjoins : JoinsSigns (ls ++ o.lexeme :: rs) ms) :
    ∃ s, NestsWithin v .expr (chain + 1) (max depth (max (chain + 1) (depth' + 1)) + 1) ms s ∧
      (Skeleton.binary o l r).Alike s := by
  obtain ⟨ns, os, rfl, hfront, hback⟩ :=
    hjoins.of_append hl.derives.ne_nil hl.derives.last_not_isSign
  obtain ⟨l', hl', halikel⟩ := hleft hfront
  cases hback with
  | keep _ hback =>
    obtain ⟨r', hr', haliker⟩ := hright hback
    exact ⟨_, (hl'.sum hsum hr').mono le_rfl (by omega), halikel.binary o haliker⟩
  | @join _ b _ ms ha hb hback =>
    obtain ⟨r', ⟨c, d, hc, hd, hr'⟩, haliker⟩ := hright hback
    obtain ⟨s, hs, halikes⟩ := hr'.of_sign_cons hb (by decide)
    obtain ⟨o', ho', hlexeme, halike⟩ := alike_sum hsum hb l' s
    rw [← hlexeme]
    exact ⟨_, (hl'.sum ho' hs).mono le_rfl (by omega),
      (halikel.binary o (haliker.trans halikes)).trans halike⟩

/-- Where signs are joined in a row, an expression of the same level is derived that differs by
moves of signs alone. It is nested one level deeper at most, where a sign went into the operator in
front of a power. -/
theorem Nests.joinsSigns (h : Nests v level chain depth ls t) (hjoins : JoinsSigns ls ms) :
    ∃ s, NestsWithin v level chain (depth + 1) ms s ∧ t.Alike s := by
  induction h generalizing ms with
  | number literal =>
    obtain ⟨ns, rfl, hnil⟩ := hjoins.of_cons (by simp [IsSign])
    cases hnil
    exact ⟨_, ⟨0, 0, le_rfl, by omega, .number literal⟩, .refl _⟩
  | var =>
    obtain ⟨ns, rfl, hnil⟩ := hjoins.of_cons (by simp [IsSign])
    cases hnil
    exact ⟨_, ⟨0, 0, le_rfl, by omega, .var⟩, .refl _⟩
  | constant hname hfunction hconstant =>
    obtain ⟨ns, rfl, hnil⟩ := hjoins.of_cons (by simp [IsSign])
    cases hnil
    exact ⟨_, ⟨0, 0, le_rfl, by omega, .constant hname hfunction hconstant⟩, .refl _⟩
  | call hname hfunction _ ih =>
    obtain ⟨ns, rfl, hbehind⟩ := hjoins.of_cons (by simp [IsSign])
    obtain ⟨ns, rfl, hinner⟩ := hbehind.of_cons (by simp [IsSign])
    obtain ⟨ns, os, rfl, hargument, hnil⟩ := hinner.of_append_cons (by simp [IsSign])
    cases hnil
    obtain ⟨s, ⟨c, d, -, hd, hs⟩, halike⟩ := ih hargument
    exact ⟨_, ⟨0, d + 1, le_rfl, by omega, .call hname hfunction hs⟩, halike.call _⟩
  | parentheses _ ih =>
    obtain ⟨ns, rfl, hbehind⟩ := hjoins.of_cons (by simp [IsSign])
    obtain ⟨ns, os, rfl, hinner, hnil⟩ := hbehind.of_append_cons (by simp [IsSign])
    cases hnil
    obtain ⟨s, ⟨c, d, -, hd, hs⟩, halike⟩ := ih hinner
    exact ⟨s, ⟨0, d + 1, le_rfl, by omega, hs.parentheses⟩, halike⟩
  | bars _ ih =>
    obtain ⟨ns, rfl, hbehind⟩ := hjoins.of_cons (by simp [IsSign])
    obtain ⟨ns, os, rfl, hinner, hnil⟩ := hbehind.of_append_cons (by simp [IsSign])
    cases hnil
    obtain ⟨s, ⟨c, d, -, hd, hs⟩, halike⟩ := ih hinner
    exact ⟨_, ⟨0, d + 1, le_rfl, by omega, hs.bars⟩, halike.call _⟩
  | lift hle _ ih =>
    obtain ⟨s, ⟨c, d, hc, hd, hs⟩, halike⟩ := ih hjoins
    exact ⟨s, ⟨c, d, hc, hd, hs.lift hle⟩, halike⟩
  | minus h ih => exact joinsSigns_sign_cons (Or.inr rfl) h.chain_le (fun h => ih h) hjoins
  | plus h ih => exact joinsSigns_sign_cons (Or.inl rfl) h.chain_le (fun h => ih h) hjoins
  | @binary o _ _ _ _ ls rs l r hl hr ihl ihr =>
    by_cases hsum : o = .add ∨ o = .sub
    · have hlevels : levelOf o = .expr ∧ leftLevel o = .expr ∧ rightLevel o = .term := by
        rcases hsum with rfl | rfl <;> exact ⟨rfl, rfl, rfl⟩
      rw [hlevels.2.1] at hl ihl
      rw [hlevels.2.2] at hr ihr
      rw [hlevels.1]
      exact joinsSigns_sum hsum hl hr.chain_le (fun h => ihl h) (fun h => ihr h) hjoins
    · obtain ⟨ns, os, rfl, hleft, hright⟩ :=
        hjoins.of_append_cons (by cases o <;> simp_all [IsSign, Operator.lexeme])
      obtain ⟨l', hl', halikel⟩ := ihl hleft
      obtain ⟨r', hr', haliker⟩ := ihr hright
      exact ⟨_, (hl'.binary hr').mono le_rfl (by omega), halikel.binary _ haliker⟩

/-- So it is for expressions of any depth. -/
theorem Derives.joinsSigns (h : Derives v level ls t) (hjoins : JoinsSigns ls ms) :
    ∃ s, Derives v level ms s ∧ t.Alike s := by
  obtain ⟨chain, depth, hnests⟩ := h.exists_nests
  obtain ⟨s, ⟨_, _, -, -, hs⟩, halike⟩ := hnests.joinsSigns hjoins
  exact ⟨s, hs.derives, halike⟩

end Grammar

end CurvePlot
