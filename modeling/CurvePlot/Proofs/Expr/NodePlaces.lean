import CurvePlot.Proofs.Expr.StrictEvaluation
import CurvePlot.Proofs.Expr.TokenOrder

/-!
# Where nodes stand

The reader goes through the tokens of a source from left to right, and these stand in order. A tree
that it has read begins at the place where the reading began, or behind it, and the tokens that are
left stand behind the end of the tree (`Expr.ReadFrom`). This is what every step of the reader
keeps, together with the places of all nodes read so far, and every refusal stays in the source
(`Expr.locates_read`).

So the nodes of an accepted source are nested, the operands of an operation lie side by side in its
stretch, and the leaves are spelt by theirs; and a refused source is refused for a stretch of its
own, if for any (`Expression.ofText_places`).
-/

namespace CurvePlot

namespace Span

/-- Whether the outer stretch covers the inner one. -/
structure Covers (outer inner : Span) : Prop where
  /-- The outer one does not start later. -/
  start_le : outer.start ≤ inner.start
  /-- It does not end earlier. -/
  stop_le : inner.stop ≤ outer.stop

/-- What covers a stretch covers all that this one covers. -/
theorem Covers.trans {a b c : Span} (hab : a.Covers b) (hbc : b.Covers c) : a.Covers c :=
  ⟨Nat.le_trans hab.start_le hbc.start_le, Nat.le_trans hbc.stop_le hab.stop_le⟩

/-- A hull covers its first part. -/
theorem covers_hull_left (a b : Span) : (a.hull b).Covers a :=
  ⟨hull_start_le_left a b, Nat.le_max_left _ _⟩

/-- And its second part. -/
theorem covers_hull_right (a b : Span) : (a.hull b).Covers b :=
  ⟨Nat.min_le_right _ _, right_stop_le_hull a b⟩

/-- The hull of two stretches in order goes from the start of the one to the end of the other. -/
theorem hull_eq_of_le {a b : Span} (hstart : a.start ≤ b.start) (hstop : a.stop ≤ b.stop) :
    a.hull b = ⟨a.start, b.stop⟩ := by
  rw [hull, Nat.min_eq_left hstart, Nat.max_eq_right hstop]

/-- The hull of stretches in a source lies there too. -/
theorem Inside.hull {a b : Span} {n : ℕ} (ha : a.Inside n) (hb : b.Inside n) :
    (a.hull b).Inside n :=
  ⟨Nat.le_trans (hull_start_le_left a b) (Nat.le_trans ha.start_le_stop (Nat.le_max_left _ _)),
    Nat.max_le.mpr ⟨ha.stop_le, hb.stop_le⟩⟩

end Span

/-! ### Nodes -/

namespace Expr

/-- The operands of a node, from left to right. -/
def operands {ν : Type} : Expr ν → List (Expr ν)
  | binary _ left right _ => [left, right]
  | negation operand _ => [operand]
  | call _ argument _ => [argument]
  | _ => []

/-- The nodes without operands, from left to right. -/
def leaves {ν : Type} : Expr ν → List (Expr ν)
  | binary _ left right _ => left.leaves ++ right.leaves
  | negation operand _ => operand.leaves
  | call _ argument _ => argument.leaves
  | leaf => [leaf]

/-- The leaves are the nodes without operands, in the same order. -/
theorem leaves_eq_filter {ν : Type} (e : Expr ν) :
    e.leaves = e.nodes.filter fun n => n.operands.isEmpty := by
  induction e with
  | number _ _ | var _ | constant _ _ => rfl
  | binary operator left right span ihl ihr =>
    rw [leaves, ihl, ihr, nodes, List.filter_append, List.filter_append, List.filter_singleton]
    simp [operands]
  | negation operand span ih | call function operand span ih =>
    rw [leaves, ih, nodes, List.filter_append, List.filter_singleton]
    simp [operands]

/-- A leaf is its only node. -/
theorem nodes_eq_singleton {ν : Type} {e : Expr ν} (h : e.operands = []) : e.nodes = [e] := by
  cases e with
  | number _ _ | var _ | constant _ _ => rfl
  | binary _ _ _ _ | negation _ _ | call _ _ _ => cases h

/-- Whether a leaf is spelt by its stretch: a number is a literal of its value there, and the double
that is read from the stretch is the nearest one to it; the variable and the constants are their
names. -/
def SpeltIn (source : List Char) : Expr Numeral → Prop
  | number value span => (∃ literal : Literal, (Lexeme.number literal).Writes (span.text source) ∧
      literal.numeral = value) ∧ Double.read? (span.text source) = some value.toFloat
  | var span => span.text source = variableName.toList
  | constant name span => span.text source = name.name.toList
  | _ => False

/-- Whether a node stands in the source as it should. -/
structure StandsIn (source : List Char) (e : Expr Numeral) : Prop where
  /-- It stands in the source. -/
  inside : e.span.Inside source.length
  /-- It covers its operands. -/
  covers : ∀ operand ∈ e.operands, e.span.Covers operand.span
  /-- Two operands stand side by side, and the node is no wider than both. -/
  sides : ∀ operator left right span, e = binary operator left right span →
    left.span.stop ≤ right.span.start ∧ span = left.span.hull right.span
  /-- A leaf is spelt by its stretch, which is not empty. -/
  leaf : e.operands = [] → e.span.start < e.span.stop ∧ e.SpeltIn source

/-- Whether all nodes stand in the source as they should. -/
def Placed (source : List Char) (e : Expr Numeral) : Prop :=
  ∀ n ∈ e.nodes, n.StandsIn source

variable {source : List Char} {e : Expr Numeral}

namespace Placed

/-- The root does. -/
theorem root (h : e.Placed source) : e.StandsIn source :=
  h e e.self_mem_nodes

/-- A leaf is placed if it is spelt where a written token stands. -/
theorem ofLeaf {token : Token} (hwritten : token.Written source) (hoperands : e.operands = [])
    (hspan : e.span = token.span) (hspelt : e.SpeltIn source) : e.Placed source := by
  intro n hn
  obtain rfl : n = e := by simpa [nodes_eq_singleton hoperands] using hn
  refine ⟨?_, by simp [hoperands], ?_, fun _ => ⟨hspan ▸ hwritten.start_lt_stop, hspelt⟩⟩
  · rw [hspan]
    exact ⟨hwritten.start_lt_stop.le, hwritten.stop_le⟩
  · rintro operator left right span rfl
    cases hoperands

/-- A node around one operand is placed if it covers it. -/
theorem around (h : e.Placed source) {outer : Expr Numeral}
    (hnodes : outer.nodes = e.nodes ++ [outer]) (hoperands : outer.operands = [e])
    (hinside : outer.span.Inside source.length) (hcovers : outer.span.Covers e.span) :
    outer.Placed source := by
  intro n hn
  rw [hnodes, List.mem_append, List.mem_singleton] at hn
  rcases hn with hn | rfl
  · exact h n hn
  · refine ⟨hinside, by simpa [hoperands] using hcovers, ?_, by simp [hoperands]⟩
    rintro operator left right span rfl
    cases hoperands

/-- An operation on operands side by side is placed. -/
theorem binary {left right : Expr Numeral} (hleft : left.Placed source)
    (hright : right.Placed source) (hsides : left.span.stop ≤ right.span.start)
    (operator : Operator) :
    (Expr.binary operator left right (left.span.hull right.span)).Placed source := by
  intro n hn
  simp only [nodes, List.mem_append, List.mem_singleton] at hn
  rcases hn with hn | hn | rfl
  · exact hleft n hn
  · exact hright n hn
  · refine ⟨hleft.root.inside.hull hright.root.inside, ?_, ?_, by simp [operands]⟩
    · simp only [operands, List.mem_cons, List.not_mem_nil, or_false, forall_eq_or_imp, forall_eq]
      exact ⟨Span.covers_hull_left _ _, Span.covers_hull_right _ _⟩
    · rintro _ _ _ _ ⟨⟩
      exact ⟨hsides, rfl⟩

/-- The leaves of a placed tree stand in its stretch. -/
theorem covers_leaf (h : e.Placed source) : ∀ leaf ∈ e.leaves, e.span.Covers leaf.span := by
  have hroot := h.root.covers
  induction e with
  | number _ _ | var _ | constant _ _ =>
    intro leaf hleaf
    obtain rfl := List.mem_singleton.mp hleaf
    exact ⟨Nat.le_refl _, Nat.le_refl _⟩
  | binary operator left right span ihl ihr =>
    intro leaf hleaf
    have hleft : left.Placed source := fun n hn => h n (by simp [nodes, hn])
    have hright : right.Placed source := fun n hn => h n (by simp [nodes, hn])
    rcases List.mem_append.mp hleaf with hleaf | hleaf
    · exact (hroot left (by simp [operands])).trans (ihl hleft hleft.root.covers leaf hleaf)
    · exact (hroot right (by simp [operands])).trans (ihr hright hright.root.covers leaf hleaf)
  | negation operand span ih | call function operand span ih =>
    intro leaf hleaf
    have hoperand : operand.Placed source := fun n hn => h n (by simp [nodes, hn])
    exact (hroot operand (by simp [operands])).trans
      (ih hoperand hoperand.root.covers leaf hleaf)

/-- They stand in order. -/
theorem pairwise_leaves (h : e.Placed source) :
    e.leaves.Pairwise fun first second => first.span.stop ≤ second.span.start := by
  induction e with
  | number _ _ | var _ | constant _ _ => exact List.pairwise_singleton _ _
  | binary operator left right span ihl ihr =>
    have hleft : left.Placed source := fun n hn => h n (by simp [nodes, hn])
    have hright : right.Placed source := fun n hn => h n (by simp [nodes, hn])
    refine List.pairwise_append.mpr ⟨ihl hleft, ihr hright, fun first hfirst second hsecond => ?_⟩
    calc first.span.stop
      _ ≤ left.span.stop := (hleft.covers_leaf first hfirst).stop_le
      _ ≤ right.span.start := (h.root.sides operator left right span rfl).1
      _ ≤ second.span.start := (hright.covers_leaf second hsecond).start_le
  | negation operand span ih | call function operand span ih =>
    exact ih fun n hn => h n (by simp [nodes, hn])

end Placed

end Expr

/-! ### The reader -/

/-- Whether an outcome is a value with a property, or a refusal that stands in a source of so many
characters, if anywhere. -/
inductive Locates {β : Type} (n : ℕ) (good : β → Prop) : Except ReadError β → Prop
  /-- A value. -/
  | ok {b : β} (h : good b) : Locates n good (.ok b)
  /-- A refusal. -/
  | error {f : ReadError} (h : ∀ s ∈ f.span, s.Inside n) : Locates n good (.error f)

/-- What holds of more values locates more outcomes. -/
theorem Locates.mono {β : Type} {n : ℕ} {good good' : β → Prop} {r : Except ReadError β}
    (h : Locates n good r) (himp : ∀ b, good b → good' b) : Locates n good' r := by
  cases h with
  | ok h => exact .ok (himp _ h)
  | error h => exact .error h

/-- An outcome goes on with what holds of its value. -/
theorem Locates.bind {β γ : Type} {n : ℕ} {good : β → Prop} {good' : γ → Prop}
    {r : Except ReadError β} (h : Locates n good r) {f : β → Except ReadError γ}
    (hbehind : ∀ b, good b → Locates n good' (f b)) : Locates n good' (r >>= f) := by
  cases h with
  | ok h => exact hbehind _ h
  | error h => exact .error h

namespace Expr

open Token

/-- A refusal stands at its token. -/
theorem locates_refuse {β : Type} {n : ℕ} {good : β → Prop} {cause : Malformed} {token : Token}
    (h : token.span.Inside n) : Locates n good (refuse cause token) := by
  refine .error ?_
  rintro s ⟨⟩
  exact h

variable {source : List Char} {place : ℕ} {tokens : List Token}

/-- Whether a reading began at or behind the place: its tree is placed, and the tokens left stand
behind the tree. -/
structure ReadFrom (source : List Char) (place : ℕ) (p : Expr Numeral × List Token) : Prop where
  /-- All nodes stand in the source as they should. -/
  placed : p.1.Placed source
  /-- The tree does not start before the place. -/
  place_le : place ≤ p.1.span.start
  /-- The other tokens follow it. -/
  behind : InOrder source p.1.span.stop p.2

namespace ReadFrom

variable {e : Expr Numeral} {rest : List Token}

/-- A reading from a later place is one from an earlier place. -/
theorem mono {p : Expr Numeral × List Token} (h : ReadFrom source place p) {earlier : ℕ}
    (hle : earlier ≤ place) : ReadFrom source earlier p :=
  ⟨h.placed, Nat.le_trans hle h.place_le, h.behind⟩

/-- The token behind a tree can be passed over. -/
theorem skip {last : Token} (h : ReadFrom source place (e, last :: rest)) :
    ReadFrom source place (e, rest) := by
  cases h.behind with
  | cons hplace hspan _ hrest =>
    exact ⟨h.placed, h.place_le, hrest.mono (Nat.le_trans hplace hspan)⟩

/-- A call reaches from the token in front of its argument to the one behind. -/
theorem call {first last : Token} (hplace : place ≤ first.span.start)
    (hfirst : first.span.start ≤ first.span.stop)
    (h : ReadFrom source first.span.stop (e, last :: rest)) (function : NamedFunction) :
    ReadFrom source place (.call function e (first.span.hull last.span), rest) := by
  have hargument : e.span.start ≤ e.span.stop := h.placed.root.inside.start_le_stop
  have hbefore : first.span.stop ≤ e.span.start := h.place_le
  cases h.behind with
  | cons hbehind hlast _ hrest =>
    replace hbehind : e.span.stop ≤ last.span.start := hbehind
    have hinside : Span.Inside ⟨first.span.start, last.span.stop⟩ source.length :=
      ⟨by dsimp only; omega, hrest.place_le⟩
    have hcovers : Span.Covers ⟨first.span.start, last.span.stop⟩ e.span :=
      ⟨by dsimp only; omega, by dsimp only; omega⟩
    rw [Span.hull_eq_of_le (by omega) (by omega)]
    exact ⟨h.placed.around rfl rfl hinside hcovers, hplace, hrest⟩

/-- A change of sign reaches from the sign to the end of its operand. -/
theorem negation {sign : Token} (hplace : place ≤ sign.span.start)
    (hsign : sign.span.start ≤ sign.span.stop) (h : ReadFrom source sign.span.stop (e, rest)) :
    ReadFrom source place (.negation e (sign.span.hull e.span), rest) := by
  have hoperand : e.span.start ≤ e.span.stop := h.placed.root.inside.start_le_stop
  have hbefore : sign.span.stop ≤ e.span.start := h.place_le
  have hinside : Span.Inside ⟨sign.span.start, e.span.stop⟩ source.length :=
    ⟨by dsimp only; omega, h.placed.root.inside.stop_le⟩
  have hcovers : Span.Covers ⟨sign.span.start, e.span.stop⟩ e.span :=
    ⟨by dsimp only; omega, Nat.le_refl _⟩
  rw [Span.hull_eq_of_le (by omega) (by omega)]
  exact ⟨h.placed.around rfl rfl hinside hcovers, hplace, h.behind⟩

/-- An operation reaches from its left operand to its right one. -/
theorem binary {left right : Expr Numeral} {token : Token} {tokens : List Token}
    (hleft : ReadFrom source place (left, token :: tokens))
    (hright : ReadFrom source token.span.stop (right, rest)) (operator : Operator) :
    ReadFrom source place (.binary operator left right (left.span.hull right.span), rest) := by
  have hlength : left.span.start ≤ left.span.stop := hleft.placed.root.inside.start_le_stop
  have hlength' : right.span.start ≤ right.span.stop := hright.placed.root.inside.start_le_stop
  have hbefore : token.span.stop ≤ right.span.start := hright.place_le
  cases hleft.behind with
  | cons hbehind htoken _ _ =>
    replace hbehind : left.span.stop ≤ token.span.start := hbehind
    have hsides : left.span.stop ≤ right.span.start := by omega
    have hhull : left.span.hull right.span = ⟨left.span.start, right.span.stop⟩ :=
      Span.hull_eq_of_le (by omega) (by omega)
    have hplaced := hleft.placed.binary hright.placed hsides operator
    rw [hhull] at hplaced ⊢
    exact ⟨hplaced, hleft.place_le, hright.behind⟩

end ReadFrom

/-- Whether a reader places the trees that it reads. -/
def Places (source : List Char) (inner : ℕ → List Token → Reading) : Prop :=
  ∀ least place tokens, InOrder source place tokens →
    Locates source.length (ReadFrom source place) (inner least tokens)

/-- A certain lexeme is found in front, or refused in the source. -/
theorem locates_expect {lexeme : Lexeme} (hfinish : lexeme ≠ .finish)
    (h : InOrder source place tokens) :
    Locates source.length (fun p => tokens = p.1 :: p.2) (expect lexeme tokens) := by
  cases hx : expect lexeme tokens with
  | ok p => exact .ok (expect_eq_ok hfinish hx).1
  | error f =>
    unfold expect at hx
    split at hx
    · cases hx
    · rw [← hx]
      exact locates_refuse h.inside_peek

section Steps

variable {inner : ℕ → List Token → Reading}

/-- A name is placed with what follows it. -/
theorem locates_readName (hinner : Places source inner) {name : String} {token : Token}
    (htoken : token.lexeme = .name name) (h : InOrder source place (token :: tokens)) :
    Locates source.length (ReadFrom source place)
      (readName inner variableName name token tokens) := by
  have hinside := h.inside_peek
  rw [peek_cons] at hinside
  cases h with
  | cons hplace hspan hwritten hrest =>
  replace hwritten := hwritten (by rw [htoken]; rfl)
  have htext : token.span.text source = name.toList := by
    have hwrites := hwritten.writes
    rw [htoken] at hwrites
    exact hwrites.1.symm
  unfold readName
  split
  · next hname =>
    refine .ok ⟨.ofLeaf hwritten rfl rfl ?_, hplace, hrest⟩
    rw [SpeltIn, htext, beq_iff_eq.mp hname]
  · split
    · next function _ =>
      split
      · next hopens =>
        obtain ⟨opening, behind, rfl, -⟩ := exists_cons_of_peek (beq_iff_eq.mp hopens) (by decide)
        cases hrest with
        | cons hopening hspan' _ hbehind =>
        refine (hinner 0 _ _ (hbehind.mono (Nat.le_trans hopening hspan'))).bind ?_
        rintro ⟨argument, after⟩ hargument
        dsimp only
        split
        · next hcloses =>
          obtain ⟨closing, final, rfl, -⟩ := exists_cons_of_peek (beq_iff_eq.mp hcloses) (by decide)
          exact .ok (hargument.call hplace hspan function)
        · exact locates_refuse hargument.behind.inside_peek
      · exact locates_refuse hinside
    · next named _ hnamed =>
      refine .ok ⟨.ofLeaf hwritten rfl rfl ?_, hplace, hrest⟩
      rw [SpeltIn, htext, NamedConstant.eq_name_of_ofName? hnamed]
    · exact locates_refuse hinside

/-- An operand is placed. -/
theorem locates_readOperand (hinner : Places source inner) (h : InOrder source place tokens) :
    Locates source.length (ReadFrom source place) (readOperand inner variableName tokens) := by
  cases h with
  | nil => exact locates_refuse ⟨Nat.le_refl 0, Nat.zero_le _⟩
  | @cons place token rest hplace hspan hwritten hrest =>
    have hthrough := Nat.le_trans hplace hspan
    unfold readOperand
    dsimp only [peek_cons, List.tail_cons]
    split
    · next literal htoken =>
      replace hwritten := hwritten (by rw [htoken]; rfl)
      have hwrites := hwritten.writes
      rw [htoken] at hwrites
      exact .ok ⟨.ofLeaf hwritten rfl rfl ⟨⟨literal, hwrites, rfl⟩, hwritten.value literal htoken⟩,
        hplace, hrest⟩
    · next name htoken =>
      exact locates_readName hinner htoken (.cons hplace hspan hwritten hrest)
    · refine (hinner 0 _ _ hrest).bind ?_
      rintro ⟨e, after⟩ he
      refine (locates_expect (by decide) he.behind).bind ?_
      rintro ⟨closing, final⟩ rfl
      exact .ok (he.skip.mono hthrough)
    · refine (hinner 0 _ _ hrest).bind ?_
      rintro ⟨e, after⟩ he
      refine (locates_expect (by decide) he.behind).bind ?_
      rintro ⟨closing, final⟩ rfl
      exact .ok (he.call hplace hspan .abs)
    · refine (hinner signStrength _ _ hrest).bind ?_
      rintro ⟨e, after⟩ he
      exact .ok (he.negation hplace hspan)
    · exact (hinner signStrength _ _ hrest).mono fun p hp => hp.mono hthrough
    · exact locates_refuse ⟨hspan, hrest.place_le⟩

/-- With the operators behind it, an operand is placed. -/
theorem locates_readOperators (hinner : Places source inner) (least room : ℕ)
    {left : Expr Numeral} (h : ReadFrom source place (left, tokens)) :
    Locates source.length (ReadFrom source place) (readOperators inner least room left tokens) := by
  induction room generalizing left tokens with
  | zero =>
    rcases below_or_operator least tokens with hstop | ⟨o, token, behind, rfl, htoken, hstrong⟩
    · rw [readOperators_of_below hstop]
      exact .ok h
    · rw [readOperators_zero htoken hstrong]
      exact locates_refuse h.behind.inside_peek
  | succ room ih =>
    rcases below_or_operator least tokens with hstop | ⟨o, token, behind, rfl, htoken, hstrong⟩
    · rw [readOperators_of_below hstop]
      exact .ok h
    · rw [readOperators_succ htoken hstrong]
      cases h.behind with
      | cons _ _ _ hbehind =>
      refine (hinner _ _ _ hbehind).bind ?_
      rintro ⟨right, after⟩ hright
      exact ih (h.binary hright o)

end Steps

/-- What is read is placed, level by level, and every refusal stands in the source. -/
theorem locates_read (source : List Char) (room : ℕ) :
    Places source (read variableName room) := by
  induction room with
  | zero =>
    intro least place tokens h
    exact locates_refuse h.inside_peek
  | succ room ih =>
    intro least place tokens h
    unfold read
    refine (locates_readOperand ih h).bind ?_
    rintro ⟨left, rest⟩ hleft
    exact locates_readOperators ih least room hleft

/-- So is the tree of a complete list of tokens. -/
theorem locates_ofTokens (h : InOrder source place tokens) :
    Locates source.length (Placed source) (ofTokens variableName tokens) := by
  unfold ofTokens
  split
  · exact .error nofun
  · refine (locates_read source nestingLimit 0 place tokens h).bind ?_
    rintro ⟨e, rest⟩ he
    dsimp only
    split
    · exact .ok he.placed
    · exact locates_refuse he.behind.inside_peek

/-- And the tree of a source. -/
theorem locates_ofText (source : List Char) :
    Locates source.length (Placed source) (ofText variableName source) := by
  unfold ofText
  cases htokens : Token.ofText source with
  | ok tokens => exact locates_ofTokens (inOrder_of_ofText htokens)
  | error f =>
    refine .error ?_
    unfold Token.ofText at htokens
    cases hscan : scan 0 source with
    | ok written => rw [hscan] at htokens; cases htokens
    | error f =>
      rw [hscan] at htokens
      cases htokens
      simpa using inside_of_scan hscan

end Expr

/-- In the tree of an accepted source every node stands in the source and covers its operands; the
left operand of an operation ends where the right one starts or before, and the operation is as wide
as both together; the leaves stand in order, each in a stretch that is not empty and spells it. A
source that is refused is so without a place or for a stretch of its own. -/
theorem Expression.ofText_places (source : List Char) :
    (∀ e, ofText source = .ok e →
      (∀ n ∈ e.tree.nodes, n.StandsIn source) ∧
      e.tree.leaves.Pairwise (fun first second => first.span.stop ≤ second.span.start) ∧
      ∀ leaf ∈ e.tree.leaves, leaf.span.start < leaf.span.stop ∧ leaf.SpeltIn source) ∧
    ∀ f, ofText source = .error f → ∀ s ∈ f.span, s.Inside source.length := by
  have hlocates := Expr.locates_ofText source
  unfold ofText
  cases hread : Expr.ofText variableName source with
  | ok tree =>
    rw [hread] at hlocates
    cases hlocates with
    | ok hplaced =>
      refine ⟨?_, by rintro _ ⟨⟩⟩
      rintro _ ⟨⟩
      refine ⟨hplaced, hplaced.pairwise_leaves, fun leaf hleaf => ?_⟩
      rw [Expr.leaves_eq_filter, List.mem_filter, List.isEmpty_iff] at hleaf
      exact (hplaced leaf hleaf.1).leaf hleaf.2
  | error f =>
    rw [hread] at hlocates
    cases hlocates with
    | error hinside =>
      refine ⟨by rintro _ ⟨⟩, ?_⟩
      rintro _ ⟨⟩
      exact hinside

/-- The tree of `-(x+1)2 pi` leaves the parentheses out and has its leaves in order; `(x+1))` is
refused for its last character. -/
theorem Expression.ofText_places_product :
    (∃ e, ofText "-(x+1)2 pi".toList = .ok e ∧
      e.tree.nodes.map Expr.span =
        [⟨2, 3⟩, ⟨4, 5⟩, ⟨2, 5⟩, ⟨0, 5⟩, ⟨6, 7⟩, ⟨0, 7⟩, ⟨8, 10⟩, ⟨0, 10⟩] ∧
      (∀ n ∈ e.tree.nodes, n.StandsIn "-(x+1)2 pi".toList) ∧
      e.tree.leaves.Pairwise fun first second => first.span.stop ≤ second.span.start) ∧
    ofText "(x+1))".toList = .error ⟨.trailing .closing, some ⟨5, 6⟩⟩ ∧
      Span.Inside ⟨5, 6⟩ "(x+1))".toList.length := by
  have htree : ofText "-(x+1)2 pi".toList = .ok ⟨"-(x+1)2 pi", .binary .mul (.binary .mul
      (.negation (.binary .add (.var ⟨2, 3⟩) (.number ⟨1, 0⟩ ⟨4, 5⟩) ⟨2, 5⟩) ⟨0, 5⟩)
      (.number ⟨2, 0⟩ ⟨6, 7⟩) ⟨0, 7⟩) (.constant .pi ⟨8, 10⟩) ⟨0, 10⟩⟩ := by decide +kernel
  have hrefused : ofText "(x+1))".toList = .error ⟨.trailing .closing, some ⟨5, 6⟩⟩ := by
    decide +kernel
  obtain ⟨hnodes, hleaves, -⟩ := (ofText_places _).1 _ htree
  exact ⟨⟨_, htree, rfl, hnodes, hleaves⟩, hrefused, (ofText_places _).2 _ hrefused _ rfl⟩

end CurvePlot
