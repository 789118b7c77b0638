import CurvePlot.Proofs.Expr.TokenPlaces

/-!
# The order of tokens

The tokens of a source stand in order, one after the other, and the unwritten stars in the gaps
between the others (`Token.inOrder_of_ofText`). A text that cannot be scanned is refused for a
stretch of its own (`Token.inside_of_scan`).
-/

namespace CurvePlot

/-- Whether a stretch lies in a source of so many characters. -/
structure Span.Inside (s : Span) (n : ℕ) : Prop where
  /-- It does not end before it starts. -/
  start_le_stop : s.start ≤ s.stop
  /-- It ends in the source. -/
  stop_le : s.stop ≤ n

namespace Token

/-- Whether tokens stand in the source one after the other, from a place on, and those that a factor
may begin with are written. -/
inductive InOrder (source : List Char) : ℕ → List Token → Prop
  /-- No tokens. -/
  | nil {place : ℕ} (hplace : place ≤ source.length) : InOrder source place []
  /-- A token, and the others from its end on. -/
  | cons {place : ℕ} {token : Token} {rest : List Token} (hplace : place ≤ token.span.start)
    (hspan : token.span.start ≤ token.span.stop)
    (hwritten : token.lexeme.beginsFactor = true → Written source token)
    (hrest : InOrder source token.span.stop rest) : InOrder source place (token :: rest)

variable {source : List Char} {place : ℕ} {tokens : List Token}

namespace InOrder

/-- What stands behind a place stands behind all places before. -/
theorem mono (h : InOrder source place tokens) {earlier : ℕ} (hle : earlier ≤ place) :
    InOrder source earlier tokens := by
  cases h with
  | nil hplace => exact .nil (Nat.le_trans hle hplace)
  | cons hplace hspan hwritten hrest => exact .cons (Nat.le_trans hle hplace) hspan hwritten hrest

/-- The place is one of the source. -/
theorem place_le (h : InOrder source place tokens) : place ≤ source.length := by
  induction h with
  | nil hplace => exact hplace
  | cons hplace hspan _ _ ih => exact Nat.le_trans hplace (Nat.le_trans hspan ih)

/-- The token in front stands in the source. -/
theorem inside_peek (h : InOrder source place tokens) :
    (Expr.peek tokens).span.Inside source.length := by
  cases h with
  | nil => exact ⟨Nat.le_refl 0, Nat.zero_le _⟩
  | cons _ hspan _ hrest => exact ⟨hspan, hrest.place_le⟩

/-- An unwritten star stands in order between its neighbours. -/
theorem withProducts (h : InOrder source place tokens) :
    InOrder source place (withProducts tokens) := by
  induction h with
  | nil hplace => exact .nil hplace
  | @cons place left rest hplace hspan hwritten hrest ih =>
    cases hrest with
    | nil hend => exact .cons hplace hspan hwritten (.nil hend)
    | @cons _ right rest hgap hspan' hwritten' hrest' =>
      rw [withProducts_cons_cons]
      refine .cons hplace hspan hwritten ?_
      split
      · have hright : InOrder source right.span.start (Token.withProducts (right :: rest)) := by
          obtain ⟨others, hothers⟩ := withProducts_cons right rest
          rw [hothers] at ih ⊢
          cases ih with
          | cons _ hspan hwritten hothers => exact .cons (Nat.le_refl _) hspan hwritten hothers
        exact .cons (Nat.le_refl _) hgap nofun hright
      · exact ih

/-- The end of the source stands behind all of it. -/
theorem append_finish (h : InOrder source place tokens) :
    InOrder source place (tokens ++ [⟨.finish, ⟨source.length, source.length⟩⟩]) := by
  induction h with
  | nil hplace => exact .cons hplace (Nat.le_refl _) nofun (.nil (Nat.le_refl _))
  | cons hplace hspan hwritten _ ih => exact .cons hplace hspan hwritten ih

end InOrder

/-- Tokens in their places are in order. -/
theorem Placed.inOrder {rest : List Char} (h : Placed place rest tokens) (front : List Char)
    (hplace : place = front.length) : InOrder (front ++ rest) place tokens := by
  induction h generalizing front with
  | nil => exact .nil (by simp [hplace])
  | @blank place c rest tokens _ _ ih =>
    have hrest := ih (front ++ [c]) (by simp [hplace])
    rw [List.append_assoc, List.singleton_append] at hrest
    exact hrest.mono (Nat.le_succ place)
  | @word place l word rest tokens hword _ ih =>
    have hrest := ih (front ++ word) (by simp [hplace])
    rw [List.append_assoc] at hrest
    subst hplace
    exact .cons (Nat.le_refl _) (Nat.le_add_right _ _) (fun _ => written_of_heads hword front) hrest

/-- The tokens of a source are in order. -/
theorem inOrder_of_ofText (h : ofText source = .ok tokens) : InOrder source 0 tokens := by
  obtain ⟨written, hscan, rfl⟩ := map_eq_ok h
  exact ((placed_of_scan hscan).inOrder [] rfl).withProducts.append_finish

/-! ### Refused characters -/

/-- A lexeme is refused for characters of the text. -/
theorem length_le_of_scanLexeme_error {c : Char} {rest : List Char} {cause : Malformed} {length : ℕ}
    (h : scanLexeme c rest = .error (cause, length)) : length ≤ rest.length + 1 := by
  unfold scanLexeme at h
  split at h
  · cases h
  · split at h
    · next literal after hliteral =>
      have htext := congrArg List.length (Literal.scan?_text hliteral)
      unfold scanNumber at h
      split at h
      · next more _ _ =>
        cases h
        -- Number, second point, digits and power are one head of the text.
        have hdigits := congrArg List.length
          (List.takeWhile_append_dropWhile (p := Text.isAsciiDigit) (l := more))
        have hpower := congrArg List.length
          (Literal.scanPower_text Text.isAsciiDigit (more.dropWhile Text.isAsciiDigit))
        simp only [List.length_append, List.length_cons] at htext hdigits hpower ⊢
        omega
      · cases h
    · split at h
      · cases h
      · cases h
        exact Nat.le_add_left 1 _

/-- A text is refused for a stretch of it. -/
theorem inside_of_scan {text : List Char} {f : ReadError} (h : scan place text = .error f) :
    ∀ s ∈ f.span, s.Inside (place + text.length) := by
  fun_induction scan place text generalizing f with
  | case1 => cases h
  | case2 place c rest _ ih =>
    rw [List.length_cons, Nat.add_comm rest.length, ← Nat.add_assoc]
    exact ih h
  | case3 place c rest _ cause length hlexeme =>
    cases h
    rintro s ⟨⟩
    exact ⟨Nat.le_add_right _ _, Nat.add_le_add_left (length_le_of_scanLexeme_error hlexeme) _⟩
  | case4 place c rest _ lexeme length hlexeme e herror ih =>
    cases h
    obtain ⟨n, rfl⟩ : ∃ n, length = n + 1 :=
      ⟨length - 1, by have := (writes_of_scanLexeme hlexeme).2; omega⟩
    have hle := length_le_of_scanLexeme hlexeme
    have hend : place + (n + 1) + (rest.drop (n + 1 - 1)).length = place + (c :: rest).length := by
      rw [Nat.add_sub_cancel, List.length_drop, List.length_cons]
      omega
    rw [← hend]
    exact ih herror
  | case5 => cases h

end Token

end CurvePlot
