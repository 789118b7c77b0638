import CurvePlot.Proofs.Expr.FurtherBlanks
import CurvePlot.Proofs.Expr.PlacelessReading
import CurvePlot.Proofs.Expr.TokenPlaces

/-!
# Blanks between tokens

Blanks that are put anywhere but inside of words leave the lexemes of a text as they are
(`Token.Placed.scans_spread`). The unwritten stars are put in by the lexemes alone, and the reader
looks at nothing else, so that the tree is the same but for places, or the refusal has the same
cause (`Expression.ofText_spread`).
-/

namespace CurvePlot

/-! ### Gaps -/

namespace Text

/-- A text with further characters in it: the gap at each place stands in front of the character
there, and the gap at the end behind the last one. -/
def spread (gap : ℕ → List Char) (place : ℕ) : List Char → List Char
  | [] => gap place
  | c :: rest => gap place ++ c :: spread gap (place + 1) rest

variable {gap : ℕ → List Char}

/-- With blanks for gaps these are further blanks. -/
theorem widens_spread (hgap : ∀ i, ∀ c ∈ gap i, isBlank c = true) (place : ℕ) (text : List Char) :
    Widens text (spread gap place text) := by
  induction text generalizing place with
  | nil =>
    have h := Widens.nil.append (hgap place)
    rwa [List.append_nil] at h
  | cons c rest ih => exact (Widens.keep c (ih (place + 1))).append (hgap place)

/-- A part of the text without gaps stays together. -/
theorem spread_append {part : List Char} {place : ℕ}
    (h : ∀ i, place ≤ i → i < place + part.length → gap i = []) (rest : List Char) :
    spread gap place (part ++ rest) = part ++ spread gap (place + part.length) rest := by
  induction part generalizing place with
  | nil => rfl
  | cons c part ih =>
    rw [List.length_cons] at h
    have hlater : spread gap (place + 1) (part ++ rest) =
        part ++ spread gap (place + 1 + part.length) rest :=
      ih fun i hi hlt => h i (by omega) (by omega)
    rw [List.cons_append, spread, h place le_rfl (by omega), List.nil_append, hlater,
      List.length_cons, List.cons_append, Nat.add_assoc, Nat.add_comm 1]

end Text

namespace Token

/-- Blanks in gaps that are not inside of a token leave the lexemes as they are. -/
theorem Placed.scans_spread {place : ℕ} {text : List Char} {tokens : List Token}
    (h : Placed place text tokens) {gap : ℕ → List Char}
    (hgap : ∀ i, ∀ c ∈ gap i, Text.isBlank c = true)
    (houtside : ∀ token ∈ tokens, ∀ i, token.span.start < i → i < token.span.stop → gap i = []) :
    Scans (Text.spread gap place text) (lexemes tokens) := by
  induction h with
  | @nil place =>
    have hblanks := Scans.blanks_append (hgap place) .nil
    rwa [List.append_nil] at hblanks
  | @blank place c rest tokens hc _ ih =>
    exact .blanks_append (hgap place) (.blank hc (ih houtside))
  | @word place l word rest tokens hword _ ih =>
    obtain ⟨hinside, hlater⟩ := List.forall_mem_cons.mp houtside
    have hrest := Scans.word (hword.widen (Text.widens_spread hgap (place + word.length) rest))
      (ih hlater)
    have htogether : Text.spread gap place (word ++ rest) =
        gap place ++ (word ++ Text.spread gap (place + word.length) rest) := by
      obtain ⟨c, tail, rfl, -, -⟩ := hword
      rw [List.length_cons] at hinside ⊢
      have htail : Text.spread gap (place + 1) (tail ++ rest) =
          tail ++ Text.spread gap (place + 1 + tail.length) rest :=
        Text.spread_append
          (fun i hi hlt => hinside i (show place < i by omega)
            (show i < place + (tail.length + 1) by omega)) rest
      rw [List.cons_append, Text.spread, htail, Nat.add_assoc, Nat.add_comm 1, List.cons_append]
    rw [htogether]
    exact .blanks_append (hgap place) hrest

/-! ### Unwritten stars -/

/-- What a token of a source shows without its place: its lexeme, and whether it is an unwritten
star. -/
def shown (source : List Char) (token : Token) : Lexeme × Bool :=
  (token.lexeme, token.isUnwritten source)

end Token

/-- The row of lexemes with the unwritten stars put in and marked. -/
def Lexeme.withMarks : List Lexeme → List (Lexeme × Bool)
  | left :: right :: rest =>
    if left.MissesOperator right then
      (left, false) :: (star, true) :: withMarks (right :: rest)
    else (left, false) :: withMarks (right :: rest)
  | ls => ls.map fun l => (l, false)

namespace Token

/-- What the tokens of a tiling show, with the unwritten stars, is decided by their lexemes. -/
theorem Tiles.map_shown {source : List Char} {tokens : List Token} (front : List Token)
    (h : Tiles 0 source (front ++ tokens)) :
    (withProducts tokens).map (shown source) = Lexeme.withMarks (lexemes tokens) := by
  induction tokens generalizing front with
  | nil => rfl
  | cons left rest ih =>
    have hleft : left.shown source = (left.lexeme, false) :=
      Prod.ext rfl (h.written left (by simp)).isUnwritten_eq
    cases rest with
    | nil => exact congrArg (fun p => [p]) hleft
    | cons right rest =>
      have hrest := ih (front ++ [left]) (by rwa [List.append_assoc])
      have hstar : (starBetween left right).shown source = (.star, true) :=
        Prod.ext rfl h.isUnwritten_starBetween
      rw [withProducts_cons_cons, List.map_cons, List.map_append, hrest, hleft]
      simp only [lexemes, List.map_cons, Lexeme.withMarks]
      split
      · rw [List.map_singleton, hstar]
        rfl
      · rfl

/-- The tokens of a text show what its lexemes decide, and the end of the source. -/
theorem map_shown_of_scan {source : List Char} {written : List Token}
    (h : scan 0 source = .ok written) :
    ∃ tokens, ofText source = .ok tokens ∧
      tokens.map (shown source) = Lexeme.withMarks (lexemes written) ++ [(.finish, false)] := by
  refine ⟨withProducts written ++ [⟨.finish, ⟨source.length, source.length⟩⟩], ?_, ?_⟩
  · rw [ofText, h]
    rfl
  · have htiles : Tiles 0 source ([] ++ written) := (placed_of_scan h).tiles [] rfl
    rw [List.map_append, htiles.map_shown]
    rfl

end Token

namespace Expression

/-- Blanks that are put anywhere into a scanned source, but not inside of a token, leave its tokens
as they are, but for places, and with them the unwritten stars. If the source is accepted it stays
so, with the same tree but for places; and if it is refused it stays so, for the same cause. -/
theorem ofText_spread {source : List Char} {written : List Token}
    (hscan : Token.scan 0 source = .ok written) {gap : ℕ → List Char}
    (hgap : ∀ i, ∀ c ∈ gap i, Text.isBlank c = true)
    (houtside : ∀ token ∈ written, ∀ i, token.span.start < i → i < token.span.stop → gap i = []) :
    (∃ tokens tokens', Token.ofText source = .ok tokens ∧
      Token.ofText (Text.spread gap 0 source) = .ok tokens' ∧
      tokens'.map (Token.shown (Text.spread gap 0 source)) = tokens.map (Token.shown source)) ∧
    (∀ e, ofText source = .ok e → ∃ e', ofText (Text.spread gap 0 source) = .ok e' ∧
      e'.tree.skeleton = e.tree.skeleton) ∧
    ∀ error, ofText source = .error error →
      ∃ error', ofText (Text.spread gap 0 source) = .error error' ∧ error'.cause = error.cause := by
  obtain ⟨written', hscan', hlexemes⟩ :=
    ((Token.placed_of_scan hscan).scans_spread hgap houtside).exists_scan 0
  obtain ⟨tokens, htokens, hshown⟩ := Token.map_shown_of_scan hscan
  obtain ⟨tokens', htokens', hshown'⟩ := Token.map_shown_of_scan hscan'
  have hsame : tokens'.map (Token.shown (Text.spread gap 0 source)) =
      tokens.map (Token.shown source) := by rw [hshown, hshown', hlexemes]
  have halike : lexemes tokens = lexemes tokens' := by
    have h := congrArg (List.map Prod.fst) hsame
    rw [List.map_map, List.map_map] at h
    exact h.symm
  refine ⟨⟨tokens, tokens', htokens, htokens', hsame⟩, ?_⟩
  rw [ofText_eq_map htokens, ofText_eq_map htokens']
  have htrees := Expr.alike_ofTokens variableName halike
  generalize Expr.ofTokens variableName tokens = read, Expr.ofTokens variableName tokens' = read'
    at htrees ⊢
  cases htrees with
  | ok h =>
    refine ⟨fun e he => ?_, fun error he => ?_⟩
    · cases he
      exact ⟨_, rfl, h.symm⟩
    · cases he
  | error h =>
    refine ⟨fun e he => ?_, fun error he => ?_⟩
    · cases he
    · cases he
      exact ⟨_, rfl, h.symm⟩

/-- In `2sin(x)` there may be a blank at every place but the two inside of the name. -/
theorem ofText_spread_call :
    ∃ e : Expression, ofText " 2 sin ( x ) ".toList = .ok e ∧
      e.tree.skeleton = .binary .mul (.number ⟨2, 0⟩) (.call .sin .var) := by
  have hscan : Token.scan 0 "2sin(x)".toList = .ok
      [⟨.number ⟨['2'], none, none⟩, ⟨0, 1⟩⟩, ⟨.name "sin", ⟨1, 4⟩⟩, ⟨.opening, ⟨4, 5⟩⟩,
        ⟨.name "x", ⟨5, 6⟩⟩, ⟨.closing, ⟨6, 7⟩⟩] :=
    eq_ok_of_toOption (by decide +kernel)
  have htext : (ofText "2sin(x)".toList).toOption.map (fun e => e.tree.skeleton) =
      some (.binary .mul (.number ⟨2, 0⟩) (.call .sin .var)) := by decide +kernel
  let gap : ℕ → List Char := fun i => if i = 2 ∨ i = 3 then [] else [' ']
  have hgap : ∀ i, ∀ c ∈ gap i, Text.isBlank c = true := by
    intro i c hc
    dsimp only [gap] at hc
    split at hc
    · cases hc
    · rw [List.mem_singleton.mp hc]
      decide
  have hspread : Text.spread gap 0 "2sin(x)".toList = " 2 sin ( x ) ".toList := by decide
  obtain ⟨-, haccepted, -⟩ := ofText_spread hscan hgap (by
    intro token htoken i hstart hstop
    refine if_pos ?_
    simp only [List.mem_cons, List.not_mem_nil, or_false] at htoken
    rcases htoken with rfl | rfl | rfl | rfl | rfl <;> dsimp only at hstart hstop <;> omega)
  rw [hspread] at haccepted
  cases he : ofText "2sin(x)".toList with
  | error error => rw [he] at htext; cases htext
  | ok e =>
    rw [he] at htext
    obtain ⟨e', he', hskeleton⟩ := haccepted e he
    exact ⟨e', he', hskeleton.trans (Option.some.inj htext)⟩

end Expression

end CurvePlot
