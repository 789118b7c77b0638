import CurvePlot.Number.Double
import CurvePlot.Proofs.Expr.LexemeText

/-!
# Where tokens stand

The written tokens of a source tile it: their stretches follow each other without overlap, each token
is spelt by its stretch, and what no stretch covers is blank (`Token.Tiles`). A star that was left
unwritten can be told from a written one, because its stretch holds no sign. Taking the unwritten
stars out leaves a tiling, and they stand in the gaps where an operator is missing and nowhere else
(`Token.ofText_tiles_and_stitched`).
-/

namespace CurvePlot

/-- The characters of a stretch. -/
def Span.text (s : Span) (source : List Char) : List Char :=
  (source.drop s.start).take (s.stop - s.start)

/-- A stretch behind a front text is that of the rest. -/
theorem Span.text_append (front word rest : List Char) :
    Span.text ⟨front.length, front.length + word.length⟩ (front ++ (word ++ rest)) = word := by
  rw [Span.text, List.drop_left, Nat.add_sub_cancel_left, List.take_left]

/-- A character of a stretch stands at a place inside. -/
theorem Span.exists_place_of_mem {s : Span} {source : List Char} {c : Char} (h : c ∈ s.text source) :
    ∃ i, s.start ≤ i ∧ i < s.stop ∧ source[i]? = some c := by
  obtain ⟨n, hn⟩ := List.mem_iff_getElem?.mp h
  rw [Span.text, List.getElem?_take, List.getElem?_drop] at hn
  split at hn
  · exact ⟨s.start + n, by omega, by omega, hn⟩
  · cases hn

/-- Whether an operator is missing between two neighbours: the left one is a number, a name or a
closing parenthesis, the right one a number, a name or an opening parenthesis, and they are not the
name of a function with the parenthesis of its argument. -/
def Lexeme.MissesOperator (left right : Lexeme) : Prop :=
  ((∃ literal, left = number literal) ∨ (∃ name, left = .name name) ∨ left = closing) ∧
    ((∃ literal, right = number literal) ∨ (∃ name, right = .name name) ∨ right = opening) ∧
      ¬ ((∃ name, left = .name name ∧ (NamedFunction.ofName? name).isSome = true) ∧ right = opening)

/-- Where an operator is missing a product is left unwritten. -/
theorem Lexeme.missesOperator_iff {left right : Lexeme} :
    MissesOperator left right ↔ Token.impliesProduct left right = true := by
  cases left <;> cases right <;>
    simp [MissesOperator, Token.impliesProduct, endsOperand, beginsFactor, Token.opensCall]

instance (left right : Lexeme) : Decidable (left.MissesOperator right) :=
  decidable_of_iff _ Lexeme.missesOperator_iff.symm

namespace Token

/-! ### Written tokens -/

/-- Whether a token is written in its stretch of the source. -/
structure Written (source : List Char) (token : Token) : Prop where
  /-- The stretch is not empty. -/
  start_lt_stop : token.span.start < token.span.stop
  /-- It lies in the source. -/
  stop_le : token.span.stop ≤ source.length
  /-- Its characters spell the lexeme. -/
  writes : token.lexeme.Writes (token.span.text source)
  /-- The characters of a number are read as its value. -/
  value : ∀ literal, token.lexeme = .number literal →
    Double.read? (token.span.text source) = some literal.toFloat

/-- Whether tokens tile the source from a place on: no two overlap, they follow each other, and what
they leave free is blank. -/
structure Tiles (place : ℕ) (source : List Char) (tokens : List Token) : Prop where
  /-- Every token is written. -/
  written : ∀ token ∈ tokens, Written source token
  /-- None stands before the place. -/
  place_le : ∀ token ∈ tokens, place ≤ token.span.start
  /-- A token ends before the later ones. -/
  ordered : tokens.Pairwise fun first second => first.span.stop ≤ second.span.start
  /-- A character that is covered by none is blank. -/
  blank : ∀ i c, place ≤ i → source[i]? = some c →
    (∀ token ∈ tokens, ¬ (token.span.start ≤ i ∧ i < token.span.stop)) → Text.isBlank c = true

/-- A word is written where it stands. -/
theorem written_of_heads {l : Lexeme} {word rest : List Char} (h : Heads l word rest)
    (front : List Char) :
    Written (front ++ (word ++ rest)) ⟨l, ⟨front.length, front.length + word.length⟩⟩ := by
  have hwrites : l.Writes word := by
    obtain ⟨c, tail, rfl, -, hscan⟩ := h
    have hw := (writes_of_scanLexeme hscan).1
    rwa [← List.cons_append, List.take_left] at hw
  have hne : 0 < word.length := by
    obtain ⟨c, tail, rfl, -, -⟩ := h
    exact Nat.succ_pos _
  refine ⟨Nat.lt_add_of_pos_right hne, by simp, ?_, fun literal hl => ?_⟩
  · rwa [Span.text_append]
  · rw [Span.text_append]
    obtain rfl : l = .number literal := hl
    obtain ⟨hwell, rfl⟩ := hwrites
    exact @Double.read?_append_text none (by rintro c ⟨⟩) _ hwell

/-- Tokens in their places tile the source from there on. -/
theorem Placed.tiles {place : ℕ} {rest : List Char} {tokens : List Token}
    (h : Placed place rest tokens) (front : List Char) (hplace : place = front.length) :
    Tiles place (front ++ rest) tokens := by
  induction h generalizing front with
  | nil =>
    refine ⟨by simp, by simp, .nil, fun i c hi hc _ => ?_⟩
    rw [List.append_nil, List.getElem?_eq_none (by omega)] at hc
    cases hc
  | @blank place c rest tokens hc h ih =>
    have hrest := ih (front ++ [c]) (by simp [hplace])
    rw [List.append_assoc, List.singleton_append] at hrest
    refine ⟨hrest.written, fun token ht => Nat.le_of_succ_le (hrest.place_le token ht), hrest.ordered,
      fun i d hi hd hfree => ?_⟩
    rcases Nat.eq_or_lt_of_le hi with rfl | hlt
    · rw [hplace, List.getElem?_append_right le_rfl, Nat.sub_self] at hd
      cases hd
      exact hc
    · exact hrest.blank i d hlt hd hfree
  | @word place l word rest tokens hword h ih =>
    have hrest := ih (front ++ word) (by simp [hplace])
    rw [List.append_assoc] at hrest
    subst hplace
    refine ⟨?_, ?_, ?_, fun i d hi hd hfree => ?_⟩
    · intro token ht
      rcases List.mem_cons.mp ht with rfl | ht
      · exact written_of_heads hword front
      · exact hrest.written token ht
    · intro token ht
      rcases List.mem_cons.mp ht with rfl | ht
      · exact le_rfl
      · exact Nat.le_of_add_right_le (hrest.place_le token ht)
    · exact List.pairwise_cons.mpr ⟨fun token ht => hrest.place_le token ht, hrest.ordered⟩
    · have hlater : front.length + word.length ≤ i := by
        by_contra hlt
        exact hfree _ List.mem_cons_self ⟨hi, by simpa using hlt⟩
      exact hrest.blank i d hlater hd fun token ht => hfree token (List.mem_cons_of_mem _ ht)

/-! ### Unwritten stars -/

/-- Whether a token is a star that is not written: its stretch is empty or blank. -/
def isUnwritten (source : List Char) (token : Token) : Bool :=
  token.lexeme == .star && (token.span.text source).all Text.isBlank

/-- The tokens without the unwritten stars. -/
def writtenOf (source : List Char) (tokens : List Token) : List Token :=
  tokens.filter fun token => !token.isUnwritten source

/-- The star in the gap between two tokens. -/
def starBetween (left right : Token) : Token :=
  ⟨.star, ⟨left.span.stop, right.span.start⟩⟩

/-- A written token is no unwritten star. -/
theorem Written.isUnwritten_eq {source : List Char} {token : Token} (h : Written source token) :
    token.isUnwritten source = false := by
  have hwrites := h.writes
  obtain ⟨lexeme, span⟩ := token
  cases lexeme with
  | star =>
    obtain ⟨c, htext, hc⟩ := hwrites
    dsimp only at htext
    simp [isUnwritten, htext, Lexeme.not_isBlank_of_ofSign? hc]
  | _ => rfl

/-- A written token stays. -/
theorem writtenOf_cons_of_written {source : List Char} {token : Token}
    (h : token.isUnwritten source = false) (tokens : List Token) :
    writtenOf source (token :: tokens) = token :: writtenOf source tokens := by
  simp [writtenOf, h]

/-- A star that is put in for a missing operator is taken out again. -/
theorem writtenOf_star_append {source : List Char} {star : Token}
    (h : star.isUnwritten source = true) (p : Prop) [Decidable p] (tokens : List Token) :
    writtenOf source ((if p then [star] else []) ++ tokens) = writtenOf source tokens := by
  split <;> simp [writtenOf, h]

/-- The star in the gap between two neighbours of a tiling is not written. -/
theorem Tiles.isUnwritten_starBetween {source : List Char} {front back : List Token}
    {left right : Token} (h : Tiles 0 source (front ++ left :: right :: back)) :
    (starBetween left right).isUnwritten source = true := by
  have hblank : ∀ c ∈ (starBetween left right).span.text source, Text.isBlank c = true := by
    intro c hc
    obtain ⟨i, hstart, hstop, hi⟩ := Span.exists_place_of_mem hc
    obtain ⟨-, hbehind, hbefore⟩ := List.pairwise_append.mp h.ordered
    obtain ⟨-, hbehind⟩ := List.pairwise_cons.mp hbehind
    have hright := (List.pairwise_cons.mp hbehind).1
    refine h.blank i c (Nat.zero_le i) hi fun token ht hcover => ?_
    change left.span.stop ≤ i at hstart
    change i < right.span.start at hstop
    rcases List.mem_append.mp ht with ht | ht
    · have hle := hbefore token ht left List.mem_cons_self
      have hlt := (h.written left (by simp)).start_lt_stop
      omega
    · rcases List.mem_cons.mp ht with rfl | ht
      · omega
      · rcases List.mem_cons.mp ht with rfl | ht
        · omega
        · have hle := hright token ht
          have hlt := (h.written right (by simp)).start_lt_stop
          omega
  simpa [isUnwritten, starBetween] using hblank

/-- Whether the unwritten stars of a row of tokens stand where an operator is missing, and nowhere
else. Two neighbours of the other tokens, wherever they stand among these, have a star between them
if an operator is missing there, and nothing otherwise; and an unwritten star has such neighbours. -/
structure Stitched (source : List Char) (body : List Token) : Prop where
  /-- What stands between two neighbours of the other tokens. -/
  between : ∀ front left right back,
    writtenOf source body = front ++ left :: right :: back →
      ∃ before behind, writtenOf source before = front ∧ writtenOf source behind = back ∧
        body = before ++ left ::
          ((if left.lexeme.MissesOperator right.lexeme then [starBetween left right] else []) ++
            right :: behind)
  /-- What stands around an unwritten star. -/
  around : ∀ before star behind, body = before ++ star :: behind →
    star.isUnwritten source = true →
      ∃ left ∈ before.getLast?, ∃ right ∈ behind.head?, left.isUnwritten source = false ∧
        right.isUnwritten source = false ∧ left.lexeme.MissesOperator right.lexeme ∧
          star = starBetween left right

/-- Between two neighbours there is a star if an operator is missing. -/
theorem withProducts_cons_cons (left right : Token) (rest : List Token) :
    withProducts (left :: right :: rest) = left ::
      ((if left.lexeme.MissesOperator right.lexeme then [starBetween left right] else []) ++
        withProducts (right :: rest)) := by
  rw [withProducts]
  by_cases h : impliesProduct left.lexeme right.lexeme = true
  · rw [if_pos h, if_pos (Lexeme.missesOperator_iff.mpr h)]
    rfl
  · rw [if_neg h, if_neg fun hm => h (Lexeme.missesOperator_iff.mp hm)]
    rfl

section Stitching

variable {source : List Char} {tokens : List Token}

/-- Without the stars that were put in, the tokens are what they were. -/
theorem Tiles.writtenOf_withProducts (front : List Token) (h : Tiles 0 source (front ++ tokens)) :
    writtenOf source (withProducts tokens) = tokens := by
  induction tokens generalizing front with
  | nil => rfl
  | cons left rest ih =>
    have hleft := (h.written left (by simp)).isUnwritten_eq
    cases rest with
    | nil => exact writtenOf_cons_of_written hleft []
    | cons right rest =>
      have hrest := ih (front ++ [left]) (by rwa [List.append_assoc])
      rw [withProducts_cons_cons, writtenOf_cons_of_written hleft,
        writtenOf_star_append h.isUnwritten_starBetween, hrest]

/-- What stands between two neighbours after the stars were put in. -/
theorem Tiles.exists_withProducts_eq {front back : List Token} {left right : Token}
    (earlier : List Token) (h : Tiles 0 source (earlier ++ (front ++ left :: right :: back))) :
    ∃ before, writtenOf source before = front ∧
      withProducts (front ++ left :: right :: back) = before ++ left ::
        ((if left.lexeme.MissesOperator right.lexeme then [starBetween left right] else []) ++
          withProducts (right :: back)) := by
  induction front generalizing earlier with
  | nil => exact ⟨[], rfl, withProducts_cons_cons left right back⟩
  | cons first front ih =>
    obtain ⟨before, hbefore, hbody⟩ := ih (earlier ++ [first]) (by rwa [List.append_assoc])
    obtain ⟨next, others, hnext⟩ : ∃ next others, front ++ left :: right :: back = next :: others :=
      List.exists_cons_of_ne_nil (by simp)
    have hfirst := (h.written first (by simp)).isUnwritten_eq
    have hstar : (starBetween first next).isUnwritten source = true := by
      rw [List.cons_append, hnext] at h
      exact h.isUnwritten_starBetween
    refine ⟨first :: ((if first.lexeme.MissesOperator next.lexeme then [starBetween first next]
      else []) ++ before), ?_, ?_⟩
    · rw [writtenOf_cons_of_written hfirst, writtenOf_star_append hstar, hbefore]
    · rw [List.cons_append, hnext, withProducts_cons_cons, ← hnext, hbody]
      simp

/-- What stands around a star that was put in. -/
theorem exists_around_of_withProducts {star : Token} (hstar : star.isUnwritten source = true)
    (hwritten : ∀ token ∈ tokens, token.isUnwritten source = false) {before behind : List Token}
    (hbody : withProducts tokens = before ++ star :: behind) :
    ∃ left ∈ before.getLast?, ∃ right ∈ behind.head?, left.isUnwritten source = false ∧
      right.isUnwritten source = false ∧ left.lexeme.MissesOperator right.lexeme ∧
        star = starBetween left right := by
  have hother : ∀ token, token.isUnwritten source = false → token ≠ star := by
    rintro token ht rfl
    rw [ht] at hstar
    cases hstar
  induction tokens generalizing before with
  | nil => simp [withProducts] at hbody
  | cons left rest ih =>
    cases rest with
    | nil =>
      have hone : [left] = before ++ star :: behind := hbody
      cases before with
      | nil => exact absurd (List.cons.inj hone).1 (hother left (hwritten left (by simp)))
      | cons first before => simp at hone
    | cons right rest =>
      have hlater : ∀ token ∈ right :: rest, token.isUnwritten source = false := fun token ht =>
        hwritten token (List.mem_cons_of_mem _ ht)
      rw [withProducts_cons_cons] at hbody
      cases before with
      | nil => exact absurd (List.cons.inj hbody).1 (hother left (hwritten left (by simp)))
      | cons first before =>
        obtain ⟨rfl, htail⟩ := List.cons.inj hbody
        by_cases hmisses : left.lexeme.MissesOperator right.lexeme
        · rw [if_pos hmisses] at htail
          cases before with
          | nil =>
            -- The star in question is the one behind the first token.
            obtain ⟨hfound, rfl⟩ := List.cons.inj htail
            obtain ⟨others, hothers⟩ := withProducts_cons right rest
            have hright : right ∈ (withProducts (right :: rest)).head? := by
              rw [hothers]
              rfl
            exact ⟨left, rfl, right, hright, hwritten left (by simp), hwritten right (by simp),
              hmisses, hfound.symm⟩
          | cons second before =>
            obtain ⟨l, hl, hrest⟩ := ih hlater (List.cons.inj htail).2
            exact ⟨l, List.mem_getLast?_cons (List.mem_getLast?_cons hl), hrest⟩
        · rw [if_neg hmisses] at htail
          obtain ⟨l, hl, hrest⟩ := ih hlater htail
          exact ⟨l, List.mem_getLast?_cons hl, hrest⟩

/-- The stars that are put into a tiling stand where an operator is missing. -/
theorem Tiles.stitched_withProducts (h : Tiles 0 source tokens) :
    Stitched source (withProducts tokens) := by
  have hwritten := h.writtenOf_withProducts []
  refine ⟨fun front left right back hsplit => ?_, fun before star behind hbody hstar => ?_⟩
  · rw [hwritten] at hsplit
    subst hsplit
    obtain ⟨before, hbefore, hbody⟩ := Tiles.exists_withProducts_eq [] h
    obtain ⟨behind, hbehind⟩ := withProducts_cons right back
    refine ⟨before, behind, hbefore, ?_, by rw [hbody, hbehind]⟩
    have hright := (h.written right (by simp)).isUnwritten_eq
    have hback : writtenOf source (withProducts (right :: back)) = right :: back :=
      Tiles.writtenOf_withProducts (front ++ [left]) (by rwa [List.append_assoc])
    rw [hbehind, writtenOf_cons_of_written hright] at hback
    exact (List.cons.inj hback).2
  · exact exists_around_of_withProducts hstar (fun token ht => (h.written token ht).isUnwritten_eq)
      hbody

/-- With the stars put in, no operator is missing any more, up to the end of the source. -/
theorem isChain_withProducts (tokens : List Token) (last : Span) :
    (withProducts tokens ++ [(⟨.finish, last⟩ : Token)]).IsChain fun left right =>
      ¬ left.lexeme.MissesOperator right.lexeme := by
  have hstar : ∀ right : Lexeme, ¬ Lexeme.star.MissesOperator right := by
    simp [Lexeme.MissesOperator]
  have hbeforeStar : ∀ left : Lexeme, ¬ left.MissesOperator .star := by
    simp [Lexeme.MissesOperator]
  induction tokens with
  | nil => exact .singleton _
  | cons left rest ih =>
    cases rest with
    | nil => exact .cons_cons (by simp [Lexeme.MissesOperator]) (.singleton _)
    | cons right rest =>
      obtain ⟨others, hothers⟩ := withProducts_cons right rest
      rw [withProducts_cons_cons, List.cons_append, List.append_assoc]
      rw [hothers] at ih ⊢
      split
      · exact .cons_cons (hbeforeStar _) (.cons_cons (hstar _) ih)
      · next hmisses => exact .cons_cons hmisses ih

end Stitching

/-- The tokens of an accepted source end with its end. Of those before, the ones that are not
unwritten stars tile the source, the unwritten stars stand in their gaps where an operator is
missing, and then none is missing any more. -/
theorem ofText_tiles_and_stitched {source : List Char} {tokens : List Token}
    (h : ofText source = .ok tokens) :
    ∃ body, tokens = body ++ [⟨.finish, ⟨source.length, source.length⟩⟩] ∧
      Tiles 0 source (writtenOf source body) ∧
      Stitched source body ∧
      tokens.IsChain fun left right => ¬ left.lexeme.MissesOperator right.lexeme := by
  unfold ofText at h
  cases hscan : scan 0 source with
  | error e => rw [hscan] at h; cases h
  | ok written =>
    rw [hscan] at h
    cases h
    have htiles : Tiles 0 source written := (placed_of_scan hscan).tiles [] rfl
    refine ⟨withProducts written, rfl, ?_, htiles.stitched_withProducts, isChain_withProducts _ _⟩
    rwa [htiles.writtenOf_withProducts []]

/-- In `2 sin(x)x` an operator is missing twice, but not before the parenthesis of the call. -/
theorem ofText_tiles_and_stitched_calls :
    (ofText "2 sin(x)x".toList).toOption.map (List.map Token.span) =
        some [⟨0, 1⟩, ⟨1, 2⟩, ⟨2, 5⟩, ⟨5, 6⟩, ⟨6, 7⟩, ⟨7, 8⟩, ⟨8, 8⟩, ⟨8, 9⟩, ⟨9, 9⟩] ∧
      ∃ tokens body, ofText "2 sin(x)x".toList = .ok tokens ∧
        tokens = body ++ [⟨.finish, ⟨9, 9⟩⟩] ∧
        Tiles 0 "2 sin(x)x".toList (writtenOf "2 sin(x)x".toList body) ∧
        Stitched "2 sin(x)x".toList body ∧
        tokens.IsChain fun left right => ¬ left.lexeme.MissesOperator right.lexeme := by
  have hspans : (ofText "2 sin(x)x".toList).toOption.map (List.map Token.span) =
      some [⟨0, 1⟩, ⟨1, 2⟩, ⟨2, 5⟩, ⟨5, 6⟩, ⟨6, 7⟩, ⟨7, 8⟩, ⟨8, 8⟩, ⟨8, 9⟩, ⟨9, 9⟩] := by
    decide +kernel
  refine ⟨hspans, ?_⟩
  cases h : ofText "2 sin(x)x".toList with
  | error e => rw [h] at hspans; cases hspans
  | ok tokens =>
    obtain ⟨body, hbody⟩ := ofText_tiles_and_stitched h
    exact ⟨tokens, body, rfl, hbody⟩

end Token

end CurvePlot
