import CurvePlot.Proofs.Expr.SourceText
import CurvePlot.Proofs.Text.Cuts

/-!
# The lexemes of a text

`Token.Scans` says which row of lexemes a text is scanned as, without their places: each word is
taken in front of the characters that really follow, so that it is the longest one. A text has one
such row (`Token.Scans.unique`), and an accepted source is derived from its row with the unwritten
stars put in (`Expression.exists_scans`). The grammar gives a row one skeleton
(`Grammar.Derives.unique`).
-/

namespace CurvePlot

/-! ### Characters that begin words -/

namespace Lexeme

/-- The characters that are lexemes alone. -/
def signs : List Char :=
  ['+', '-', '\u2212', '*', '\u00D7', '\u22C5', '/', '\u00F7', '^', '(', ')', '|']

/-- A character with its own lexeme is one of these. -/
theorem mem_signs {c : Char} {l : Lexeme} (h : ofSign? c = some l) : c ∈ signs := by
  by_contra hmem
  simp only [signs, List.mem_cons, List.not_mem_nil, or_false, not_or] at hmem
  simp [ofSign?, hmem] at h

/-- A class of characters with all of these holds it. -/
theorem class_of_ofSign? {p : Char → Bool} (hp : signs.all p = true) {c : Char} {l : Lexeme}
    (h : ofSign? c = some l) : p c = true :=
  List.all_eq_true.mp hp c (mem_signs h)

/-- It is not blank. -/
theorem not_isBlank_of_ofSign? {c : Char} {l : Lexeme} (h : ofSign? c = some l) :
    Text.isBlank c = false := by
  have hclass : (!Text.isBlank c) = true :=
    class_of_ofSign? (p := fun c => !Text.isBlank c) (by decide +kernel) h
  simpa using hclass

/-- A character of a class without any of these has no lexeme of its own. -/
theorem ofSign?_of_class {p : Char → Bool} (hp : (signs.all fun c => !p c) = true) {c : Char}
    (h : p c = true) : ofSign? c = none := by
  cases hc : ofSign? c with
  | none => rfl
  | some l =>
    have hnot : (!p c) = true := class_of_ofSign? hp hc
    simp [h] at hnot

/-- A digit has no lexeme of its own. -/
theorem ofSign?_of_digit {c : Char} (h : Text.isAsciiDigit c = true) : ofSign? c = none :=
  ofSign?_of_class (by decide +kernel) h

end Lexeme

/-- A character of a name begins no number. -/
theorem Text.not_digit_of_isNameChar {c : Char} (h : isNameChar c = true) :
    isAsciiDigit c = false ∧ c ≠ '.' := by
  constructor
  · rw [Bool.eq_false_iff]
    intro hdigit
    have hlow : c.toNat ≤ 0x39 := (toNat_of_digit hdigit).2
    have hletter : isAsciiLetter c = false := by
      simp only [isAsciiLetter, Char.le_def, UInt32.le_iff_toNat_le, Bool.or_eq_false_iff,
        Bool.and_eq_false_iff, decide_eq_false_iff_not]
      exact ⟨Or.inl fun hc => absurd (show 0x61 ≤ c.toNat from hc) (by omega),
        Or.inl fun hc => absurd (show 0x41 ≤ c.toNat from hc) (by omega)⟩
    have hbeyond : ¬0x80 ≤ c.toNat := by omega
    have hunderscore : (c == '_') = false := by
      rw [beq_eq_false_iff_ne]
      rintro rfl
      exact absurd hlow (by decide)
    simp [isNameChar, isAlphabetic, hletter, hbeyond, hunderscore] at h
  · rintro rfl
    exact absurd h (by decide)

/-- A character of a name is no sign. -/
theorem Text.ofSign?_of_isNameChar {c : Char} (h : isNameChar c = true) :
    Lexeme.ofSign? c = none :=
  Lexeme.ofSign?_of_class (by decide +kernel) h

/-- The codes of the blanks. -/
def Text.blankCodes : List ℕ :=
  [0x9, 0xA, 0xB, 0xC, 0xD, 0x20, 0x85, 0xA0, 0x1680, 0x2000, 0x2001, 0x2002, 0x2003, 0x2004,
    0x2005, 0x2006, 0x2007, 0x2008, 0x2009, 0x200A, 0x2028, 0x2029, 0x202F, 0x205F, 0x3000]

/-- A class of characters without any of these holds no blank. -/
theorem Text.not_isBlank_of_class {p : Char → Bool}
    (hp : (blankCodes.all fun n => !p (Char.ofNat n)) = true) {c : Char} (h : p c = true) :
    isBlank c = false := by
  rw [Bool.eq_false_iff]
  intro hblank
  have hcode : c.toNat ∈ blankCodes := by
    simp only [isBlank, Bool.or_eq_true, Bool.and_eq_true, decide_eq_true_eq, beq_iff_eq] at hblank
    generalize c.toNat = n at hblank ⊢
    -- Two of the conditions are ranges, whose codes are gone through; the others name one code.
    rcases hblank with (((((((((⟨hlow, hhigh⟩ | rfl) | rfl) | rfl) | rfl) | ⟨hlow, hhigh⟩) | rfl) |
      rfl) | rfl) | rfl) | rfl
    case inl.inl.inl.inl.inl.inl.inl.inl.inl.inl => interval_cases n <;> decide
    case inl.inl.inl.inl.inl.inr => interval_cases n <;> decide
    all_goals decide
  have hnot : (!p (Char.ofNat c.toNat)) = true := List.all_eq_true.mp hp c.toNat hcode
  simp [Char.ofNat_toNat, h] at hnot

/-- A character of a name is not blank. -/
theorem Text.not_isBlank_of_isNameChar {c : Char} (h : isNameChar c = true) :
    isBlank c = false :=
  not_isBlank_of_class (by decide +kernel) h

/-- A digit of any script is not blank. -/
theorem Text.not_isBlank_of_isDecimalDigit {c : Char} (h : isDecimalDigit c = true) :
    isBlank c = false :=
  not_isBlank_of_class (by decide +kernel) h

/-! ### Words -/

namespace Token

/-- Whether a text that begins with the word and goes on with the rest is scanned so that the word
is the first lexeme. -/
def Heads (l : Lexeme) (word rest : List Char) : Prop :=
  ∃ c tail, word = c :: tail ∧ Text.isBlank c = false ∧
    scanLexeme c (tail ++ rest) = .ok (l, word.length)

/-- A sign is a word before anything. -/
theorem heads_sign {c : Char} {l : Lexeme} (h : Lexeme.ofSign? c = some l) (rest : List Char) :
    Heads l [c] rest := by
  refine ⟨c, [], rfl, Lexeme.not_isBlank_of_ofSign? h, ?_⟩
  unfold scanLexeme
  rw [h]
  rfl

/-- A number that begins with a point ends before no second one. -/
def OnePoint (literal : Literal) (rest : List Char) : Prop :=
  literal.whole = [] → literal.power = none → ∀ c ∈ rest.head?, c ≠ '.'

/-- A number is scanned before what it ends before. -/
theorem scanNumber_eq_ok {literal : Literal} {rest : List Char} {l : Lexeme} {length : ℕ} :
    scanNumber literal rest = .ok (l, length) ↔
      OnePoint literal rest ∧ l = .number literal ∧ length = literal.text.length := by
  unfold scanNumber
  split
  · next hwhole hpower => simp [OnePoint, hwhole, hpower]
  · next hnot =>
    simp only [Except.ok.injEq, Prod.mk.injEq]
    refine ⟨fun h => ⟨fun hwhole hpower c hc hpoint => ?_, h.1.symm, h.2.symm⟩,
      fun h => ⟨h.2.1.symm, h.2.2.symm⟩⟩
    subst hpoint
    obtain ⟨more, rfl⟩ := List.head?_eq_some_iff.mp hc
    exact hnot more hwhole hpower rfl

/-- A literal is a word before a text that does not go on with it. -/
theorem heads_number {literal : Literal} (hl : literal.WellFormed Text.isAsciiDigit)
    {rest : List Char} (hends : literal.Ends Text.isAsciiDigit rest) (hpoint : OnePoint literal rest) :
    Heads (.number literal) literal.text rest := by
  obtain ⟨c, tail, htext⟩ := List.exists_cons_of_ne_nil (Literal.text_ne_nil hl)
  have hscan := Literal.scan?_of_ends Literal.isDigitClass_isAsciiDigit hl hends
  rw [htext, List.cons_append] at hscan
  obtain ⟨hsign, hblank⟩ : Lexeme.ofSign? c = none ∧ Text.isBlank c = false := by
    rcases Literal.head_text hl (show c ∈ literal.text.head? by rw [htext]; rfl) with hc | rfl
    · exact ⟨Lexeme.ofSign?_of_digit hc, Text.not_isBlank_of_isGraphic (Text.isGraphic_of_digit hc)⟩
    · exact ⟨rfl, by decide⟩
  refine ⟨c, tail, htext, hblank, ?_⟩
  unfold scanLexeme
  rw [hsign]
  simp only [hscan]
  exact scanNumber_eq_ok.mpr ⟨hpoint, rfl, rfl⟩

/-- A name is a word before a character that no name holds. -/
theorem heads_name {word rest : List Char} (hne : word ≠ [])
    (hword : ∀ c ∈ word, Text.isNameChar c = true)
    (hrest : ∀ c ∈ rest.head?, Text.isNameChar c = false) :
    Heads (.name (String.ofList word)) word rest := by
  obtain ⟨c, tail, rfl⟩ := List.exists_cons_of_ne_nil hne
  have hc := hword c List.mem_cons_self
  have htail : (tail ++ rest).takeWhile Text.isNameChar = tail :=
    (Text.takeWhile_dropWhile_append (fun d hd => hword d (List.mem_cons_of_mem c hd)) hrest).1
  refine ⟨c, tail, rfl, Text.not_isBlank_of_isNameChar hc, ?_⟩
  unfold scanLexeme
  rw [Text.ofSign?_of_isNameChar hc]
  simp only [Literal.scan?_eq_none (Text.not_digit_of_isNameChar hc), hc, if_true, htail]

/-- The first word of a text is a sign, a number or a name, each before what it ends before. -/
theorem Heads.cases {l : Lexeme} {word rest : List Char} (h : Heads l word rest) :
    (∃ c, word = [c] ∧ Lexeme.ofSign? c = some l) ∨
    (∃ literal, l = .number literal ∧ word = literal.text ∧
      literal.WellFormed Text.isAsciiDigit ∧ literal.Ends Text.isAsciiDigit rest ∧
      OnePoint literal rest) ∨
    (l = .name (String.ofList word) ∧ word ≠ [] ∧ (∀ c ∈ word, Text.isNameChar c = true) ∧
      ∀ c ∈ rest.head?, Text.isNameChar c = false) := by
  obtain ⟨c, tail, rfl, -, hscan⟩ := h
  unfold scanLexeme at hscan
  split at hscan
  · next sign hsign =>
    simp only [Except.ok.injEq, Prod.mk.injEq, List.length_cons] at hscan
    obtain ⟨rfl, hlength⟩ := hscan
    have htail : tail = [] := List.length_eq_zero_iff.mp (by omega)
    exact Or.inl ⟨c, by rw [htail], hsign⟩
  · split at hscan
    · next literal after hliteral =>
      have htext := Literal.scan?_text hliteral
      obtain ⟨hpoint, rfl, hlength⟩ := scanNumber_eq_ok.mp hscan
      obtain ⟨hword, rfl⟩ := List.append_inj htext hlength.symm
      exact Or.inr (Or.inl ⟨literal, rfl, hword.symm, Literal.wellFormed_of_scan? hliteral,
        Literal.ends_of_scan? hliteral, hpoint⟩)
    · split at hscan
      · next hname =>
        simp only [Except.ok.injEq, Prod.mk.injEq, List.length_cons, Nat.add_right_cancel_iff] at hscan
        obtain ⟨rfl, hlength⟩ := hscan
        have hparts : (tail ++ rest).takeWhile Text.isNameChar ++
            (tail ++ rest).dropWhile Text.isNameChar = tail ++ rest :=
          List.takeWhile_append_dropWhile
        obtain ⟨htake, hdrop⟩ := List.append_inj hparts hlength
        refine Or.inr (Or.inr ⟨by rw [htake], by simp, ?_, ?_⟩)
        · intro d hd
          rcases List.mem_cons.mp hd with rfl | hd
          · exact hname
          · rw [← htake] at hd
            exact List.mem_takeWhile_imp hd
        · intro d hd
          rw [← hdrop] at hd
          exact Text.head_dropWhile hd
      · cases hscan

/-- The row of lexemes that a text is scanned as. -/
inductive Scans : List Char → List Lexeme → Prop
  /-- The empty text holds none. -/
  | nil : Scans [] []
  /-- A blank is passed over. -/
  | blank {c : Char} {rest : List Char} {ls : List Lexeme} (hc : Text.isBlank c = true)
    (h : Scans rest ls) : Scans (c :: rest) ls
  /-- A word is a lexeme. -/
  | word {l : Lexeme} {word rest : List Char} {ls : List Lexeme} (hword : Heads l word rest)
    (h : Scans rest ls) : Scans (word ++ rest) (l :: ls)

/-- A lexeme takes characters of the text alone. -/
theorem length_le_of_scanLexeme {c : Char} {rest : List Char} {l : Lexeme} {n : ℕ}
    (h : scanLexeme c rest = .ok (l, n + 1)) : n ≤ rest.length := by
  unfold scanLexeme at h
  split at h
  · simp only [Except.ok.injEq, Prod.mk.injEq] at h
    omega
  · split at h
    · next literal after hliteral =>
      have htext := congrArg List.length (Literal.scan?_text hliteral)
      have hlength := (scanNumber_eq_ok.mp h).2.2
      simp only [List.length_append, List.length_cons] at htext
      omega
    · split at h
      · simp only [Except.ok.injEq, Prod.mk.injEq, List.length_cons, Nat.add_right_cancel_iff] at h
        rw [← h.2]
        exact (List.takeWhile_sublist _).length_le
      · cases h

/-- The tokens of a text that begins at a place, with their own places. -/
inductive Placed : ℕ → List Char → List Token → Prop
  /-- The empty text holds none. -/
  | nil {place : ℕ} : Placed place [] []
  /-- A blank takes one place. -/
  | blank {place : ℕ} {c : Char} {rest : List Char} {tokens : List Token}
    (hc : Text.isBlank c = true) (h : Placed (place + 1) rest tokens) : Placed place (c :: rest) tokens
  /-- A word takes as many places as it has characters. -/
  | word {place : ℕ} {l : Lexeme} {word rest : List Char} {tokens : List Token}
    (hword : Heads l word rest) (h : Placed (place + word.length) rest tokens) :
    Placed place (word ++ rest) (⟨l, ⟨place, place + word.length⟩⟩ :: tokens)

/-- Scanning gives every token its place. -/
theorem placed_of_scan {place : ℕ} {source : List Char} {tokens : List Token}
    (h : scan place source = .ok tokens) : Placed place source tokens := by
  fun_induction scan place source generalizing tokens with
  | case1 => cases h; exact .nil
  | case2 place c rest hblank ih => exact .blank hblank (ih h)
  | case3 => cases h
  | case4 => cases h
  | case5 place c rest hblank lexeme length hlexeme others hothers ih =>
    cases h
    obtain ⟨n, rfl⟩ : ∃ n, length = n + 1 :=
      ⟨length - 1, by have := (writes_of_scanLexeme hlexeme).2; omega⟩
    rw [Nat.add_sub_cancel] at hothers ih
    have hle := length_le_of_scanLexeme hlexeme
    have hlength : (c :: rest.take n).length = n + 1 := by
      rw [List.length_cons, List.length_take, Nat.min_eq_left hle]
    have hword : Heads lexeme (c :: rest.take n) (rest.drop n) := by
      refine ⟨c, rest.take n, rfl, by simpa using hblank, ?_⟩
      rw [List.take_append_drop, hlexeme, hlength]
    have hplaced := Placed.word hword (hlength.symm ▸ ih hothers)
    rwa [List.cons_append, List.take_append_drop, hlength] at hplaced

/-- Without their places the tokens are the row of lexemes. -/
theorem Placed.scans {place : ℕ} {source : List Char} {tokens : List Token}
    (h : Placed place source tokens) : Scans source (lexemes tokens) := by
  induction h with
  | nil => exact .nil
  | blank hc _ ih => exact .blank hc ih
  | word hword _ ih => exact .word hword ih

/-- The tokens that are scanned have the lexemes of the text. -/
theorem scans_of_scan {place : ℕ} {source : List Char} {tokens : List Token}
    (h : scan place source = .ok tokens) : Scans source (lexemes tokens) :=
  (placed_of_scan h).scans

/-- A text with these lexemes is scanned, wherever it begins. -/
theorem Scans.exists_scan {source : List Char} {ls : List Lexeme} (h : Scans source ls) (place : ℕ) :
    ∃ tokens, scan place source = .ok tokens ∧ lexemes tokens = ls := by
  induction h generalizing place with
  | nil => exact ⟨[], by rw [scan], rfl⟩
  | blank hc h ih =>
    obtain ⟨tokens, hscan, hlexemes⟩ := ih (place + 1)
    exact ⟨tokens, by rw [scan, if_pos hc, hscan], hlexemes⟩
  | @word l word rest ls hword h ih =>
    obtain ⟨c, tail, rfl, hblank, hscan⟩ := hword
    obtain ⟨tokens, hrest, hlexemes⟩ := ih (place + (c :: tail).length)
    refine ⟨⟨l, ⟨place, place + (c :: tail).length⟩⟩ :: tokens, ?_, by rw [← hlexemes]; rfl⟩
    have hdrop : (tail ++ rest).drop ((c :: tail).length - 1) = rest := by simp
    rw [List.cons_append, scan, if_neg (by simp [hblank]), hscan]
    simp only [hdrop, hrest]

/-- A text has one row of lexemes. -/
theorem Scans.unique {source : List Char} {ls ms : List Lexeme} (hls : Scans source ls)
    (hms : Scans source ms) : ls = ms := by
  obtain ⟨tokens, hscan, rfl⟩ := hls.exists_scan 0
  obtain ⟨others, hothers, rfl⟩ := hms.exists_scan 0
  rw [hscan] at hothers
  cases hothers
  rfl

/-- A sign at the head of a text is its first lexeme. -/
theorem Scans.of_cons {c : Char} {l : Lexeme} (hc : Lexeme.ofSign? c = some l) {rest : List Char}
    {ls : List Lexeme} (h : Scans (c :: rest) ls) : ∃ ms, ls = l :: ms ∧ Scans rest ms := by
  generalize htext : c :: rest = text at h
  cases h with
  | nil => cases htext
  | blank hblank h =>
    obtain ⟨rfl, rfl⟩ := List.cons.inj htext
    rw [Lexeme.not_isBlank_of_ofSign? hc] at hblank
    cases hblank
  | @word l' word rest' ls hword h =>
    have hsame : l' = l ∧ word = [c] := by
      obtain ⟨d, tail, rfl, -, hscan⟩ := hword
      obtain ⟨rfl, -⟩ := List.cons.inj htext
      simp only [scanLexeme, hc, Except.ok.injEq, Prod.mk.injEq, List.length_cons] at hscan
      have htail : tail = [] := List.length_eq_zero_iff.mp (by omega)
      exact ⟨hscan.1.symm, by rw [htail]⟩
    obtain ⟨rfl, rfl⟩ := hsame
    obtain ⟨-, rfl⟩ := List.cons.inj htext
    exact ⟨ls, rfl, h⟩

end Token

/-! ### Unwritten stars -/

/-- The row of lexemes with the unwritten stars put in. -/
def Lexeme.withProducts : List Lexeme → List Lexeme
  | left :: right :: rest =>
    if Token.impliesProduct left right then left :: star :: withProducts (right :: rest)
    else left :: withProducts (right :: rest)
  | ls => ls

/-- Stars are put in by the lexemes alone. -/
theorem Token.lexemes_withProducts (tokens : List Token) :
    lexemes (withProducts tokens) = Lexeme.withProducts (lexemes tokens) := by
  fun_induction withProducts tokens with
  | case1 left right rest himplies ih =>
    simp only [lexemes, List.map_cons] at ih ⊢
    rw [Lexeme.withProducts, if_pos himplies, ih]
  | case2 left right rest himplies ih =>
    simp only [lexemes, List.map_cons] at ih ⊢
    rw [Lexeme.withProducts, if_neg himplies, ih]
  | case3 tokens hshort =>
    cases tokens with
    | nil => rfl
    | cons token tokens =>
      cases tokens with
      | nil => rfl
      | cons next rest => exact absurd rfl (hshort token next rest)

/-- Every row of lexemes is that of a list of tokens. -/
theorem Token.exists_lexemes_eq (ls : List Lexeme) : ∃ tokens : List Token, lexemes tokens = ls := by
  refine ⟨ls.map fun l => ⟨l, ⟨0, 0⟩⟩, ?_⟩
  rw [lexemes, List.map_map]
  exact List.map_id ls

/-- So a lexeme stays when the stars are put in, as a token does. -/
theorem Lexeme.mem_withProducts {l : Lexeme} {ls : List Lexeme} (h : l ∈ ls) :
    l ∈ withProducts ls := by
  obtain ⟨tokens, rfl⟩ := Token.exists_lexemes_eq ls
  obtain ⟨token, htoken, rfl⟩ := List.mem_map.mp h
  rw [← Token.lexemes_withProducts]
  exact List.mem_map_of_mem (Token.mem_withProducts_of_mem htoken)

/-! ### Accepted sources -/

/-- Whether so many levels and one are just enough room to read the source. -/
def Expression.NestedTo (source : List Char) (depth : ℕ) : Prop :=
  ∃ tokens, Token.ofText source = .ok tokens ∧
    (∃ p, Expr.read variableName (depth + 1) 0 tokens = .ok p) ∧
      Expr.TooDeep (Expr.read variableName depth 0 tokens)

/-- A source with the lexemes of a row has tokens, whose body is the row with unwritten stars. -/
theorem Token.Scans.exists_ofText {source : List Char} {ls : List Lexeme} (h : Scans source ls) :
    ∃ tokens, ofText source = .ok tokens ∧ body tokens = Lexeme.withProducts ls := by
  obtain ⟨scanned, hscan, rfl⟩ := h.exists_scan 0
  have htokens : ∃ tokens, ofText source = .ok tokens := by
    rw [ofText, hscan]
    exact ⟨_, rfl⟩
  obtain ⟨tokens, htokens⟩ := htokens
  obtain ⟨scanned', hscan', hbody⟩ := Token.exists_scan htokens
  rw [hscan] at hscan'
  cases hscan'
  exact ⟨tokens, htokens, hbody.trans (lexemes_withProducts scanned)⟩

/-- A source is nested to the depth that it is derived with, and to no other. -/
theorem Expression.nestedTo_iff_of_nests {source : List Char} {ls : List Lexeme} {chain depth : ℕ}
    {t : Skeleton Numeral} (hscans : Token.Scans source ls)
    (hnests : Grammar.Nests variableName .expr chain depth (Lexeme.withProducts ls) t) (d : ℕ) :
    NestedTo source d ↔ d = depth := by
  obtain ⟨tokens, htokens, hbody⟩ := hscans.exists_ofText
  rw [← hbody] at hnests
  have hreads := fun room => Expr.readsWithin_of_nests htokens hnests room
  constructor
  · rintro ⟨others, hothers, ⟨p, hread⟩, span, hdeep⟩
    rw [htokens] at hothers
    cases hothers
    obtain ⟨_, -, ⟨hroom, -⟩ | ⟨-, _, htoo⟩⟩ := hreads (d + 1)
    · obtain ⟨_, -, ⟨-, _, -, hok⟩ | ⟨hless, -⟩⟩ := hreads d
      · rw [hok] at hdeep
        cases hdeep
      · omega
    · rw [htoo] at hread
      cases hread
  · rintro rfl
    refine ⟨tokens, htokens, ?_, ?_⟩
    · obtain ⟨_, -, ⟨-, e, -, hread⟩ | ⟨hroom, -⟩⟩ := hreads (d + 1)
      · exact ⟨_, hread⟩
      · omega
    · obtain ⟨_, -, ⟨hroom, -⟩ | ⟨-, hdeep⟩⟩ := hreads d
      · omega
      · exact hdeep

/-- An accepted source is derived from its lexemes with the unwritten stars put in, and nested less
deep than the limit. -/
theorem Expression.exists_nests {source : List Char} {e : Expression} (h : ofText source = .ok e) :
    ∃ ls chain depth, Token.Scans source ls ∧ depth < nestingLimit ∧
      Grammar.Nests variableName .expr chain depth (Lexeme.withProducts ls) e.tree.skeleton := by
  obtain ⟨tokens, htokens, htree⟩ := exists_tokens h
  obtain ⟨chain, depth, hdepth, hnests⟩ := Expr.exists_nests_of_ofTokens htokens htree
  obtain ⟨scanned, hscan, hbody⟩ := Token.exists_scan htokens
  rw [hbody, Token.lexemes_withProducts] at hnests
  exact ⟨_, chain, depth, Token.scans_of_scan hscan, hdepth, hnests⟩

/-- So an accepted source is derived. -/
theorem Expression.exists_scans {source : List Char} {e : Expression} (h : ofText source = .ok e) :
    ∃ ls, Token.Scans source ls ∧
      Grammar.Derives variableName .expr (Lexeme.withProducts ls) e.tree.skeleton := by
  obtain ⟨ls, _, _, hscans, -, hnests⟩ := exists_nests h
  exact ⟨ls, hscans, hnests.derives⟩

/-- A source that is so derived is accepted if its depth is below the limit, and refused for its
depth otherwise. -/
theorem Expression.ofText_of_nests {source : List Char} {ls : List Lexeme} {chain depth : ℕ}
    {t : Skeleton Numeral} (hscans : Token.Scans source ls)
    (hnests : Grammar.Nests variableName .expr chain depth (Lexeme.withProducts ls) t) :
    (depth < nestingLimit ∧ ∃ e, ofText source = .ok e ∧ e.tree.skeleton = t) ∨
      (nestingLimit ≤ depth ∧ Expr.TooDeep (ofText source)) := by
  obtain ⟨tokens, htokens, hbody⟩ := hscans.exists_ofText
  rw [← hbody] at hnests
  rw [ofText_eq_map htokens]
  rcases Expr.ofTokens_of_nests htokens hnests with
    ⟨hdepth, tree, htree, hskeleton⟩ | ⟨hdepth, span, hdeep⟩
  · rw [htree]
    exact Or.inl ⟨hdepth, _, rfl, hskeleton⟩
  · rw [hdeep]
    exact Or.inr ⟨hdepth, span, rfl⟩

/-- A row of lexemes is an expression of one skeleton at most. -/
theorem Grammar.Derives.unique {v : String} {ls : List Lexeme} {s t : Skeleton Numeral}
    (hs : Derives v .expr ls s) (ht : Derives v .expr ls t) : s = t := by
  obtain ⟨taken, htaken⟩ := Token.exists_lexemes_eq ls
  -- With room enough both are what is read from one list of tokens.
  have hread : ∀ u : Skeleton Numeral, Derives v .expr ls u →
      ∃ e : Expr Numeral, e.skeleton = u ∧
        Expr.read v (taken.length + 1) 0 taken = .ok (e, []) := by
    intro u hu
    obtain ⟨chain, depth, hnests⟩ := hu.exists_nests
    have hend : Expr.Below 0 [] := Expr.below_of_operator?_eq_none rfl
    have hreads : Expr.ReadsWithin depth (taken.length + 1)
        (Expr.read v (taken.length + 1) 0 (taken ++ [])) u [] :=
      (Expr.settles_of_nests hnests).reads htaken (Nat.zero_le _) (hend.mono (Nat.zero_le _)) hend
    rw [List.append_nil] at hreads
    obtain ⟨-, hok⟩ | ⟨-, hdeep⟩ := hreads
    · exact hok
    · exact absurd hdeep (Expr.shallow_read v _ 0 taken (Nat.lt_succ_self _))
  obtain ⟨d, rfl, hd⟩ := hread s hs
  obtain ⟨e, rfl, he⟩ := hread t ht
  rw [hd] at he
  cases he
  rfl

end CurvePlot
