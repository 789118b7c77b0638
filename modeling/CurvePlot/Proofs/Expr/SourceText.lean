import CurvePlot.Expr.Expression
import CurvePlot.Proofs.Expr.PrecedenceReading
import CurvePlot.Proofs.Number.DecimalText

/-!
# What a source says about its expression

Every character of a source that is no blank belongs to a token, and the tokens consist of such
characters (`Token.exists_of_mem_scan`, `Token.mem_of_mem_scan`). The variable occurs in the tree
just when its name is among the tokens (`Grammar.Derives.hasVariable_iff`); in a source without
parentheses there is no call, and every name is the variable's or a constant's. So an accepted
source without parentheses depends on the variable just when the letter occurs
(`Expression.mem_of_hasVariable`, `Expression.hasVariable_of_mem`).
-/

namespace CurvePlot

/-! ### Characters of tokens -/

/-- Whether a text is one that the lexeme is scanned from. -/
def Lexeme.Writes : Lexeme → List Char → Prop
  | number literal, text => literal.WellFormed Text.isAsciiDigit ∧ literal.text = text
  | name written, text => written.toList = text ∧ ∀ c ∈ text, Text.isNameChar c = true
  | sign, text => ∃ c, text = [c] ∧ ofSign? c = some sign

namespace Token

/-- The characters that a scanned lexeme takes write it. -/
theorem writes_of_scanLexeme {c : Char} {rest : List Char} {lexeme : Lexeme} {length : ℕ}
    (h : scanLexeme c rest = .ok (lexeme, length)) :
    lexeme.Writes ((c :: rest).take length) ∧ 0 < length := by
  unfold scanLexeme at h
  split at h
  · next sign hsign =>
    cases h
    refine ⟨?_, Nat.one_pos⟩
    have hwrites : ∃ d, [c] = [d] ∧ Lexeme.ofSign? d = some lexeme := ⟨c, rfl, hsign⟩
    cases lexeme with
    | number literal => exact absurd (Lexeme.mem_of_ofSign? hsign) (by simp)
    | name written => exact absurd (Lexeme.mem_of_ofSign? hsign) (by simp)
    | _ => exact hwrites
  · split at h
    · next literal after hscan =>
      have hwell := Literal.wellFormed_of_scan? hscan
      have htext := Literal.scan?_text hscan
      unfold scanNumber at h
      split at h
      · cases h
      · cases h
        refine ⟨⟨hwell, ?_⟩, List.length_pos_iff.mpr (Literal.text_ne_nil hwell)⟩
        rw [← htext, List.take_left]
    · split at h
      · next hname =>
        cases h
        have hsplit : c :: rest = (c :: rest.takeWhile Text.isNameChar) ++
            rest.dropWhile Text.isNameChar := by
          rw [List.cons_append, List.takeWhile_append_dropWhile]
        have htake : (c :: rest).take (c :: rest.takeWhile Text.isNameChar).length =
            c :: rest.takeWhile Text.isNameChar := by
          rw [hsplit, List.take_left]
        rw [htake]
        refine ⟨⟨String.toList_ofList, ?_⟩, Nat.succ_pos _⟩
        intro d hd
        rcases List.mem_cons.mp hd with rfl | hd
        · exact hname
        · exact List.mem_takeWhile_imp hd
      · cases h

/-- A character of the source is blank or belongs to a token. -/
theorem exists_of_mem_scan {place : ℕ} {source : List Char} {tokens : List Token}
    (h : scan place source = .ok tokens) {c : Char} (hc : c ∈ source) :
    Text.isBlank c = true ∨
      ∃ token ∈ tokens, ∃ text, token.lexeme.Writes text ∧ c ∈ text := by
  fun_induction scan place source generalizing tokens with
  | case1 => cases hc
  | case2 place d rest hblank ih =>
    rcases List.mem_cons.mp hc with rfl | hc
    · exact Or.inl hblank
    · exact ih h hc
  | case3 => cases h
  | case4 => cases h
  | case5 place d rest hblank lexeme length hlexeme others hothers ih =>
    cases h
    obtain ⟨hwrites, hpos⟩ := writes_of_scanLexeme hlexeme
    have hsplit : d :: rest = (d :: rest).take length ++ rest.drop (length - 1) := by
      obtain ⟨n, rfl⟩ : ∃ n, length = n + 1 := ⟨length - 1, by omega⟩
      rw [List.take_succ_cons, List.cons_append, Nat.add_sub_cancel, List.take_append_drop]
    rw [hsplit] at hc
    rcases List.mem_append.mp hc with hc | hc
    · exact Or.inr ⟨_, List.mem_cons_self, _, hwrites, hc⟩
    · rcases ih hothers hc with hblank | ⟨token, htoken, text, htext, hmem⟩
      · exact Or.inl hblank
      · exact Or.inr ⟨token, List.mem_cons_of_mem _ htoken, text, htext, hmem⟩

/-- Tokens are written by characters of the source. -/
theorem mem_of_mem_scan {place : ℕ} {source : List Char} {tokens : List Token}
    (h : scan place source = .ok tokens) {token : Token} (htoken : token ∈ tokens) :
    ∃ text, token.lexeme.Writes text ∧ ∀ c ∈ text, c ∈ source := by
  fun_induction scan place source generalizing tokens with
  | case1 => cases h; cases htoken
  | case2 place d rest hblank ih =>
    obtain ⟨text, hwrites, hmem⟩ := ih h htoken
    exact ⟨text, hwrites, fun c hc => List.mem_cons_of_mem _ (hmem c hc)⟩
  | case3 => cases h
  | case4 => cases h
  | case5 place d rest hblank lexeme length hlexeme others hothers ih =>
    cases h
    rcases List.mem_cons.mp htoken with rfl | htoken
    · exact ⟨_, (writes_of_scanLexeme hlexeme).1, fun c hc => List.mem_of_mem_take hc⟩
    · obtain ⟨text, hwrites, hmem⟩ := ih hothers htoken
      exact ⟨text, hwrites, fun c hc => List.mem_cons_of_mem _ (List.mem_of_mem_drop (hmem c hc))⟩

/-- Putting in the unwritten stars takes no token away. -/
theorem mem_withProducts_of_mem {tokens : List Token} {token : Token} (h : token ∈ tokens) :
    token ∈ withProducts tokens := by
  fun_induction withProducts tokens with
  | case1 left right rest himplies ih =>
    rcases List.mem_cons.mp h with rfl | h
    · exact List.mem_cons_self
    · exact List.mem_cons_of_mem _ (List.mem_cons_of_mem _ (ih h))
  | case2 left right rest himplies ih =>
    rcases List.mem_cons.mp h with rfl | h
    · exact List.mem_cons_self
    · exact List.mem_cons_of_mem _ (ih h)
  | case3 tokens => exact h

/-- A character of a source is blank, a lexeme alone, or one of a number or of a name in its
body. -/
theorem mem_source_cases {source : List Char} {tokens : List Token}
    (h : ofText source = .ok tokens) {c : Char} (hc : c ∈ source) :
    Text.isBlank c = true ∨ (∃ l, Lexeme.ofSign? c = some l) ∨
      (∃ literal : Literal, literal.WellFormed Text.isAsciiDigit ∧ c ∈ literal.text) ∨
      ∃ name, Lexeme.name name ∈ body tokens ∧ c ∈ name.toList ∧ Text.isNameChar c = true := by
  obtain ⟨scanned, hscan, hbody⟩ := exists_scan h
  rcases exists_of_mem_scan hscan hc with hblank | ⟨token, htoken, text, hwrites, hmem⟩
  · exact Or.inl hblank
  · have hlexeme : token.lexeme ∈ body tokens := by
      rw [hbody]
      exact List.mem_map_of_mem (mem_withProducts_of_mem htoken)
    generalize token.lexeme = l at hwrites hlexeme
    have hsign : (∃ d, text = [d] ∧ Lexeme.ofSign? d = some l) →
        ∃ l, Lexeme.ofSign? c = some l := by
      rintro ⟨d, rfl, hd⟩
      exact ⟨l, List.mem_singleton.mp hmem ▸ hd⟩
    cases l with
    | number literal =>
      obtain ⟨hwell, rfl⟩ := hwrites
      exact Or.inr (Or.inr (Or.inl ⟨literal, hwell, hmem⟩))
    | name name =>
      obtain ⟨rfl, hname⟩ := hwrites
      exact Or.inr (Or.inr (Or.inr ⟨name, hlexeme, hmem, hname c hmem⟩))
    | _ => exact Or.inr (Or.inl (hsign hwrites))

/-- A lexeme of the body is written by characters of the source, unless it is a star. -/
theorem mem_of_mem_body {source : List Char} {tokens : List Token}
    (h : ofText source = .ok tokens) {l : Lexeme} (hl : l ∈ body tokens) :
    l = .star ∨ ∃ text, l.Writes text ∧ ∀ c ∈ text, c ∈ source := by
  obtain ⟨scanned, hscan, hbody⟩ := exists_scan h
  rw [hbody] at hl
  obtain ⟨token, htoken, rfl⟩ := List.mem_map.mp hl
  rcases mem_withProducts htoken with htoken | hstar
  · exact Or.inr (mem_of_mem_scan hscan htoken)
  · exact Or.inl hstar

end Token

/-! ### The variable -/

/-- Whether the variable occurs. -/
def Skeleton.hasVariable {ν : Type} : Skeleton ν → Bool
  | number _ | constant _ => false
  | var => true
  | binary _ left right => left.hasVariable || right.hasVariable
  | negation operand => operand.hasVariable
  | call _ argument => argument.hasVariable

/-- The places of parts do not matter for it. -/
@[simp] theorem Expr.hasVariable_skeleton {ν : Type} (e : Expr ν) :
    e.skeleton.hasVariable = e.hasVariable := by
  induction e <;> simp_all [skeleton, Skeleton.hasVariable, hasVariable]

namespace Grammar

variable {v : String} {level : Level} {ls : List Lexeme} {t : Skeleton Numeral}

/-- The variable occurs just when its name does. -/
theorem Derives.hasVariable_iff (h : Derives v level ls t) :
    t.hasVariable = true ↔ Lexeme.name v ∈ ls := by
  induction h with
  | number literal => simp [Skeleton.hasVariable]
  | var => simp [Skeleton.hasVariable]
  | constant hname _ _ => simp [Skeleton.hasVariable, hname.symm]
  | call hname _ _ ih => simp [Skeleton.hasVariable, hname.symm, ih]
  | parentheses _ ih => simp [ih]
  | bars _ ih => simp [Skeleton.hasVariable, ih]
  | ofAtom _ ih | ofPower _ ih | ofUnary _ ih | ofTerm _ ih => exact ih
  | power _ _ ihl ihr => simp [Skeleton.hasVariable, ihl, ihr]
  | minus _ ih => simp [Skeleton.hasVariable, ih]
  | plus _ ih => simp [ih]
  | product ho _ _ ihl ihr | sum ho _ _ ihl ihr =>
    rcases ho with rfl | rfl <;> simp [Skeleton.hasVariable, Operator.lexeme, ihl, ihr]

/-- Where nothing is called, a name is the variable's or a constant's. -/
theorem Derives.name_cases (h : Derives v level ls t) (hopening : Lexeme.opening ∉ ls)
    {name : String} (hname : Lexeme.name name ∈ ls) :
    name = v ∨ (NamedConstant.ofName? name).isSome = true := by
  induction h with
  | number literal => simp at hname
  | var => simpa using Or.inl hname
  | constant _ _ hconstant =>
    simp only [List.mem_singleton, Lexeme.name.injEq] at hname
    exact Or.inr (by rw [hname, hconstant]; rfl)
  | call _ _ _ ih | parentheses _ ih => simp at hopening
  | bars _ ih => exact ih (by simpa using hopening) (by simpa using hname)
  | ofAtom _ ih | ofPower _ ih | ofUnary _ ih | ofTerm _ ih => exact ih hopening hname
  | minus _ ih | plus _ ih => exact ih (by simpa using hopening) (by simpa using hname)
  | power _ _ ihl ihr =>
    simp only [List.mem_append, List.mem_cons, not_or] at hopening hname
    rcases hname with hname | hname | hname
    · exact ihl hopening.1 hname
    · cases hname
    · exact ihr hopening.2.2 hname
  | @product o _ _ _ _ ho _ _ ihl ihr | @sum o _ _ _ _ ho _ _ ihl ihr =>
    simp only [List.mem_append, List.mem_cons, not_or] at hopening hname
    rcases hname with hname | hname | hname
    · exact ihl hopening.1 hname
    · cases o <;> cases hname
    · exact ihr hopening.2.2 hname

end Grammar

/-- A constant has one name. -/
theorem NamedConstant.eq_name_of_ofName? {name : String} {named : NamedConstant}
    (h : ofName? name = some named) : name = named.name := by
  obtain ⟨front, back, hnames, -⟩ := List.lookup_eq_some_iff.mp h
  have hmem : (name, named) ∈ [("pi", pi), ("e", e)] := by rw [hnames]; simp
  simp only [List.mem_cons, Prod.mk.injEq, List.not_mem_nil, or_false] at hmem
  rcases hmem with ⟨rfl, rfl⟩ | ⟨rfl, rfl⟩ <;> rfl

/-- The names with a meaning. -/
def knownNames : List String :=
  variableName :: (NamedFunction.names.map Prod.fst ++ [NamedConstant.pi.name, NamedConstant.e.name])

/-- Every name in an expression has a meaning. -/
theorem Grammar.Derives.mem_knownNames {level : Grammar.Level} {ls : List Lexeme}
    {t : Skeleton Numeral} (h : Derives variableName level ls t) {name : String}
    (hname : Lexeme.name name ∈ ls) : name ∈ knownNames := by
  have hfunction : ∀ {name : String} {f : NamedFunction}, NamedFunction.ofName? name = some f →
      name ∈ NamedFunction.names.map Prod.fst := by
    intro name f hf
    obtain ⟨front, back, hnames, -⟩ := List.lookup_eq_some_iff.mp hf
    rw [hnames]
    simp
  induction h with
  | number literal => simp at hname
  | var =>
    rw [List.mem_singleton, Lexeme.name.injEq] at hname
    simp [knownNames, hname]
  | @constant name' named _ _ hconstant =>
    rw [List.mem_singleton, Lexeme.name.injEq] at hname
    rw [hname, NamedConstant.eq_name_of_ofName? hconstant]
    cases named <;> simp [knownNames]
  | call _ hf _ ih =>
    simp only [List.mem_cons, List.mem_append, Lexeme.name.injEq, reduceCtorEq, false_or, or_false,
      List.not_mem_nil] at hname
    rcases hname with rfl | hname
    · simp [knownNames, hfunction hf]
    · exact ih hname
  | parentheses _ ih | bars _ ih | minus _ ih | plus _ ih => exact ih (by simpa using hname)
  | ofAtom _ ih | ofPower _ ih | ofUnary _ ih | ofTerm _ ih => exact ih hname
  | power _ _ ihl ihr =>
    rcases List.mem_append.mp hname with hname | hname
    · exact ihl hname
    · exact ihr (by simpa using hname)
  | @product o _ _ _ _ _ _ _ ihl ihr | @sum o _ _ _ _ _ _ _ ihl ihr =>
    rcases List.mem_append.mp hname with hname | hname
    · exact ihl hname
    · cases o <;> exact ihr (by simpa [Operator.lexeme] using hname)

namespace Expression

open Grammar

/-- A source with tokens is read from them. -/
theorem ofText_eq_map {source : List Char} {tokens : List Token}
    (h : Token.ofText source = .ok tokens) :
    ofText source = (Expr.ofTokens variableName tokens).map
      fun tree => ⟨String.ofList (Text.trim source), tree⟩ := by
  rw [ofText, Expr.ofText, h]
  rfl

/-- The tokens of an accepted source have its tree. -/
theorem exists_tokens {source : List Char} {e : Expression} (h : ofText source = .ok e) :
    ∃ tokens, Token.ofText source = .ok tokens ∧
      Expr.ofTokens variableName tokens = .ok e.tree := by
  cases htokens : Token.ofText source with
  | error error =>
    rw [ofText, Expr.ofText, htokens] at h
    cases h
  | ok tokens =>
    rw [ofText_eq_map htokens] at h
    obtain ⟨tree, htree, rfl⟩ := map_eq_ok h
    exact ⟨tokens, rfl, htree⟩

/-- An accepted source is derived by the grammar. -/
theorem exists_derives {source : List Char} {e : Expression} (h : ofText source = .ok e) :
    ∃ tokens, Token.ofText source = .ok tokens ∧
      Derives variableName .expr (Token.body tokens) e.tree.skeleton := by
  obtain ⟨tokens, htokens, htree⟩ := exists_tokens h
  exact ⟨tokens, htokens, Expr.derives_of_ofTokens htree⟩

/-- Every character of an accepted source is a blank, a sign, or one of a number or a name. -/
theorem char_cases {source : List Char} {e : Expression} (h : ofText source = .ok e) {c : Char}
    (hc : c ∈ source) :
    Text.isBlank c = true ∨ Text.isAsciiDigit c = true ∨ c ∈ ['.', 'e', 'E', '+', '-'] ∨
      Text.isNameChar c = true ∨ (Lexeme.ofSign? c).isSome = true := by
  obtain ⟨tokens, htokens, -⟩ := exists_derives h
  rcases Token.mem_source_cases htokens hc with
    hblank | hsign | ⟨literal, hwell, hmem⟩ | ⟨name, -, -, hname⟩
  · exact Or.inl hblank
  · exact Or.inr (Or.inr (Or.inr (Or.inr (Option.isSome_iff_exists.mpr hsign))))
  · rcases Literal.mem_text hwell hmem with hdigit | hother
    · exact Or.inr (Or.inl hdigit)
    · exact Or.inr (Or.inr (Or.inl hother))
  · exact Or.inr (Or.inr (Or.inr (Or.inl hname)))

/-- Only a parenthesis opens. -/
theorem eq_of_ofSign?_eq_opening {c : Char} (h : Lexeme.ofSign? c = some .opening) : c = '(' := by
  grind [Lexeme.ofSign?]

/-- Where the variable occurs, so does its letter. -/
theorem mem_of_hasVariable {source : List Char} {e : Expression} (h : ofText source = .ok e)
    (hvariable : e.tree.hasVariable = true) : 'x' ∈ source := by
  obtain ⟨tokens, htokens, hderives⟩ := exists_derives h
  rw [← Expr.hasVariable_skeleton, hderives.hasVariable_iff] at hvariable
  rcases Token.mem_of_mem_body htokens hvariable with hstar | ⟨text, hwrites, hmem⟩
  · cases hstar
  · refine hmem 'x' ?_
    rw [← hwrites.1]
    decide

/-- Where the letter of the variable occurs and nothing is called, so does the variable. -/
theorem hasVariable_of_mem {source : List Char} {e : Expression} (h : ofText source = .ok e)
    (hx : 'x' ∈ source) (hopening : '(' ∉ source) : e.tree.hasVariable = true := by
  obtain ⟨tokens, htokens, hderives⟩ := exists_derives h
  have hbody : Lexeme.opening ∉ Token.body tokens := by
    intro hmem
    rcases Token.mem_of_mem_body htokens hmem with hstar | ⟨text, ⟨c, rfl, hc⟩, hsource⟩
    · cases hstar
    · exact hopening (eq_of_ofSign?_eq_opening hc ▸ hsource c (List.mem_singleton_self c))
  rcases Token.mem_source_cases htokens hx with
    hblank | ⟨l, hsign⟩ | ⟨literal, hwell, hmem⟩ | ⟨name, hname, hmem, -⟩
  · exact absurd hblank (by decide)
  · cases hsign
  · exact absurd (Literal.mem_text hwell hmem) (by decide)
  · rw [← Expr.hasVariable_skeleton, hderives.hasVariable_iff]
    rcases hderives.name_cases hbody hname with rfl | hconstant
    · exact hname
    · obtain ⟨named, hnamed⟩ := Option.isSome_iff_exists.mp hconstant
      rw [NamedConstant.eq_name_of_ofName? hnamed] at hmem
      cases named <;> exact absurd hmem (by decide)

end Expression

end CurvePlot
