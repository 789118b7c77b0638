import CurvePlot.Proofs.Output.JsonText
import CurvePlot.Text.Reader

/-!
# Reading JSON texts

A reader of JSON texts, strict in everything that the format leaves no choice about: which escapes
there are, which characters a string may hold bare, what a number looks like, and where commas
stand. Numbers are kept as their texts. A value whose numbers are those of the format is read back
from the text that has a line for each of its parts (`JsonValue.read?_pretty`).
-/

namespace CurvePlot.JsonValue

open Text (Reader)

/-! ### The reader -/

/-- The blanks that may stand between the parts of a JSON text. -/
def isBlank (c : Char) : Bool :=
  c == ' ' || c == '\t' || c == '\n' || c == '\r'

/-- The text from the first character on that is no blank. -/
def skipBlanks (text : List Char) : List Char :=
  text.dropWhile isBlank

/-- The character that a letter behind a backslash stands for. -/
def escaped? : Char → Option Char
  | '"' => some '"'
  | '\\' => some '\\'
  | '/' => some '/'
  | 'b' => some '\x08'
  | 'f' => some '\x0c'
  | 'n' => some '\n'
  | 'r' => some '\r'
  | 't' => some '\t'
  | _ => none

/-- The number that four hexadecimal digits write. -/
def codeUnit? : Reader ℕ
  | a :: b :: c :: d :: rest =>
    match Text.hexValue? a, Text.hexValue? b, Text.hexValue? c, Text.hexValue? d with
    | some a, some b, some c, some d => some (((a * 16 + b) * 16 + c) * 16 + d, rest)
    | _, _, _, _ => none
  | _ => none

/-- The character behind `\u`: one code unit, or two of which the first is a high and the second a
low surrogate. -/
def unicode? (text : List Char) : Option (Char × List Char) :=
  match codeUnit? text with
  | none => none
  | some (unit, rest) =>
    if 0xD800 ≤ unit && unit < 0xDC00 then
      match rest with
      | '\\' :: 'u' :: behind =>
        match codeUnit? behind with
        | none => none
        | some (low, rest) =>
          if 0xDC00 ≤ low && low < 0xE000 then
            some (Char.ofNat (0x10000 + (unit - 0xD800) * 0x400 + (low - 0xDC00)), rest)
          else none
      | _ => none
    else if 0xDC00 ≤ unit && unit < 0xE000 then none
    else some (Char.ofNat unit, rest)

/-- A character of a string: escaped, or bare if it is no control character. -/
def character? : Reader Char
  | '\\' :: 'u' :: rest => unicode? rest
  | '\\' :: c :: rest => (escaped? c).map fun d => (d, rest)
  | c :: rest => if c == '"' || c == '\\' || c.toNat < 0x20 then none else some (c, rest)
  | [] => none

/-- A string between quotes. -/
def string? : Reader String
  | '"' :: text =>
    match Reader.repeated character? text with
    | (characters, '"' :: rest) => some (String.ofList characters, rest)
    | _ => none
  | _ => none

/-- Whether a literal is a number of the format: digits stand before the point, a zero leads no
others, and digits stand behind a point. -/
def isNumeral (l : Literal) : Bool :=
  !l.whole.isEmpty && (l.whole.length == 1 || l.whole.head? != some '0') && l.fraction != some []

/-- The minus sign at the head of a text, and the rest. -/
def splitMinus : List Char → List Char × List Char
  | '-' :: rest => (['-'], rest)
  | text => ([], text)

/-- A number, kept as its text. -/
def number? (text : List Char) : Option (JsonValue × List Char) :=
  let (minus, unsigned) := splitMinus text
  match Literal.scan? Text.isAsciiDigit unsigned with
  | some (literal, rest) =>
    if isNumeral literal then some (number (String.ofList (minus ++ literal.text)), rest) else none
  | none => none

section Rows

variable {α : Type}

/-- A part of a row behind its comma. -/
def afterComma (read : Reader α) (text : List Char) : Option (α × List Char) :=
  match skipBlanks text with
  | ',' :: rest => read (skipBlanks rest)
  | _ => none

/-- The parts of a row behind its opening bracket, up to the closing one. -/
def row? (close : Char) (read : Reader α) (text : List Char) : Option (List α × List Char) :=
  match skipBlanks text with
  | [] => none
  | c :: rest =>
    if c == close then some ([], rest)
    else
      match read (c :: rest) with
      | none => none
      | some (first, behind) =>
        let (others, final) := Reader.repeated (afterComma read) behind
        match skipBlanks final with
        | [] => none
        | d :: rest => if d == close then some (first :: others, rest) else none

/-- A named value. -/
def member? (read : Reader α) (text : List Char) : Option ((String × α) × List Char) :=
  match string? text with
  | none => none
  | some (key, rest) =>
    match skipBlanks rest with
    | ':' :: behind => (read (skipBlanks behind)).map fun (value, rest) => ((key, value), rest)
    | _ => none

end Rows

/-- A value, with fewer brackets open within one another than the given depth. -/
def value? : ℕ → Reader JsonValue
  | 0, _ => none
  | depth + 1, text =>
    match text with
    | '"' :: _ => (string? text).map fun (value, rest) => (string value, rest)
    | '[' :: rest => (row? ']' (value? depth) rest).map fun (items, rest) => (array items, rest)
    | '\x7b' :: rest =>
      (row? '\x7d' (member? (value? depth)) rest).map fun (members, rest) => (object members, rest)
    | 'n' :: 'u' :: 'l' :: 'l' :: rest => some (null, rest)
    | 't' :: 'r' :: 'u' :: 'e' :: rest => some (bool true, rest)
    | 'f' :: 'a' :: 'l' :: 's' :: 'e' :: rest => some (bool false, rest)
    | _ => number? text

/-- The value that a whole text writes. -/
def read? (text : List Char) : Option JsonValue :=
  match value? (text.length + 1) (skipBlanks text) with
  | some (value, rest) => if (skipBlanks rest).isEmpty then some value else none
  | none => none

/-! ### Values throughout -/

/-- Whether a value and all its parts have a property. -/
inductive Throughout (p : JsonValue → Prop) : JsonValue → Prop where
  /-- The missing value has no parts. -/
  | null (h : p null) : Throughout p null
  /-- A truth value has none. -/
  | bool {value : Bool} (h : p (bool value)) : Throughout p (bool value)
  /-- A number has none. -/
  | number {text : String} (h : p (number text)) : Throughout p (number text)
  /-- A string has none. -/
  | string {value : String} (h : p (string value)) : Throughout p (string value)
  /-- The parts of a row are its items. -/
  | array {items : List JsonValue} (h : p (array items))
    (hitems : ∀ item ∈ items, Throughout p item) : Throughout p (array items)
  /-- The parts of an object are the values of its members. -/
  | object {members : List (String × JsonValue)} (h : p (object members))
    (hmembers : ∀ m ∈ members, Throughout p m.2) : Throughout p (object members)

/-- A property that holds throughout a value holds of the value itself. -/
theorem Throughout.here {p : JsonValue → Prop} {v : JsonValue} (h : Throughout p v) : p v := by
  cases h <;> assumption

/-- What holds whenever a property holds, holds throughout. -/
theorem Throughout.imp {p q : JsonValue → Prop} (himp : ∀ v, p v → q v) {v : JsonValue}
    (h : Throughout p v) : Throughout q v := by
  induction h with
  | null h => exact .null (himp _ h)
  | bool h => exact .bool (himp _ h)
  | number h => exact .number (himp _ h)
  | string h => exact .string (himp _ h)
  | array h _ ih => exact .array (himp _ h) ih
  | object h _ ih => exact .object (himp _ h) ih

/-- Whether a value, if it is a number, has the text of one. -/
def Legible : JsonValue → Prop
  | number text => ∃ (minus : Bool) (l : Literal), l.WellFormed Text.isAsciiDigit ∧
      isNumeral l = true ∧ text.toList = (if minus then ['-'] else []) ++ l.text
  | _ => True

/-! ### Strings are read back -/

/-- An escaped character is read back. -/
theorem character?_escape_append (c : Char) (rest : List Char) :
    character? (escape c ++ rest) = some (c, rest) := by
  rcases escape_cases c with ⟨letter, hletter, h⟩ | ⟨hc, h⟩ | ⟨hquote, hback, hc, h⟩
  · have hall : ∀ p ∈ escapes, character? (['\\', p.1] ++ rest) = some (p.2, rest) := by
      simp [escapes, character?, escaped?]
    rw [h]
    exact hall _ hletter
  · have hhigh := hexValue?_lowerHexDigit (n := c.toNat / 16) (by omega)
    have hlow := hexValue?_lowerHexDigit (n := c.toNat % 16) (by omega)
    have hzero : Text.hexValue? '0' = some 0 := rfl
    have hunit : codeUnit? ('0' :: '0' :: Text.lowerHexDigit (c.toNat / 16) ::
        Text.lowerHexDigit (c.toNat % 16) :: rest) = some (c.toNat, rest) := by
      simp only [codeUnit?, hzero, hhigh, hlow, Option.some.injEq, Prod.mk.injEq, and_true]
      omega
    have hsmall : ¬0xD800 ≤ c.toNat ∧ ¬0xDC00 ≤ c.toNat := by omega
    rw [h]
    simp only [List.cons_append, List.nil_append, character?, unicode?, hunit, hsmall,
      decide_false, Bool.false_and, Bool.false_eq_true, if_false, Char.ofNat_toNat]
  · rw [h, List.singleton_append, character?.eq_def]
    split <;> simp_all

/-- Nothing more is read at the closing quote. -/
theorem character?_quote (rest : List Char) : character? ('"' :: rest) = none :=
  rfl

/-- A string between quotes is read back. -/
theorem string?_quote_append (text : String) (rest : List Char) :
    string? ((quote text).toList ++ rest) = some (text, rest) := by
  have hcharacters : Reader.repeated character? (text.toList.flatMap escape ++ '"' :: rest) =
      (text.toList.map id, '"' :: rest) := by
    refine Reader.repeated_flatMap id (fun _ => True)
      (fun c _ tail _ => character?_escape_append c tail) ?_ (fun _ _ _ => trivial) trivial
      (character?_quote rest)
    intro c _ hempty
    have hread := character?_escape_append c []
    rw [hempty] at hread
    cases hread
  rw [toList_quote, List.cons_append, List.append_assoc, List.singleton_append, string?,
    hcharacters]
  simp

/-! ### Numbers are read back -/

/-- A number is read back in front of what cannot continue it. -/
theorem number?_append {text : String} (h : (number text).Legible) {rest : List Char}
    (hrest : Literal.EndsBefore Text.isAsciiDigit rest) :
    number? (text.toList ++ rest) = some (number text, rest) := by
  obtain ⟨minus, l, hl, hnumeral, htext⟩ := h
  have hscan := Literal.scan?_text_append Literal.isDigitClass_isAsciiDigit hl hrest
  have hsplit : splitMinus (text.toList ++ rest) =
      (if minus then ['-'] else [], l.text ++ rest) := by
    rw [htext]
    cases minus with
    | true => rfl
    | false =>
      cases hhead : l.text with
      | nil => exact absurd hhead (Literal.text_ne_nil hl)
      | cons c others =>
        have hminus : c ≠ '-' :=
          (Literal.head_text_ne_sign Literal.isDigitClass_isAsciiDigit hl c (by rw [hhead]; rfl)).2
        simp only [Bool.false_eq_true, if_false, List.nil_append, List.cons_append]
        rw [splitMinus.eq_def]
        split <;> simp_all
  rw [number?, hsplit]
  simp only [hscan, hnumeral, if_true]
  rw [← htext, String.ofList_toList]

/-- A number begins with a digit or the minus sign. -/
theorem exists_head_of_legible {text : String} (h : (number text).Legible) :
    ∃ c behind, text.toList = c :: behind ∧ (Text.isAsciiDigit c = true ∨ c = '-') := by
  obtain ⟨minus, l, hl, hnumeral, htext⟩ := h
  cases minus with
  | true => exact ⟨'-', l.text, htext, Or.inr rfl⟩
  | false =>
    obtain ⟨whole, fraction, power⟩ := l
    cases whole with
    | nil => cases hnumeral
    | cons c digits => exact ⟨c, _, htext, Or.inl (hl.whole c List.mem_cons_self)⟩

/-- Other characters do not begin a number. -/
theorem ne_of_begins {c d : Char} (hc : Text.isAsciiDigit c = true ∨ c = '-')
    (hd : (Text.isAsciiDigit d || d == '-') = false) : c ≠ d := by
  rintro rfl
  rcases hc with hc | hc <;> simp [hc] at hd

/-- A value that begins with a digit or the minus sign is a number. -/
theorem value?_of_head {c : Char} (h : Text.isAsciiDigit c = true ∨ c = '-') (depth : ℕ)
    (behind : List Char) : value? (depth + 1) (c :: behind) = number? (c :: behind) := by
  have hquote : c ≠ '"' := ne_of_begins h rfl
  have hsquare : c ≠ '[' := ne_of_begins h rfl
  have hcurly : c ≠ '\x7b' := ne_of_begins h rfl
  have hn : c ≠ 'n' := ne_of_begins h rfl
  have ht : c ≠ 't' := ne_of_begins h rfl
  have hf : c ≠ 'f' := ne_of_begins h rfl
  rw [value?.eq_def]
  split
  · contradiction
  · next hdepth =>
    cases hdepth
    split <;> simp_all

/-- The literal of a decimal is a number of the format. -/
theorem isNumeral_literal (s : Spelling) {n : Numeral} (hn : n.significand = 0 → n.exponent = 0) :
    isNumeral (s.literal n) = true := by
  have hne : Nat.toDigits 10 n.significand ≠ [] := Nat.toDigits_ne_nil
  have hzero : (Nat.toDigits 10 n.significand).head? = some '0' →
      (Nat.toDigits 10 n.significand).length = 1 ∧ n.exponent = 0 := by
    intro hhead
    have hsignificand : n.significand = 0 := by
      by_contra hpos
      exact Text.head_toDigits_ne_zero (Nat.pos_of_ne_zero hpos) hhead
    rw [hsignificand]
    exact ⟨rfl, hn hsignificand⟩
  unfold Spelling.literal
  generalize Nat.toDigits 10 n.significand = digits at hne hzero ⊢
  obtain ⟨first, further, rfl⟩ := List.exists_cons_of_ne_nil hne
  have hlone (h : first = '0') : further = [] ∧ n.exponent = 0 := by
    obtain ⟨hlength, hexponent⟩ := hzero (by rw [h]; rfl)
    exact ⟨List.length_eq_zero_iff.mp (by simpa using hlength), hexponent⟩
  dsimp only
  split
  · split
    · simp [isNumeral]
    · split
      · by_cases hfirst : first = '0'
        · obtain ⟨rfl, hexponent⟩ := hlone hfirst
          simp [isNumeral, hexponent]
        · simp [isNumeral, hfirst]
      · next hlength =>
        have hfirst : first ≠ '0' := by
          intro hfirst
          obtain ⟨rfl, -⟩ := hlone hfirst
          exact hlength (by simp)
        have hfraction : ((first :: further).drop _ : List Char) ≠ [] :=
          fun hnil => hlength (List.drop_eq_nil_iff.mp hnil)
        simpa [isNumeral, hfirst] using hfraction
  · cases further <;> simp [isNumeral]

/-- The text of a finite double is legible. -/
theorem legible_write {x : Float} (h : x.isFinite = true) : (number (numbers.write x)).Legible := by
  refine ⟨Magnitude.isNegative x, _, Spelling.wellFormed_literal _ _,
    isNumeral_literal numbers (Shortest.exponent_decimal_of_zero numbers.tie (.ofFloat x)), ?_⟩
  rw [Spelling.toList_write h]
  cases Magnitude.isNegative x <;> rfl

/-! ### Rows are read back -/

/-- The end of a line and the indentation of the next one. -/
def lineBreak (level : ℕ) : List Char :=
  '\n' :: (indentation level).toList

/-- What stands between the brackets around parts that have lines of their own. -/
def inside (level : ℕ) : List String → List Char
  | [] => []
  | part :: parts => lineBreak (level + 1) ++ (part.toList ++
      ((parts.flatMap fun p => ',' :: (lineBreak (level + 1) ++ p.toList)) ++ lineBreak level))

/-- A block is written as its brackets and what stands between them. -/
theorem toList_block (opening closing : String) (level : ℕ) (parts : List String) :
    (block opening closing level parts).toList =
      opening.toList ++ (inside level parts ++ closing.toList) := by
  cases parts with
  | nil => simp [block, inside]
  | cons part parts =>
    rw [block, List.isEmpty_cons, if_neg Bool.false_ne_true, List.map_cons]
    simp only [String.toList_append, Text.toList_intercalate_cons, List.flatMap_map, inside,
      lineBreak, List.append_assoc]
    rfl

/-- A part is shorter than what stands between the brackets. -/
theorem length_lt_inside (level : ℕ) {parts : List String} {part : String} (h : part ∈ parts) :
    part.toList.length < (inside level parts).length := by
  cases parts with
  | nil => cases h
  | cons first parts =>
    rcases List.mem_cons.mp h with rfl | h
    · simp only [inside, lineBreak, List.length_append, List.length_cons]
      omega
    · obtain ⟨front, back, rfl⟩ := List.append_of_mem h
      simp only [inside, lineBreak, List.length_append, List.length_cons, List.flatMap_append,
        List.flatMap_cons]
      omega

/-- Blanks in front of something else are skipped. -/
theorem skipBlanks_append (blanks : List Char) {rest : List Char}
    (hblanks : ∀ c ∈ blanks, isBlank c = true) (h : ∀ c ∈ rest.head?, isBlank c = false) :
    skipBlanks (blanks ++ rest) = rest :=
  (Text.takeWhile_dropWhile_append hblanks h).2

/-- The end of a line and an indentation are skipped. -/
theorem skipBlanks_lineBreak_append (level : ℕ) {rest : List Char}
    (h : ∀ c ∈ rest.head?, isBlank c = false) : skipBlanks (lineBreak level ++ rest) = rest := by
  refine skipBlanks_append _ (fun c hc => ?_) h
  rcases List.mem_cons.mp hc with rfl | hc
  · rfl
  · rw [indentation, String.toList_ofList] at hc
    rw [List.eq_of_mem_replicate hc]
    rfl

/-- No number goes on over the end of a line. -/
theorem endsBefore_lineBreak_append (level : ℕ) (rest : List Char) :
    Literal.EndsBefore Text.isAsciiDigit (lineBreak level ++ rest) := by
  rintro _ ⟨⟩
  decide

/-- The end of a line in front of a part that begins with no blank is skipped. -/
theorem skipBlanks_lineBreak_part {part : List Char} (level : ℕ)
    (h : ∃ c behind, part = c :: behind ∧ isBlank c = false) (rest : List Char) :
    skipBlanks (lineBreak level ++ (part ++ rest)) = part ++ rest := by
  obtain ⟨c, behind, rfl, hc⟩ := h
  refine skipBlanks_lineBreak_append level ?_
  rintro _ ⟨⟩
  exact hc

/-- The later parts of a row are read back where each of them is. -/
theorem repeated_afterComma_append {α : Type} (close : Char) (hblank : isBlank close = false)
    (hcomma : close ≠ ',') {read : Reader α} {text : α → String} {items : List α}
    (hread : ∀ item ∈ items, ∀ rest, Literal.EndsBefore Text.isAsciiDigit rest →
      read ((text item).toList ++ rest) = some (item, rest))
    (hfirst : ∀ item ∈ items, ∃ c behind, (text item).toList = c :: behind ∧ isBlank c = false)
    (level : ℕ) (rest : List Char) :
    Reader.repeated (afterComma read)
        ((items.flatMap fun i => ',' :: (lineBreak (level + 1) ++ (text i).toList)) ++
          (lineBreak level ++ close :: rest)) =
      (items, lineBreak level ++ close :: rest) := by
  have hclose : ∀ c ∈ (close :: rest).head?, isBlank c = false := by
    rintro _ ⟨⟩
    exact hblank
  rw [← List.map_id items, List.flatMap_map]
  refine Reader.repeated_flatMap id (Literal.EndsBefore Text.isAsciiDigit) ?_ (by simp) ?_
    (endsBefore_lineBreak_append _ _) ?_
  · intro i hi tail htail
    have hcommas : skipBlanks (',' :: (lineBreak (level + 1) ++ ((text i).toList ++ tail))) =
        ',' :: (lineBreak (level + 1) ++ ((text i).toList ++ tail)) := rfl
    rw [id, List.cons_append, List.append_assoc, afterComma, hcommas]
    simp only [skipBlanks_lineBreak_part (level + 1) (hfirst i hi), hread i hi tail htail]
  · rintro i _ tail _ ⟨⟩
    decide
  · rw [afterComma, skipBlanks_lineBreak_append level hclose]
    split <;> simp_all

/-- A row is read back where its parts are. -/
theorem row?_inside_append {α : Type} (close : Char) (hblank : isBlank close = false)
    (hcomma : close ≠ ',') {read : Reader α} {text : α → String} {items : List α}
    (hread : ∀ item ∈ items, ∀ rest, Literal.EndsBefore Text.isAsciiDigit rest →
      read ((text item).toList ++ rest) = some (item, rest))
    (hfirst : ∀ item ∈ items, ∃ c behind, (text item).toList = c :: behind ∧ isBlank c = false ∧
      c ≠ close) (level : ℕ) (rest : List Char) :
    row? close read (inside level (items.map text) ++ close :: rest) = some (items, rest) := by
  have hclose : ∀ c ∈ (close :: rest).head?, isBlank c = false := by
    rintro _ ⟨⟩
    exact hblank
  cases items with
  | nil => simp [row?, inside, skipBlanks, hblank]
  | cons item items =>
    obtain ⟨c, behind, hitem, hc, hne⟩ := hfirst item List.mem_cons_self
    have htext : inside level ((item :: items).map text) ++ close :: rest =
        lineBreak (level + 1) ++ ((text item).toList ++
          ((items.flatMap fun i => ',' :: (lineBreak (level + 1) ++ (text i).toList)) ++
            (lineBreak level ++ close :: rest))) := by
      simp only [inside, List.map_cons, List.flatMap_map, List.append_assoc]
    have hlater := repeated_afterComma_append close hblank hcomma
      (fun i hi => hread i (List.mem_cons_of_mem item hi))
      (fun i hi => by
        obtain ⟨d, others, hd, hblank, -⟩ := hfirst i (List.mem_cons_of_mem item hi)
        exact ⟨d, others, hd, hblank⟩) level rest
    have hbehind : Literal.EndsBefore Text.isAsciiDigit
        ((items.flatMap fun i => ',' :: (lineBreak (level + 1) ++ (text i).toList)) ++
          (lineBreak level ++ close :: rest)) := by
      cases items with
      | nil => exact endsBefore_lineBreak_append _ _
      | cons i items =>
        rintro _ ⟨⟩
        decide
    have hitemRead := hread item List.mem_cons_self _ hbehind
    have hskip := skipBlanks_lineBreak_part (level + 1) ⟨c, behind, hitem, hc⟩
    rw [htext, row?, hskip, hitem, List.cons_append]
    rw [hitem, List.cons_append] at hitemRead
    simp only [beq_false_of_ne hne, Bool.false_eq_true, if_false, hitemRead, hlater,
      skipBlanks_lineBreak_append level hclose, beq_self_eq_true, if_true]

/-! ### Values are read back -/

/-- A named value with lines of its own. -/
def prettyMember (level : ℕ) (m : String × JsonValue) : String :=
  quote m.1 ++ ": " ++ m.2.prettyAt level

/-- The items are written one by one. -/
theorem prettyItems_eq_map (level : ℕ) (items : List JsonValue) :
    prettyItems level items = items.map (prettyAt level) := by
  induction items with
  | nil => rfl
  | cons item rest ih => rw [prettyItems, ih, List.map_cons]

/-- The members are written one by one. -/
theorem prettyMembers_eq_map (level : ℕ) (members : List (String × JsonValue)) :
    prettyMembers level members = members.map (prettyMember level) := by
  induction members with
  | nil => rfl
  | cons m rest ih => rw [prettyMembers, ih, List.map_cons, prettyMember]

/-- A row is written between square brackets. -/
theorem toList_prettyAt_array (items : List JsonValue) (level : ℕ) :
    ((array items).prettyAt level).toList =
      '[' :: (inside level (items.map (prettyAt (level + 1))) ++ [']']) := by
  rw [prettyAt, prettyItems_eq_map, toList_block]
  rfl

/-- An object is written between curly brackets. -/
theorem toList_prettyAt_object (members : List (String × JsonValue)) (level : ℕ) :
    ((object members).prettyAt level).toList =
      '\x7b' :: (inside level (members.map (prettyMember (level + 1))) ++ ['\x7d']) := by
  rw [prettyAt, prettyMembers_eq_map, toList_block]
  rfl

/-- A legible value begins with something other than a blank or a closing bracket. -/
theorem exists_head_prettyAt {v : JsonValue} (hv : v.Legible) (level : ℕ) :
    ∃ c behind, (v.prettyAt level).toList = c :: behind ∧ isBlank c = false ∧ c ≠ ']' := by
  cases v with
  | null => exact ⟨'n', ['u', 'l', 'l'], by rw [prettyAt]; rfl, by decide⟩
  | bool value =>
    cases value with
    | true => exact ⟨'t', ['r', 'u', 'e'], by rw [prettyAt]; rfl, by decide⟩
    | false => exact ⟨'f', ['a', 'l', 's', 'e'], by rw [prettyAt]; rfl, by decide⟩
  | string value => exact ⟨'"', _, by rw [prettyAt, toList_quote], by decide⟩
  | array items => exact ⟨'[', _, toList_prettyAt_array items level, by decide⟩
  | object members => exact ⟨'\x7b', _, toList_prettyAt_object members level, by decide⟩
  | number text =>
    obtain ⟨c, behind, htext, hc⟩ := exists_head_of_legible hv
    have hne (d : Char) (hd : (Text.isAsciiDigit d || d == '-') = false) := ne_of_begins hc hd
    refine ⟨c, behind, htext, ?_, hne ']' rfl⟩
    simp [isBlank, hne ' ' rfl, hne '\t' rfl, hne '\n' rfl, hne '\r' rfl]

/-- A member begins with the quote before its name. -/
theorem exists_head_prettyMember (m : String × JsonValue) (level : ℕ) :
    ∃ c behind, (prettyMember level m).toList = c :: behind ∧ isBlank c = false ∧ c ≠ '\x7d' := by
  have htext : (prettyMember level m).toList = '"' :: ((m.1.toList.flatMap escape ++ ['"']) ++
      [':', ' '] ++ (m.2.prettyAt level).toList) := by
    rw [prettyMember, String.toList_append, String.toList_append, toList_quote]
    rfl
  exact ⟨'"', _, htext, rfl, by decide⟩

/-- A member is read back where its value is. -/
theorem member?_prettyMember_append {read : Reader JsonValue} {level : ℕ}
    {m : String × JsonValue} {rest : List Char} (hm : m.2.Legible)
    (hread : read ((m.2.prettyAt level).toList ++ rest) = some (m.2, rest)) :
    member? read ((prettyMember level m).toList ++ rest) = some (m, rest) := by
  obtain ⟨c, behind, hhead, hblank, -⟩ := exists_head_prettyAt hm level
  have htext : (prettyMember level m).toList ++ rest =
      (quote m.1).toList ++ (':' :: ' ' :: ((m.2.prettyAt level).toList ++ rest)) := by
    simp [prettyMember]
  have hcolon : skipBlanks (':' :: ' ' :: ((m.2.prettyAt level).toList ++ rest)) =
      ':' :: ' ' :: ((m.2.prettyAt level).toList ++ rest) := rfl
  have hskip : skipBlanks (' ' :: ((m.2.prettyAt level).toList ++ rest)) =
      (m.2.prettyAt level).toList ++ rest := by
    refine skipBlanks_append [' '] (by simp [isBlank]) ?_
    rw [hhead]
    rintro _ ⟨⟩
    exact hblank
  rw [htext, member?, string?_quote_append]
  simp only [hcolon, hskip, hread, Option.map_some]

/-- A value is read back at every level, within a depth that its text does not exceed and in front
of what cannot continue a number. -/
theorem value?_prettyAt_append {v : JsonValue} (hv : v.Throughout Legible) (level depth : ℕ)
    {rest : List Char} (hdepth : (v.prettyAt level).toList.length ≤ depth)
    (hrest : Literal.EndsBefore Text.isAsciiDigit rest) :
    value? (depth + 1) ((v.prettyAt level).toList ++ rest) = some (v, rest) := by
  induction hv generalizing level depth rest with
  | null => rw [prettyAt]; rfl
  | @bool value => cases value <;> rw [prettyAt] <;> rfl
  | @number text hlegible =>
    obtain ⟨c, behind, htext, hc⟩ := exists_head_of_legible hlegible
    have hread := number?_append hlegible hrest
    rw [prettyAt]
    rw [htext, List.cons_append] at hread ⊢
    rw [value?_of_head hc, hread]
  | @string value =>
    have hread := string?_quote_append value rest
    rw [prettyAt]
    rw [toList_quote, List.cons_append] at hread ⊢
    rw [value?]
    simp only [hread, Option.map_some]
  | @array items _ hitems ih =>
    have hread : ∀ item ∈ items, ∀ tail, Literal.EndsBefore Text.isAsciiDigit tail →
        value? depth ((item.prettyAt (level + 1)).toList ++ tail) = some (item, tail) := by
      intro item hitem tail htail
      have hlength := length_lt_inside level
        (List.mem_map_of_mem (f := prettyAt (level + 1)) hitem)
      rw [toList_prettyAt_array, List.length_cons, List.length_append] at hdepth
      obtain ⟨inner, rfl⟩ : ∃ inner, depth = inner + 1 := ⟨depth - 1, by omega⟩
      exact ih item hitem (level + 1) inner (by omega) htail
    have hrow := row?_inside_append ']' rfl (by decide) hread
      (fun item hitem => exists_head_prettyAt (hitems item hitem).here (level + 1)) level rest
    rw [toList_prettyAt_array, List.cons_append, List.append_assoc, List.singleton_append,
      value?]
    simp only [hrow, Option.map_some]
  | @object members _ hmembers ih =>
    have hread : ∀ m ∈ members, ∀ tail, Literal.EndsBefore Text.isAsciiDigit tail →
        member? (value? depth) ((prettyMember (level + 1) m).toList ++ tail) = some (m, tail) := by
      intro m hm tail htail
      have hlength := length_lt_inside level
        (List.mem_map_of_mem (f := prettyMember (level + 1)) hm)
      rw [toList_prettyAt_object, List.length_cons, List.length_append] at hdepth
      rw [prettyMember, String.toList_append, List.length_append] at hlength
      obtain ⟨inner, rfl⟩ : ∃ inner, depth = inner + 1 := ⟨depth - 1, by omega⟩
      exact member?_prettyMember_append (hmembers m hm).here
        (ih m hm (level + 1) inner (by omega) htail)
    have hrow := row?_inside_append '\x7d' rfl (by decide) hread
      (fun m _ => exists_head_prettyMember m (level + 1)) level rest
    rw [toList_prettyAt_object, List.cons_append, List.append_assoc, List.singleton_append,
      value?]
    simp only [hrow, Option.map_some]

/-- A value whose numbers are legible is read back from its text. -/
theorem read?_pretty {v : JsonValue} (hv : v.Throughout Legible) :
    read? v.pretty.toList = some v := by
  obtain ⟨c, behind, hhead, hblank, -⟩ := exists_head_prettyAt hv.here 0
  have hfirst : ∀ d ∈ v.pretty.toList.head?, isBlank d = false := by
    rw [pretty, hhead]
    rintro _ ⟨⟩
    exact hblank
  have hskip : skipBlanks v.pretty.toList = v.pretty.toList :=
    skipBlanks_append [] (by simp) hfirst
  have hread : value? (v.pretty.toList.length + 1) (v.pretty.toList ++ []) = some (v, []) :=
    value?_prettyAt_append hv 0 _ le_rfl (by simp [Literal.EndsBefore])
  rw [List.append_nil] at hread
  rw [read?, hskip, hread]
  rfl

/-- A zero leads no other digits. -/
example : (read? "[1, 02]".toList).isNone = true := by decide +kernel

/-- A comma stands before an item. -/
example : (read? "[1, 2, ]".toList).isNone = true := by decide +kernel

end CurvePlot.JsonValue
