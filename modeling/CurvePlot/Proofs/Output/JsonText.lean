import CurvePlot.Output.Json
import CurvePlot.Proofs.Number.DecimalText
import CurvePlot.Proofs.Text.Cuts

/-!
# JSON texts determine their values

The compact text of a JSON value determines the value, whatever follows it that cannot continue a
number (`JsonValue.compact_injective`). The first character of a text tells what kind of value it
begins, strings end at their first bare quote, and numbers at the first character that no number
holds.
-/

namespace CurvePlot.JsonValue

/-- Whether numbers may hold the character. -/
def isNumberChar (c : Char) : Bool :=
  Text.isAsciiDigit c || ['.', 'e', 'E', '+', '-'].contains c

/-- Whether a text is that of a number: it begins with a digit or a minus sign and holds no foreign
character. -/
structure IsNumber (text : String) : Prop where
  /-- The first character is a digit or the sign. -/
  first : ∃ c ∈ text.toList.head?, Text.isAsciiDigit c = true ∨ c = '-'
  /-- Numbers may hold all characters. -/
  chars : ∀ c ∈ text.toList, isNumberChar c = true

/-- Whether all numbers in a value have number texts. -/
inductive WellFormed : JsonValue → Prop where
  /-- The missing value has none. -/
  | null : WellFormed null
  /-- A truth value has none. -/
  | bool (value : Bool) : WellFormed (bool value)
  /-- A number has a number text. -/
  | number {text : String} (h : IsNumber text) : WellFormed (number text)
  /-- A string has none. -/
  | string (value : String) : WellFormed (string value)
  /-- The items of a row are well-formed. -/
  | array {items : List JsonValue} (h : ∀ item ∈ items, WellFormed item) : WellFormed (array items)
  /-- The members of an object are well-formed. -/
  | object {members : List (String × JsonValue)} (h : ∀ m ∈ members, WellFormed m.2) :
    WellFormed (object members)

/-- Whether no number goes on into the text. -/
def EndsNumber (rest : List Char) : Prop :=
  ∀ c ∈ rest.head?, isNumberChar c = false

/-! ### Strings -/

/-- The first character inside a string, read from its escaped form; none at the closing quote. -/
def unescape? : List Char → Option (Char × List Char)
  | '\\' :: 'u' :: '0' :: '0' :: high :: low :: rest =>
    match Text.hexValue? high, Text.hexValue? low with
    | some h, some l => some (Char.ofNat (16 * h + l), rest)
    | _, _ => none
  | '\\' :: 'b' :: rest => some ('\x08', rest)
  | '\\' :: 'f' :: rest => some ('\x0c', rest)
  | '\\' :: 'n' :: rest => some ('\n', rest)
  | '\\' :: 'r' :: rest => some ('\r', rest)
  | '\\' :: 't' :: rest => some ('\t', rest)
  | '\\' :: c :: rest => some (c, rest)
  | '"' :: _ => none
  | c :: rest => some (c, rest)
  | [] => none

/-- A hexadecimal digit in lower case is read back. -/
theorem hexValue?_lowerHexDigit {n : ℕ} (h : n < 16) :
    Text.hexValue? (Text.lowerHexDigit n) = some n := by
  have all : ∀ m : Fin 16, Text.hexValue? (Text.lowerHexDigit m) = some m.val := by decide
  exact all ⟨n, h⟩

/-- The letters behind a backslash, and the characters that are written with them. -/
def escapes : List (Char × Char) :=
  [('"', '"'), ('\\', '\\'), ('b', '\x08'), ('f', '\x0c'), ('n', '\n'), ('r', '\r'), ('t', '\t')]

/-- A character is written with a letter behind a backslash, as a control character with its number,
or as itself. -/
theorem escape_cases (c : Char) :
    (∃ letter, (letter, c) ∈ escapes ∧ escape c = ['\\', letter]) ∨
    (c.toNat < 0x20 ∧ escape c = ['\\', 'u', '0', '0', Text.lowerHexDigit (c.toNat / 16),
      Text.lowerHexDigit (c.toNat % 16)]) ∨
    (c ≠ '"' ∧ c ≠ '\\' ∧ 0x20 ≤ c.toNat ∧ escape c = [c]) := by
  unfold escape
  split
  · next h => exact Or.inl ⟨'"', by simp [beq_iff_eq.mp h, escapes], rfl⟩
  split
  · next h => exact Or.inl ⟨'\\', by simp [beq_iff_eq.mp h, escapes], rfl⟩
  split
  · next h => exact Or.inl ⟨'b', by simp [beq_iff_eq.mp h, escapes], rfl⟩
  split
  · next h => exact Or.inl ⟨'f', by simp [beq_iff_eq.mp h, escapes], rfl⟩
  split
  · next h => exact Or.inl ⟨'n', by simp [beq_iff_eq.mp h, escapes], rfl⟩
  split
  · next h => exact Or.inl ⟨'r', by simp [beq_iff_eq.mp h, escapes], rfl⟩
  split
  · next h => exact Or.inl ⟨'t', by simp [beq_iff_eq.mp h, escapes], rfl⟩
  split
  · next h => exact Or.inr (Or.inl ⟨h, rfl⟩)
  · next hquote hback _ _ _ _ _ hcontrol =>
    exact Or.inr (Or.inr ⟨by simpa using hquote, by simpa using hback, by omega, rfl⟩)

/-- An escaped character is read back. -/
theorem unescape?_escape_append (c : Char) (rest : List Char) :
    unescape? (escape c ++ rest) = some (c, rest) := by
  rcases escape_cases c with ⟨letter, hletter, h⟩ | ⟨hc, h⟩ | ⟨hquote, hback, -, h⟩
  · have hall : ∀ p ∈ escapes, unescape? (['\\', p.1] ++ rest) = some (p.2, rest) := by
      simp [escapes, unescape?]
    rw [h]
    exact hall _ hletter
  · have hhigh := hexValue?_lowerHexDigit (n := c.toNat / 16) (by omega)
    have hlow := hexValue?_lowerHexDigit (n := c.toNat % 16) (by omega)
    have hc : Char.ofNat (16 * (c.toNat / 16) + c.toNat % 16) = c := by
      rw [Nat.div_add_mod, Char.ofNat_toNat]
    rw [h]
    simp only [List.cons_append, List.nil_append, unescape?, hhigh, hlow, hc]
  · rw [h, List.singleton_append, unescape?.eq_def]
    split <;> simp_all

/-- Two strings that are followed by a bare quote agree, and so does what follows. -/
theorem flatMap_escape_cancel {a b r s : List Char}
    (h : a.flatMap escape ++ '"' :: r = b.flatMap escape ++ '"' :: s) : a = b ∧ r = s := by
  have hread := congrArg unescape? h
  induction a generalizing b with
  | nil =>
    cases b with
    | nil => exact ⟨rfl, by simpa using h⟩
    | cons d b =>
      rw [List.flatMap_cons, List.append_assoc, unescape?_escape_append] at hread
      cases hread
  | cons c a ih =>
    cases b with
    | nil =>
      rw [List.flatMap_cons, List.append_assoc, unescape?_escape_append] at hread
      cases hread
    | cons d b =>
      rw [List.flatMap_cons, List.flatMap_cons, List.append_assoc, List.append_assoc,
        unescape?_escape_append, unescape?_escape_append, Option.some.injEq, Prod.mk.injEq]
        at hread
      obtain ⟨hab, hrs⟩ := ih hread.2 (congrArg unescape? hread.2)
      exact ⟨by rw [hread.1, hab], hrs⟩

/-- A string between quotes, as characters. -/
theorem toList_quote (text : String) :
    (quote text).toList = '"' :: (text.toList.flatMap escape ++ ['"']) := by
  simp [quote]

/-- Strings between quotes agree, and so does what follows. -/
theorem quote_cancel {a b : String} {r s : List Char}
    (h : (quote a).toList ++ r = (quote b).toList ++ s) : a = b ∧ r = s := by
  simp only [toList_quote, List.cons_append, List.append_assoc, List.nil_append,
    List.cons.injEq, true_and] at h
  obtain ⟨hab, hrs⟩ := flatMap_escape_cancel h
  exact ⟨String.toList_injective hab, hrs⟩

/-! ### Kinds of values -/

/-- What a text can begin. -/
inductive Kind where
  /-- The missing value. -/
  | null
  /-- A truth value. -/
  | bool (value : Bool)
  /-- A number. -/
  | number
  /-- A string. -/
  | string
  /-- A row of values. -/
  | array
  /-- Named values. -/
  | object

/-- What a text begins whose first character this is. -/
def Kind.ofChar? (c : Char) : Option Kind :=
  if Text.isAsciiDigit c || c == '-' then some number
  else
    match c with
    | 'n' => some null
    | 't' => some (bool true)
    | 'f' => some (bool false)
    | '"' => some string
    | '[' => some array
    | '\x7b' => some object
    | _ => none

/-- The kind of a value. -/
def kind : JsonValue → Kind
  | null => .null
  | bool value => .bool value
  | number _ => .number
  | string _ => .string
  | array _ => .array
  | object _ => .object

/-- The items are written one by one. -/
theorem compactItems_eq_map (items : List JsonValue) : compactItems items = items.map compact := by
  induction items with
  | nil => rfl
  | cons item rest ih => rw [compactItems, ih, List.map_cons]

/-- A named value on one line. -/
def compactMember (m : String × JsonValue) : String :=
  quote m.1 ++ ":" ++ m.2.compact

/-- The members are written one by one. -/
theorem compactMembers_eq_map (members : List (String × JsonValue)) :
    compactMembers members = members.map compactMember := by
  induction members with
  | nil => rfl
  | cons m rest ih => rw [compactMembers, ih, List.map_cons, compactMember]

/-- The first character of a text tells the kind of its value. -/
theorem ofChar?_head {v : JsonValue} (hv : v.WellFormed) (rest : List Char) :
    (v.compact.toList ++ rest).head?.bind Kind.ofChar? = some v.kind := by
  cases hv with
  | null => rfl
  | bool value => cases value <;> rfl
  | string value => rw [compact, toList_quote]; rfl
  | array h => rw [compact, String.toList_append, String.toList_append]; rfl
  | object h => rw [compact, String.toList_append, String.toList_append]; rfl
  | @number text h =>
    obtain ⟨c, hc, hfirst⟩ := h.first
    rw [compact, List.head?_append, hc]
    have hcond : (Text.isAsciiDigit c || c == '-') = true := by simpa using hfirst
    simp [Kind.ofChar?, hcond, kind]

/-! ### Rows -/

/-- The parts of a row, as characters: a comma before each but the first. -/
theorem toList_intercalate_cons (part : String) (parts : List String) :
    (String.intercalate "," (part :: parts)).toList =
      part.toList ++ parts.flatMap fun p => ',' :: p.toList :=
  Text.toList_intercalate_cons "," part parts

variable {α : Type} {text : α → String} {Good : α → Prop}

/-- Whether the text of one part determines the part, in front of what cannot continue a number. -/
def Cancels (text : α → String) (Good : α → Prop) (a : α) : Prop :=
  ∀ b, Good b → ∀ r s, EndsNumber r → EndsNumber s →
    (text a).toList ++ r = (text b).toList ++ s → a = b ∧ r = s

/-- What follows a part in a row cannot continue a number. -/
theorem endsNumber_row {close : Char} (hclose : isNumberChar close = false) (parts : List α)
    (rest : List Char) :
    EndsNumber ((parts.flatMap fun a => ',' :: (text a).toList) ++ close :: rest) := by
  intro c hc
  cases parts with
  | nil => cases hc; exact hclose
  | cons a parts => cases hc; rfl

/-- The later parts of rows agree, and so does what follows the rows. -/
theorem row_tail_cancel {close : Char} (hclose : isNumberChar close = false) (hcomma : close ≠ ',')
    {as bs : List α} (ha : ∀ a ∈ as, Cancels text Good a) (hb : ∀ b ∈ bs, Good b)
    {r s : List Char}
    (h : (as.flatMap fun a => ',' :: (text a).toList) ++ close :: r =
      (bs.flatMap fun b => ',' :: (text b).toList) ++ close :: s) : as = bs ∧ r = s := by
  induction as generalizing bs with
  | nil =>
    cases bs with
    | nil => exact ⟨rfl, by simpa using h⟩
    | cons b bs => exact absurd (List.cons.inj h).1 hcomma
  | cons a as ih =>
    cases bs with
    | nil => exact absurd (List.cons.inj h).1.symm hcomma
    | cons b bs =>
      simp only [List.flatMap_cons, List.cons_append, List.append_assoc, List.cons.injEq,
        true_and] at h
      obtain ⟨hab, htail⟩ := ha a (by simp) b (hb b (by simp)) _ _ (endsNumber_row hclose _ _)
        (endsNumber_row hclose _ _) h
      obtain ⟨hrest, hrs⟩ := ih (fun a h => ha a (by simp [h])) (fun b h => hb b (by simp [h])) htail
      exact ⟨by rw [hab, hrest], hrs⟩

/-- Rows agree, and so does what follows them. -/
theorem row_cancel (close : Char) (hclose : isNumberChar close = false) (hcomma : close ≠ ',')
    (hfirst : ∀ a, Good a → ∀ rest, ((text a).toList ++ rest).head? ≠ some close)
    {as bs : List α} (hgood : ∀ a ∈ as, Good a) (ha : ∀ a ∈ as, Cancels text Good a)
    (hb : ∀ b ∈ bs, Good b) {r s : List Char}
    (h : (String.intercalate "," (as.map text)).toList ++ close :: r =
      (String.intercalate "," (bs.map text)).toList ++ close :: s) : as = bs ∧ r = s := by
  cases as with
  | nil =>
    cases bs with
    | nil => exact ⟨rfl, by simpa using h⟩
    | cons b bs =>
      rw [List.map_cons, toList_intercalate_cons, List.append_assoc] at h
      exact absurd (congrArg List.head? h).symm (hfirst b (hb b (by simp)) _)
  | cons a as =>
    cases bs with
    | nil =>
      rw [List.map_cons, toList_intercalate_cons, List.append_assoc] at h
      exact absurd (congrArg List.head? h) (hfirst a (hgood a (by simp)) _)
    | cons b bs =>
      simp only [List.map_cons, toList_intercalate_cons, List.append_assoc, List.flatMap_map] at h
      obtain ⟨hab, htail⟩ := ha a (by simp) b (hb b (by simp)) _ _ (endsNumber_row hclose _ _)
        (endsNumber_row hclose _ _) h
      obtain ⟨hrest, hrs⟩ := row_tail_cancel hclose hcomma (fun a h => ha a (by simp [h]))
        (fun b h => hb b (by simp [h])) htail
      exact ⟨by rw [hab, hrest], hrs⟩

/-- No value begins with a closing bracket. -/
theorem head?_compact_ne {v : JsonValue} (hv : v.WellFormed) {close : Char}
    (hclose : Kind.ofChar? close = none) (rest : List Char) :
    (v.compact.toList ++ rest).head? ≠ some close := by
  intro h
  have hkind := ofChar?_head hv rest
  rw [h, Option.bind_some, hclose] at hkind
  cases hkind

/-- Numbers agree, and so does what follows them. -/
theorem number_cancel {a b : String} (ha : IsNumber a) (hb : IsNumber b) {r s : List Char}
    (hr : EndsNumber r) (hs : EndsNumber s) (h : a.toList ++ r = b.toList ++ s) :
    a = b ∧ r = s := by
  obtain ⟨hatake, hadrop⟩ := Text.takeWhile_dropWhile_append ha.chars hr
  obtain ⟨hbtake, hbdrop⟩ := Text.takeWhile_dropWhile_append hb.chars hs
  rw [h, hbtake] at hatake
  rw [h, hbdrop] at hadrop
  exact ⟨String.toList_injective hatake.symm, hadrop.symm⟩

/-- Named values agree where their values do. -/
theorem compactMember_cancels {m : String × JsonValue} (hm : Cancels compact WellFormed m.2) :
    Cancels compactMember (fun m => m.2.WellFormed) m := by
  intro n hn r s hr hs h
  simp only [compactMember, String.toList_append, List.append_assoc] at h
  obtain ⟨hkey, hvalue⟩ := quote_cancel h
  obtain ⟨hv, hrs⟩ := hm n.2 hn r s hr hs (List.cons.inj hvalue).2
  exact ⟨Prod.ext hkey hv, hrs⟩

/-- The text of a value determines it, in front of what cannot continue a number. -/
theorem compact_cancels {v : JsonValue} (hv : v.WellFormed) : Cancels compact WellFormed v := by
  intro w hw r s hr hs h
  have hkind : some v.kind = some w.kind := by
    rw [← ofChar?_head hv r, ← ofChar?_head hw s, h]
  induction hv generalizing w r s with
  | null =>
    cases hw with
    | null => exact ⟨rfl, List.append_cancel_left h⟩
    | _ => cases hkind
  | bool value =>
    cases hw with
    | bool other =>
      cases hkind
      exact ⟨rfl, List.append_cancel_left h⟩
    | _ => cases hkind
  | @number a ha =>
    cases hw with
    | @number b hb =>
      obtain ⟨hab, hrs⟩ := number_cancel ha hb hr hs h
      exact ⟨by rw [hab], hrs⟩
    | _ => cases hkind
  | string a =>
    cases hw with
    | string b =>
      obtain ⟨hab, hrs⟩ := quote_cancel h
      exact ⟨by rw [hab], hrs⟩
    | _ => cases hkind
  | @array items hitems ih =>
    cases hw with
    | @array others hothers =>
      simp only [compact, compactItems_eq_map, String.toList_append, List.append_assoc] at h
      obtain ⟨hrow, hrs⟩ := row_cancel ']' (by decide) (by decide)
        (fun v hv rest => head?_compact_ne hv (by decide) rest) hitems
        (fun item hitem w hw r s hr hs h =>
          ih item hitem w hw r s hr hs h (by rw [← ofChar?_head (hitems item hitem) r,
            ← ofChar?_head hw s, h])) hothers (List.cons.inj h).2
      exact ⟨by rw [hrow], hrs⟩
    | _ => cases hkind
  | @object members hmembers ih =>
    cases hw with
    | @object others hothers =>
      simp only [compact, compactMembers_eq_map, String.toList_append, List.append_assoc] at h
      have hfirst : ∀ m : String × JsonValue, m.2.WellFormed → ∀ rest,
          ((compactMember m).toList ++ rest).head? ≠ some '\x7d' :=
        fun m hm rest => by simp [compactMember, toList_quote]
      obtain ⟨hrow, hrs⟩ := row_cancel '\x7d' (by decide) (by decide) hfirst hmembers
        (fun m hm => compactMember_cancels fun w hw r s hr hs h =>
          ih m hm w hw r s hr hs h (by rw [← ofChar?_head (hmembers m hm) r,
            ← ofChar?_head hw s, h])) hothers (List.cons.inj h).2
      exact ⟨by rw [hrow], hrs⟩
    | _ => cases hkind

/-- Well-formed values with the same compact text are the same. -/
theorem compact_injective {v w : JsonValue} (hv : v.WellFormed) (hw : w.WellFormed)
    (h : v.compact = w.compact) : v = w := by
  refine (compact_cancels hv w hw [] [] ?_ ?_ (by rw [h])).1 <;> simp [EndsNumber]

/-! ### Numbers -/

/-- The text of a natural number is a number text. -/
theorem wellFormed_ofNat (n : ℕ) : (ofNat n).WellFormed := by
  have hdigits : (toString n).toList = Nat.toDigits 10 n := Nat.toList_repr
  refine .number ⟨?_, ?_⟩
  · rw [hdigits]
    cases h : Nat.toDigits 10 n with
    | nil => exact absurd h Nat.toDigits_ne_nil
    | cons c rest =>
      exact ⟨c, rfl, Or.inl (Text.isAsciiDigit_of_mem_toDigits (h ▸ List.mem_cons_self))⟩
  · intro c hc
    rw [hdigits] at hc
    rw [isNumberChar, Text.isAsciiDigit_of_mem_toDigits hc, Bool.true_or]

/-- Different natural numbers have different texts. -/
theorem ofNat_injective : Function.Injective ofNat := by
  intro m n h
  have htext : (toString m).toList = (toString n).toList := by rw [number.inj h]
  have hm : (toString m).toList = Nat.toDigits 10 m := Nat.toList_repr
  have hn : (toString n).toList = Nat.toDigits 10 n := Nat.toList_repr
  rw [← Text.digitsValue_toDigits m, ← Text.digitsValue_toDigits n, ← hm, ← hn, htext]

/-- The text of a finite double is a number text. -/
theorem isNumber_write {x : Float} (h : x.isFinite = true) : IsNumber (numbers.write x) := by
  have hwell := Spelling.wellFormed_literal numbers (Shortest.decimal numbers.tie (.ofFloat x))
  obtain ⟨c, hc, hdigit⟩ :=
    Spelling.exists_head?_text_literal numbers (Shortest.decimal numbers.tie (.ofFloat x))
  have htext := Spelling.toList_write (s := numbers) h
  constructor
  · cases hn : Magnitude.isNegative x with
    | true => exact ⟨'-', by rw [htext, hn]; rfl, Or.inr rfl⟩
    | false => exact ⟨c, by rw [htext, hn]; exact hc, Or.inl hdigit⟩
  · intro d hd
    rw [htext, List.mem_append] at hd
    rcases hd with hd | hd
    · cases hn : Magnitude.isNegative x with
      | true => rw [hn] at hd; rw [List.mem_singleton.mp hd]; rfl
      | false => rw [hn] at hd; cases hd
    · rcases Literal.mem_text hwell hd with hd | hd
      · rw [isNumberChar, hd, Bool.true_or]
      · rw [isNumberChar, List.contains_iff_mem.mpr hd, Bool.or_true]

/-- The text of a double is well-formed. -/
theorem wellFormed_ofFloat (x : Float) : (ofFloat x).WellFormed := by
  unfold ofFloat
  split
  · next hx => exact .number (isNumber_write hx)
  · exact .null

/-- The text of a value that may be missing is well-formed where that of the value is. -/
theorem wellFormed_ofOption {write : α → JsonValue} (h : ∀ a, (write a).WellFormed)
    (value : Option α) : (ofOption write value).WellFormed := by
  cases value with
  | none => exact .null
  | some a => exact h a

/-- Doubles that may be missing have the same text exactly when the finite ones among them are the
same. -/
theorem ofOption_ofFloat_eq_iff {x y : Option Float} :
    ofOption ofFloat x = ofOption ofFloat y ↔ x.filter Float.isFinite = y.filter Float.isFinite := by
  have hnull (z : Option Float) (h : z.filter Float.isFinite = none) :
      ofOption ofFloat z = null := by
    cases z with
    | none => rfl
    | some z =>
      have hz : ¬z.isFinite = true := by simpa [Option.filter] using h
      rw [ofOption, ofFloat, if_neg hz]
  have hnumber (z : Option Float) (w : Float) (h : z.filter Float.isFinite = some w) :
      w.isFinite = true ∧ ofOption ofFloat z = number (numbers.write w) := by
    obtain ⟨rfl, hw⟩ := Option.filter_eq_some_iff.mp h
    exact ⟨hw, by rw [ofOption, ofFloat, if_pos hw]⟩
  cases hx : x.filter Float.isFinite with
  | none =>
    cases hy : y.filter Float.isFinite with
    | none => simp [hnull x hx, hnull y hy]
    | some b => simp [hnull x hx, (hnumber y b hy).2]
  | some a =>
    obtain ⟨ha, hxa⟩ := hnumber x a hx
    cases hy : y.filter Float.isFinite with
    | none => simp [hnull y hy, hxa]
    | some b =>
      obtain ⟨hb, hyb⟩ := hnumber y b hy
      rw [hxa, hyb, number.injEq, Option.some.injEq]
      exact ⟨Spelling.write_injective ha hb, congrArg numbers.write⟩

end CurvePlot.JsonValue
