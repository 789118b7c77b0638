import CurvePlot.Proofs.Number.DecimalText
import CurvePlot.Toml.Quoted
import Mathlib

/-!
# Written strings are read back

Every string is read back from its text, whatever follows that is no quote
(`Quoted.read_write_append`). Between single or double quotes the text is a row of characters, each
of which is read alone. Between three quotes it is a row of chunks (`Quoted.Chunks`): of one
character, or of one or two quotes in front of something else; and up to two quotes may stand at the
end, where they run into the closing ones.
-/

namespace CurvePlot.Toml.Quoted

open CurvePlot.Text List

/-! ### Single characters -/

/-- The code of a character is read back from its hexadecimal digits. -/
theorem readCode_append {c : Char} (h : c.toNat < 0x80) (rest : List Char) :
    readCode 4 ('0' :: '0' :: upperHexDigit (c.toNat / 16) :: upperHexDigit (c.toNat % 16) ::
      rest) = some (c, rest) := by
  have hzero : hexValue? '0' = some 0 := rfl
  have hvalue : c.toNat / 16 * 16 + c.toNat % 16 = c.toNat := by omega
  have hnumber : hexNumber? ['0', '0', upperHexDigit (c.toNat / 16),
      upperHexDigit (c.toNat % 16)] = some c.toNat := by
    simp [hexNumber?, hzero, hexValue?_upperHexDigit (show c.toNat / 16 < 16 by omega),
      hexValue?_upperHexDigit (show c.toNat % 16 < 16 by omega), hvalue]
  have hvalid : c.toNat.isValidChar := Or.inl (by omega)
  have hchar : Char.ofNatAux c.toNat hvalid = c := Char.ext rfl
  simp [readCode, hnumber, hvalid, hchar]

/-- A character between double quotes stands for itself, or for an escape that is read as the
character and does not begin like the end of a line. -/
theorem escape_cases (c : Char) :
    (escape c = [c] ∧ isPrintable c = true ∧ c ≠ '"' ∧ c ≠ '\\') ∨
      ∃ d code, escape c = '\\' :: d :: code ∧ d ∉ [' ', '\t', '\n', '\r'] ∧
        ∀ rest, readEscape (d :: (code ++ rest)) = some (c, rest) := by
  by_cases hnamed : c ∈ ['\x08', '\t', '\n', '\x0c', '\r', '"', '\\']
  · simp only [mem_cons, not_mem_nil, or_false] at hnamed
    rcases hnamed with rfl | rfl | rfl | rfl | rfl | rfl | rfl <;>
      exact Or.inr ⟨_, [], rfl, by decide, fun _ => rfl⟩
  · simp only [mem_cons, not_mem_nil, or_false, not_or] at hnamed
    obtain ⟨h₁, h₂, h₃, h₄, h₅, hquote, hslash⟩ := hnamed
    by_cases hprintable : isPrintable c = true
    · exact Or.inl ⟨by simp [escape, h₁, h₂, h₃, h₄, h₅, hquote, hslash, hprintable], hprintable,
        hquote, hslash⟩
    · have hsmall : c.toNat < 0x80 := by
        simp only [isPrintable, Bool.or_eq_true, Bool.and_eq_true, decide_eq_true_eq, not_or,
          not_and, ne_eq, not_not] at hprintable
        omega
      refine Or.inr ⟨'u', ['0', '0', upperHexDigit (c.toNat / 16), upperHexDigit (c.toNat % 16)],
        ?_, by decide, readCode_append hsmall⟩
      simp [escape, h₁, h₂, h₃, h₄, h₅, hquote, hslash, hprintable]

/-- Between double quotes a character is read back. -/
theorem basicChar_escape_append (c : Char) (rest : List Char) :
    basicChar (escape c ++ rest) = some (c, rest) := by
  rcases escape_cases c with ⟨hself, hprintable, hquote, hslash⟩ | ⟨d, code, hcode, -, hread⟩
  · simp [hself, basicChar, hprintable, hquote, hslash]
  · simp [hcode, basicChar, hread rest]

/-- So it is between three double quotes. -/
theorem basicPart_escape_append (c : Char) (rest : List Char) :
    basicPart (escape c ++ rest) = some ([c], rest) := by
  rcases escape_cases c with ⟨hself, hprintable, hquote, hslash⟩ | ⟨d, code, hcode, hd, hread⟩
  · simp [hself, basicPart, hprintable, hquote, hslash]
  · simp only [mem_cons, not_mem_nil, or_false, not_or] at hd
    obtain ⟨hblank, htab, hfeed, hreturn⟩ := hd
    have hspaces : skipSpaces (d :: (code ++ rest)) = d :: (code ++ rest) := by
      simp [skipSpaces, isSpace, hblank, htab]
    have hline : joinedLine? (d :: (code ++ rest)) = none := by
      simp [joinedLine?, hspaces, lineBreak?, hfeed, hreturn]
    simp [hcode, basicPart, hline, hread rest]

/-- The first character of an escape is no quote, no line feed and no carriage return. -/
theorem head_escape {c d : Char} (h : d ∈ (escape c).head?) : d ∉ ['"', '\n', '\r'] := by
  rcases escape_cases c with ⟨hself, hprintable, hquote, -⟩ | ⟨e, code, hcode, -, -⟩
  · rw [hself] at h
    cases h
    simp only [mem_cons, not_mem_nil, or_false, not_or]
    refine ⟨hquote, ?_, ?_⟩ <;> rintro rfl <;> cases hprintable
  · rw [hcode] at h
    cases h
    decide

/-- An escape is not empty. -/
theorem escape_ne_nil (c : Char) : escape c ≠ [] := by
  rcases escape_cases c with ⟨hself, -⟩ | ⟨d, code, hcode, -⟩
  · simp [hself]
  · simp [hcode]

/-! ### Rows of quotes -/

/-- Every row of a character counts for the longest one. -/
theorem length_le_longestRow {c : Char} {text row : List Char}
    (h : row ∈ text.splitBy fun a b => a == c && b == c) (hc : row.head? = some c) :
    row.length ≤ longestRow c text := by
  have hfold : ∀ (rows : List (List Char)) (start : ℕ),
      start ≤ rows.foldl (fun longest r => if r.head? == some c then max longest r.length
        else longest) start ∧
      ∀ r ∈ rows, r.head? = some c → r.length ≤ rows.foldl (fun longest r =>
        if r.head? == some c then max longest r.length else longest) start := by
    intro rows
    induction rows with
    | nil => simp
    | cons first rows ih =>
      intro start
      obtain ⟨hstart, hrows⟩ :=
        ih (if first.head? == some c then max start first.length else start)
      have hfirst : start ≤ if first.head? == some c then max start first.length else start := by
        split <;> simp
      refine ⟨hfirst.trans hstart, fun r hr hhead => ?_⟩
      rcases mem_cons.mp hr with rfl | hr
      · refine le_trans ?_ hstart
        simp [hhead]
      · exact hrows r hr hhead
  exact (hfold _ 0).2 row h hc

/-- A text is a row of a character and something else. -/
theorem exists_row_append (c : Char) (text : List Char) :
    ∃ n rest, text = replicate n c ++ rest ∧ ∀ d ∈ rest.head?, d ≠ c := by
  induction text with
  | nil => exact ⟨0, [], rfl, by simp⟩
  | cons d text ih =>
    by_cases hd : d = c
    · obtain ⟨n, rest, rfl, hrest⟩ := ih
      exact ⟨n + 1, rest, by rw [hd, replicate_succ, cons_append], hrest⟩
    · exact ⟨0, d :: text, rfl, by simpa using hd⟩

/-- A row of a character anywhere in a text is not longer than the longest one. -/
theorem le_longestRow (c : Char) (front back : List Char) {n : ℕ} (hn : 0 < n) :
    n ≤ longestRow c (front ++ (replicate n c ++ back)) := by
  -- The row is extended on both sides as far as possible.
  obtain ⟨k, before, hbefore, hlast⟩ := exists_row_append c front.reverse
  obtain ⟨m, after, hafter, hhead⟩ := exists_row_append c back
  rw [reverse_eq_iff, reverse_append, reverse_replicate] at hbefore
  rw [← getLast?_reverse] at hlast
  have htext : front ++ (replicate n c ++ back) =
      before.reverse ++ (replicate (k + n + m) c ++ after) := by
    simp only [hbefore, hafter, append_assoc, replicate_add]
  have hrow : (replicate (k + n + m) c).splitBy (fun a b => a == c && b == c) =
      [replicate (k + n + m) c] :=
    splitBy_of_isChain (by simp; omega) (by simp [isChain_replicate_of_rel])
  have hsplit : (front ++ (replicate n c ++ back)).splitBy (fun a b => a == c && b == c) =
      before.reverse.splitBy (fun a b => a == c && b == c) ++ ([replicate (k + n + m) c] ++
        after.splitBy (fun a b => a == c && b == c)) := by
    rw [htext, splitBy_append, splitBy_append, hrow]
    · intro a _ b hb
      simp [hhead b hb]
    · intro a ha b _
      simp [hlast a ha]
  have hmem : replicate (k + n + m) c ∈
      (front ++ (replicate n c ++ back)).splitBy fun a b => a == c && b == c := by
    rw [hsplit]
    simp
  have hlength := length_le_longestRow hmem (by rw [head?_replicate, if_neg (by omega)])
  rw [length_replicate] at hlength
  omega

/-! ### Strings on one line -/

/-- Behind the row of its characters a string on one line is closed by its quote. -/
theorem readLine_append {quote : Char} {char : Reader Char} {write : Char → List Char}
    {text : List Char} (hread : ∀ c ∈ text, ∀ rest, char (write c ++ rest) = some (c, rest))
    (hne : ∀ c ∈ text, write c ≠ []) (rest : List Char) (hend : char (quote :: rest) = none) :
    readLine quote char (text.flatMap write ++ quote :: rest) =
      some (String.ofList text, rest) := by
  have hchars : Reader.repeated char (text.flatMap write ++ quote :: rest) =
      (text.map id, quote :: rest) :=
    Reader.repeated_flatMap id (fun _ => True) (fun c hc tail _ => hread c hc tail) hne
      (fun _ _ _ => trivial) trivial hend
  rw [readLine, hchars, map_id]
  simp [Reader.skip?]

/-! ### Strings between three quotes -/

/-- The text of a string between three quotes, in the chunks in which it is read. -/
inductive Chunks (quote : Char) (part : List Char → Option (List Char × List Char)) :
    List Char → List Char → Prop where
  /-- Up to two quotes at the end. -/
  | last {k : ℕ} (hk : k ≤ 2) : Chunks quote part (replicate k quote) (replicate k quote)
  /-- A character that is read alone. -/
  | char {c : Char} {chunk text written : List Char} (hne : chunk ≠ [])
      (hread : ∀ rest, part (chunk ++ rest) = some ([c], rest))
      (h : Chunks quote part text written) : Chunks quote part (c :: text) (chunk ++ written)
  /-- One or two quotes in front of something else. -/
  | quotes {k : ℕ} {d : Char} {text written : List Char} (hpos : 1 ≤ k) (hk : k ≤ 2)
      (hd : d ∈ written.head?) (hne : d ≠ quote) (h : Chunks quote part text written) :
      Chunks quote part (replicate k quote ++ text) (replicate k quote ++ written)

variable {quote : Char} {part : List Char → Option (List Char × List Char)}

/-- Of a row of quotes one or two are read, and more are left for the end of the string. -/
theorem innerQuotes_replicate (quote : Char) (k : ℕ) {rest : List Char}
    (hrest : ∀ c ∈ rest.head?, c ≠ quote) :
    innerQuotes quote (replicate k quote ++ rest) =
      if 1 ≤ k ∧ k ≤ 2 then some (replicate k quote, rest) else none := by
  have hquotes : (replicate k quote ++ rest).takeWhile (· == quote) = replicate k quote :=
    (takeWhile_dropWhile_append (by simp) (by simpa using hrest)).1
  have hdrop : (replicate k quote ++ rest).drop k = rest := by simp
  by_cases hk : 1 ≤ k ∧ k ≤ 2
  · simp [innerQuotes, hquotes, hk, hdrop]
  · rw [if_neg hk]
    simp only [innerQuotes, hquotes, length_replicate]
    rw [if_neg (by simpa using hk)]

/-- The chunks are read one by one, up to the quotes at the end. -/
theorem Chunks.repeated {text written rest : List Char} (h : Chunks quote part text written)
    (hpart : ∀ tail, part (quote :: tail) = innerQuotes quote (quote :: tail))
    (hrest : ∀ c ∈ rest.head?, c ≠ quote) :
    ∃ parts k, k ≤ 2 ∧ parts.flatten ++ replicate k quote = text ∧
      Reader.repeated part (written ++ (replicate 3 quote ++ rest)) =
        (parts, replicate (k + 3) quote ++ rest) := by
  induction h with
  | @last k hk =>
    have hnone : part (replicate (k + 3) quote ++ rest) = none := by
      have hquotes := innerQuotes_replicate quote (k + 3) hrest
      rw [if_neg (by omega), replicate_succ, cons_append, ← hpart] at hquotes
      rwa [replicate_succ, cons_append]
    refine ⟨[], k, hk, by simp, ?_⟩
    rw [← append_assoc, replicate_append_replicate, Reader.repeated_of_none hnone]
  | @char c chunk text written hne hread h ih =>
    obtain ⟨parts, k, hk, htext, hparts⟩ := ih
    refine ⟨[c] :: parts, k, hk, by rw [flatten_cons, ← htext]; rfl, ?_⟩
    have hpos := length_pos_iff.mpr hne
    rw [append_assoc, Reader.repeated_of_some (hread _) (by simp; omega), hparts]
  | @quotes k d text written hpos hk hd hne h ih =>
    obtain ⟨parts, j, hj, htext, hparts⟩ := ih
    have hread : part (replicate k quote ++ (written ++ (replicate 3 quote ++ rest))) =
        some (replicate k quote, written ++ (replicate 3 quote ++ rest)) := by
      have hother : ∀ c ∈ (written ++ (replicate 3 quote ++ rest)).head?, c ≠ quote := by
        intro c hc
        rw [head?_append, Option.mem_def.mp hd] at hc
        cases hc
        exact hne
      have hquotes := innerQuotes_replicate quote k hother
      rw [if_pos ⟨hpos, hk⟩] at hquotes
      obtain ⟨n, rfl⟩ := Nat.exists_eq_add_of_le' hpos
      rwa [replicate_succ, cons_append, hpart]
    refine ⟨replicate k quote :: parts, j, hj, by rw [flatten_cons, append_assoc, htext], ?_⟩
    rw [append_assoc, Reader.repeated_of_some hread (by simp; omega), hparts]

/-- A string between three quotes is read from its chunks, behind a line break that may be left out
where the chunks do not begin with one. -/
theorem Chunks.readLines_append {text written opening rest : List Char}
    (h : Chunks quote part text written)
    (hpart : ∀ tail, part (quote :: tail) = innerQuotes quote (quote :: tail))
    (hopening : (lineBreak? (opening ++ (written ++ (replicate 3 quote ++ rest)))).getD
      (opening ++ (written ++ (replicate 3 quote ++ rest))) =
        written ++ (replicate 3 quote ++ rest))
    (hrest : ∀ c ∈ rest.head?, c ≠ quote) :
    readLines quote part (opening ++ (written ++ (replicate 3 quote ++ rest))) =
      some (String.ofList text, rest) := by
  obtain ⟨parts, k, hk, htext, hparts⟩ := h.repeated hpart hrest
  have hquotes : ((replicate (k + 3) quote ++ rest).takeWhile (· == quote)).length = k + 3 := by
    rw [(takeWhile_dropWhile_append (by simp) (by simpa using hrest)).1, length_replicate]
  have hinner : min (k + 3 - 3) 2 = k := by omega
  simp only [readLines, hopening, hparts, hquotes, hinner, htext]
  rw [if_neg (by omega)]
  simp

/-- Texts can be proved about from the front: rows of less than three quotes are taken off whole, and
of the others three quotes. -/
theorem row_induction {motive : List Char → Prop} (quote : Char)
    (last : ∀ k, k ≤ 2 → motive (replicate k quote))
    (char : ∀ c text, c ≠ quote → motive text → motive (c :: text))
    (quotes : ∀ k c text, 1 ≤ k → k ≤ 2 → c ≠ quote → motive (c :: text) →
      motive (replicate k quote ++ c :: text))
    (three : ∀ text, motive text → motive (replicate 3 quote ++ text)) (text : List Char) :
    motive text := by
  induction hlength : text.length using Nat.strong_induction_on generalizing text with
  | h n ih =>
    obtain ⟨k, rest, rfl, hrest⟩ := exists_row_append quote text
    rw [length_append, length_replicate] at hlength
    rcases Nat.lt_or_ge k 3 with hk | hk
    · cases rest with
      | nil => simpa using last k (by omega)
      | cons c rest =>
        have hc : c ≠ quote := hrest c rfl
        have hbehind : motive rest := ih rest.length (by simp at hlength; omega) rest rfl
        rcases Nat.eq_zero_or_pos k with rfl | hpos
        · exact char c rest hc hbehind
        · exact quotes k c rest hpos (by omega) hc (char c rest hc hbehind)
    · obtain ⟨m, rfl⟩ := Nat.exists_eq_add_of_le hk
      have hbehind : motive (replicate m quote ++ rest) :=
        ih (m + rest.length) (by omega) _ (by simp)
      rw [replicate_add, append_assoc]
      exact three _ hbehind

/-- A character other than a quote between three double quotes, where line feeds stand for
themselves. -/
def lineChar (c : Char) : List Char :=
  if c == '\n' then [c] else escape c

/-- Other characters than quotes end a row of quotes. -/
theorem escapeLines_cons {c : Char} (hc : c ≠ '"') (row : ℕ) (text : List Char) :
    escapeLines row (c :: text) = lineChar c ++ escapeLines 0 text := by
  have hquote : (c == '"') = false := by simpa using hc
  rw [escapeLines, hquote]
  rfl

/-- They are read alone. -/
theorem basicPart_lineChar_append (c : Char) (rest : List Char) :
    basicPart (lineChar c ++ rest) = some ([c], rest) := by
  by_cases hc : c = '\n'
  · rw [hc]
    rfl
  · have hfeed : (c == '\n') = false := by simpa using hc
    rw [lineChar, hfeed]
    exact basicPart_escape_append c rest

/-- They are not written as nothing, and their text does not begin with a quote. -/
theorem exists_head_lineChar (c : Char) : ∃ d ∈ (lineChar c).head?, d ≠ '"' := by
  by_cases hfeed : c = '\n'
  · exact ⟨'\n', by rw [hfeed]; rfl, by decide⟩
  · have hchar : lineChar c = escape c := by
      rw [lineChar, if_neg (by simpa using hfeed)]
    obtain ⟨d, code, hcode⟩ := exists_cons_of_ne_nil (escape_ne_nil c)
    have hd : d ∈ (escape c).head? := by rw [hcode]; rfl
    exact ⟨d, hchar ▸ hd, fun heq => head_escape hd (by simp [heq])⟩

/-- The inside of a string between three double quotes consists of chunks. -/
theorem chunks_escapeLines (text : List Char) :
    Chunks '"' basicPart text (escapeLines 0 text) := by
  induction text using row_induction '"' with
  | last k hk =>
    have hsame : escapeLines 0 (replicate k '"') = replicate k '"' := by
      interval_cases k <;> rfl
    rw [hsame]
    exact .last hk
  | char c text hc ih =>
    obtain ⟨d, hd, -⟩ := exists_head_lineChar c
    rw [escapeLines_cons hc]
    exact .char (by rintro hnil; rw [hnil] at hd; cases hd) (basicPart_lineChar_append c) ih
  | quotes k c text hpos hk hc ih =>
    have hrow : escapeLines 0 (replicate k '"' ++ c :: text) =
        replicate k '"' ++ escapeLines 0 (c :: text) := by
      interval_cases k <;> simp [replicate_succ, escapeLines, hc]
    obtain ⟨d, hd, hne⟩ := exists_head_lineChar c
    rw [hrow]
    refine .quotes hpos hk ?_ hne ih
    rw [escapeLines_cons hc, head?_append, Option.mem_def.mp hd]
    rfl
  | three text ih =>
    -- The third quote is escaped and ends the row.
    have hrow : escapeLines 0 (replicate 3 '"' ++ text) =
        replicate 2 '"' ++ (escape '"' ++ escapeLines 0 text) := rfl
    have htext : replicate 3 '"' ++ text = replicate 2 '"' ++ '"' :: text := rfl
    rw [hrow, htext]
    exact .quotes (d := '\\') (by decide) le_rfl rfl (by decide)
      (.char (escape_ne_nil '"') (basicPart_escape_append '"') ih)

/-- A character that needs no escape is read alone between three single quotes. -/
theorem literalPart_cons {c : Char} (hquote : c ≠ '\'') (hc : isPrintable c = true ∨ c = '\n')
    (rest : List Char) : literalPart (c :: rest) = some ([c], rest) := by
  rcases hc with hc | rfl
  · simp [literalPart, hquote, hc]
  · rfl

/-- The inside of a string between three single quotes consists of chunks as well, where it needs no
escape. -/
theorem chunks_literal {text : List Char} (hchars : ∀ c ∈ text, isPrintable c = true ∨ c = '\n')
    (hrow : ¬ replicate 3 '\'' <:+: text) : Chunks '\'' literalPart text text := by
  induction text using row_induction '\'' with
  | last k hk => exact .last hk
  | char c text hc ih =>
    have hbehind := ih (fun d hd => hchars d (mem_cons_of_mem _ hd))
      fun hmem => hrow (hmem.trans (suffix_cons c text).isInfix)
    have hchunk : Chunks '\'' literalPart (c :: text) ([c] ++ text) :=
      .char (cons_ne_nil c []) (literalPart_cons hc (hchars c mem_cons_self)) hbehind
    exact hchunk
  | quotes k c text hpos hk hc ih =>
    have hbehind := ih (fun d hd => hchars d (mem_append_right _ hd))
      fun hmem => hrow (hmem.trans (suffix_append _ _).isInfix)
    exact .quotes hpos hk rfl hc hbehind
  | three text ih => exact absurd (prefix_append _ _).isInfix hrow

/-! ### Strings in every style -/

/-- A string without control characters has printable characters and line feeds only. -/
theorem isPrintable_of_hasControl {text : List Char} (h : hasControl text = false) {c : Char}
    (hc : c ∈ text) : isPrintable c = true ∨ c = '\n' := by
  have hnone := any_eq_false.mp h c hc
  by_cases hprintable : isPrintable c = true
  · exact Or.inl hprintable
  · exact Or.inr (by simpa [hprintable] using hnone)

/-- A string without a row of a character does not hold it. -/
theorem not_mem_of_longestRow {c : Char} {text : List Char} (h : longestRow c text = 0) :
    c ∉ text := by
  intro hc
  obtain ⟨front, back, rfl⟩ := append_of_mem hc
  have hrow := le_longestRow c front back one_pos
  exact absurd hrow (by rw [replicate_one, singleton_append, h]; decide)

/-- A string with short rows of a character only does not hold three of them. -/
theorem not_infix_of_longestRow {c : Char} {text : List Char} (h : longestRow c text ≤ 2) :
    ¬ replicate 3 c <:+: text := by
  rintro ⟨front, back, rfl⟩
  have hrow := le_longestRow c front back (n := 3) (by norm_num)
  rw [← append_assoc] at hrow
  omega

/-- What the chosen style says about a string. -/
theorem styleOf_cases (text : List Char) :
    styleOf text = .basic ∨
      (styleOf text = .literal ∧ ∀ c ∈ text, c ≠ '\'' ∧ isPrintable c = true) ∨
      styleOf text = .basicLines ∨
      (styleOf text = .literalLines ∧ ¬ replicate 3 '\'' <:+: text ∧
        ∀ c ∈ text, isPrintable c = true ∨ c = '\n') := by
  simp only [styleOf]
  split
  · exact Or.inl rfl
  split
  · next h =>
    simp only [Bool.and_eq_true, Bool.not_eq_true', beq_iff_eq] at h
    obtain ⟨⟨hcontrol, hbroken⟩, hsingles⟩ := h
    refine Or.inr (Or.inl ⟨rfl, fun c hc => ⟨?_, ?_⟩⟩)
    · rintro rfl
      exact not_mem_of_longestRow hsingles hc
    · refine (isPrintable_of_hasControl hcontrol hc).resolve_right ?_
      rintro rfl
      simp [hc] at hbroken
  split
  · exact Or.inr (Or.inr (Or.inl rfl))
  split
  · next h =>
    simp only [Bool.and_eq_true, Bool.not_eq_true', decide_eq_true_eq] at h
    exact Or.inr (Or.inr (Or.inr ⟨rfl, not_infix_of_longestRow h.2,
      fun c hc => isPrintable_of_hasControl h.1 hc⟩))
  split
  · exact Or.inr (Or.inr (Or.inl rfl))
  · exact Or.inl rfl

/-- Without three quotes at its head a string is one on a line. -/
theorem read_eq_readShort {text : List Char} (hdouble : ¬ replicate 3 '"' <+: text)
    (hsingle : ¬ replicate 3 '\'' <+: text) : read text = readShort text := by
  unfold read
  split
  · exact absurd (prefix_append _ _) hdouble
  · exact absurd (prefix_append _ _) hsingle
  · rfl

/-- A string on one line does not begin with three quotes. -/
theorem not_three_quotes {quote : Char} {inner rest : List Char}
    (hinner : ∀ c ∈ inner.head?, c ≠ quote) (hrest : ∀ c ∈ rest.head?, c ≠ quote) :
    ¬ replicate 3 quote <+: quote :: (inner ++ quote :: rest) := by
  intro h
  have htwo : replicate 2 quote <+: inner ++ quote :: rest := (cons_prefix_cons.mp h).2
  cases inner with
  | cons c inner => exact hinner c rfl (cons_prefix_cons.mp htwo).1.symm
  | nil =>
    cases rest with
    | nil => simp [replicate_succ] at htwo
    | cons c rest =>
      exact hrest c rfl (cons_prefix_cons.mp (cons_prefix_cons.mp htwo).2).1.symm

/-- Where a text begins like no line break, it begins with none. -/
theorem lineBreak?_eq_none {text : List Char} (h : ∀ c ∈ text.head?, c ≠ '\n' ∧ c ≠ '\r') :
    lineBreak? text = none := by
  unfold lineBreak?
  split
  · exact absurd rfl (h '\n' rfl).1
  · exact absurd rfl (h '\r' rfl).2
  · rfl

/-- A line break is put in front of the inside of a string between three quotes if there is one
inside, and then it is no part of the string. -/
theorem lineBreak?_opening (text written behind : List Char)
    (h : text.contains '\n' = false → ∀ c ∈ (written ++ behind).head?, c ≠ '\n' ∧ c ≠ '\r') :
    (lineBreak? ((if text.contains '\n' then ['\n'] else []) ++ (written ++ behind))).getD
      ((if text.contains '\n' then ['\n'] else []) ++ (written ++ behind)) = written ++ behind := by
  cases hbroken : text.contains '\n' with
  | true => rfl
  | false =>
    have hnone := lineBreak?_eq_none (h hbroken)
    simp [hnone]

/-- The inside of a string without line feeds does not begin with a line break. -/
theorem head_escapeLines {text behind : List Char} (hbroken : text.contains '\n' = false)
    (hbehind : ∀ c ∈ behind.head?, c ≠ '\n' ∧ c ≠ '\r') :
    ∀ c ∈ (escapeLines 0 text ++ behind).head?, c ≠ '\n' ∧ c ≠ '\r' := by
  cases text with
  | nil => exact hbehind
  | cons d text =>
    intro c hc
    by_cases hquote : d = '"'
    · rw [hquote] at hc
      cases hc
      decide
    · obtain ⟨e, he, -⟩ := exists_head_lineChar d
      have hfeed : (d == '\n') = false := by
        rw [contains_cons, Bool.or_eq_false_iff] at hbroken
        rw [BEq.comm]
        exact hbroken.1
      rw [escapeLines_cons hquote, append_assoc, head?_append, Option.mem_def.mp he] at hc
      cases hc
      rw [lineChar, hfeed] at he
      have hother := head_escape he
      simp only [mem_cons, not_mem_nil, or_false, not_or] at hother
      exact hother.2

/-- A string between double quotes is read back. -/
theorem read_basic_append (text : List Char) {rest : List Char}
    (hrest : ∀ c ∈ rest.head?, c ≠ '"') :
    read (writeAs .basic text ++ rest) = some (String.ofList text, rest) := by
  have htext : writeAs .basic text ++ rest = '"' :: (text.flatMap escape ++ '"' :: rest) := by
    simp [writeAs]
  have hhead : ∀ c ∈ (text.flatMap escape).head?, c ≠ '"' := by
    cases text with
    | nil => simp
    | cons d text =>
      intro c hc
      obtain ⟨e, code, hcode⟩ := exists_cons_of_ne_nil (escape_ne_nil d)
      rw [flatMap_cons, hcode] at hc
      cases hc
      have hother := head_escape (c := d) (d := c) (by rw [hcode]; rfl)
      rintro rfl
      exact hother (by decide)
  rw [htext, read_eq_readShort (not_three_quotes hhead hrest)
    fun h => absurd (cons_prefix_cons.mp h).1 (by decide)]
  exact readLine_append (fun c _ tail => basicChar_escape_append c tail)
    (fun c _ => escape_ne_nil c) rest rfl

/-- A string between single quotes is read back, if it needs no escape. -/
theorem read_literal_append {text rest : List Char}
    (hchars : ∀ c ∈ text, c ≠ '\'' ∧ isPrintable c = true) (hrest : ∀ c ∈ rest.head?, c ≠ '\'') :
    read (writeAs .literal text ++ rest) = some (String.ofList text, rest) := by
  have htext : writeAs .literal text ++ rest = '\'' :: (text ++ '\'' :: rest) := by
    simp [writeAs]
  have hhead : ∀ c ∈ text.head?, c ≠ '\'' := fun c hc => (hchars c (mem_of_mem_head? hc)).1
  have hread : ∀ c ∈ text, ∀ tail, literalChar ([c] ++ tail) = some (c, tail) := by
    intro c hc tail
    simp [literalChar, hchars c hc]
  have hline : readLine '\'' literalChar (text.flatMap (fun c => [c]) ++ '\'' :: rest) =
      some (String.ofList text, rest) := readLine_append hread (by simp) rest rfl
  rw [flatMap_singleton'] at hline
  rw [htext, read_eq_readShort (fun h => absurd (cons_prefix_cons.mp h).1 (by decide))
    (not_three_quotes hhead hrest)]
  exact hline

/-- A string between three double quotes is read back. -/
theorem read_basicLines_append (text : List Char) {rest : List Char}
    (hrest : ∀ c ∈ rest.head?, c ≠ '"') :
    read (writeAs .basicLines text ++ rest) = some (String.ofList text, rest) := by
  have htext : writeAs .basicLines text ++ rest = replicate 3 '"' ++
      ((if text.contains '\n' then ['\n'] else []) ++
        (escapeLines 0 text ++ (replicate 3 '"' ++ rest))) := by
    simp only [writeAs, append_assoc]
    rfl
  have hopening := lineBreak?_opening text (escapeLines 0 text) (replicate 3 '"' ++ rest)
    fun hbroken => head_escapeLines hbroken (by rintro c ⟨⟩; decide)
  rw [htext]
  exact (chunks_escapeLines text).readLines_append (fun _ => rfl) hopening hrest

/-- A string between three single quotes is read back, if it needs no escape. -/
theorem read_literalLines_append {text rest : List Char} (hrow : ¬ replicate 3 '\'' <:+: text)
    (hchars : ∀ c ∈ text, isPrintable c = true ∨ c = '\n') (hrest : ∀ c ∈ rest.head?, c ≠ '\'') :
    read (writeAs .literalLines text ++ rest) = some (String.ofList text, rest) := by
  have htext : writeAs .literalLines text ++ rest = replicate 3 '\'' ++
      ((if text.contains '\n' then ['\n'] else []) ++
        (text ++ (replicate 3 '\'' ++ rest))) := by
    simp only [writeAs, append_assoc]
    rfl
  have hhead : text.contains '\n' = false →
      ∀ c ∈ (text ++ (replicate 3 '\'' ++ rest)).head?, c ≠ '\n' ∧ c ≠ '\r' := by
    intro hbroken c hc
    cases text with
    | nil =>
      cases hc
      decide
    | cons d text =>
      cases hc
      have hfeed : c ≠ '\n' := by
        rintro rfl
        simp at hbroken
      refine ⟨hfeed, ?_⟩
      rintro rfl
      rcases hchars '\r' mem_cons_self with h | h <;> cases h
  rw [htext]
  exact (chunks_literal hchars hrow).readLines_append (fun _ => rfl)
    (lineBreak?_opening _ _ _ hhead) hrest

/-- A string that is not followed by a quote is read back. -/
theorem read_write_append (text : List Char) {rest : List Char}
    (hrest : ∀ c ∈ rest.head?, c ≠ '"' ∧ c ≠ '\'') :
    read (write text ++ rest) = some (String.ofList text, rest) := by
  have hdouble : ∀ c ∈ rest.head?, c ≠ '"' := fun c hc => (hrest c hc).1
  have hsingle : ∀ c ∈ rest.head?, c ≠ '\'' := fun c hc => (hrest c hc).2
  unfold write
  rcases styleOf_cases text with h | ⟨h, hchars⟩ | h | ⟨h, hrow, hchars⟩ <;> rw [h]
  · exact read_basic_append text hdouble
  · exact read_literal_append hchars hsingle
  · exact read_basicLines_append text hdouble
  · exact read_literalLines_append hrow hchars hsingle

/-- The text of a string begins with a quote. -/
theorem head_write (text : List Char) : ∃ c ∈ (write text).head?, c = '"' ∨ c = '\'' := by
  unfold write
  cases styleOf text with
  | basic => exact ⟨'"', rfl, Or.inl rfl⟩
  | literal => exact ⟨'\'', rfl, Or.inr rfl⟩
  | basicLines => exact ⟨'"', rfl, Or.inl rfl⟩
  | literalLines => exact ⟨'\'', rfl, Or.inr rfl⟩

/-- Without a quote at its head a text begins with no string on a line. -/
theorem readShort_eq_none {text : List Char} (h : ∀ c ∈ text.head?, c ≠ '"' ∧ c ≠ '\'') :
    readShort text = none := by
  unfold readShort
  split
  · exact absurd rfl (h '"' rfl).1
  · exact absurd rfl (h '\'' rfl).2
  · rfl

/-- It begins with no other string either. -/
theorem read_eq_none {text : List Char} (h : ∀ c ∈ text.head?, c ≠ '"' ∧ c ≠ '\'') :
    read text = none := by
  unfold read
  split
  · exact absurd rfl (h '"' rfl).1
  · exact absurd rfl (h '\'' rfl).2
  · exact readShort_eq_none h

end CurvePlot.Toml.Quoted
