import CurvePlot.Proofs.Text.Cuts
import CurvePlot.Proofs.Toml.NumberText
import CurvePlot.Proofs.Toml.OpenTables
import CurvePlot.Proofs.Toml.QuotedText
import CurvePlot.Toml.Document

/-!
# Written documents are read back

The lines of a document are read one by one, each behind the blank lines in front of it
(`Toml.linesOf?_passages`). A line is a header, or a key with the text of a value: a truth value, a
natural number, a double, a string or a row of strings (`Toml.ReadsAs`). Keys without quotes are
read part by part (`Toml.readKey_append`). The lines of a table behind its header fill a table in
the document (`Toml.Place.IsOpen.foldlM_tablePassages`).
-/

namespace CurvePlot.Toml

open CurvePlot.Text

/-! ### Gaps -/

/-- Whether a text begins with something other than a blank, a comment or a line break. -/
def HasContent (text : List Char) : Prop :=
  ∃ c ∈ text.head?, c ∉ [' ', '\t', '#', '\n', '\r']

/-- What a text with content begins with stays there when something is put behind it. -/
theorem HasContent.append {text : List Char} (h : HasContent text) (rest : List Char) :
    HasContent (text ++ rest) := by
  obtain ⟨c, hc, hother⟩ := h
  exact ⟨c, by rw [List.head?_append, Option.mem_def.mp hc]; rfl, hother⟩

/-- No spaces are skipped in front of content. -/
theorem HasContent.skipSpaces_eq {text : List Char} (h : HasContent text) :
    skipSpaces text = text := by
  obtain ⟨c, hc, hother⟩ := h
  obtain ⟨rest, rfl⟩ := List.head?_eq_some_iff.mp hc
  simp only [List.mem_cons, List.not_mem_nil, or_false, not_or] at hother
  simp [skipSpaces, isSpace, hother]

/-- A line with content is not blank, also behind a space. -/
theorem HasContent.blankLine_eq_none {text : List Char} (h : HasContent text) :
    blankLine text = none ∧ blankLine (' ' :: text) = none := by
  have hspaces := h.skipSpaces_eq
  have hspace : skipSpaces (' ' :: text) = skipSpaces text := rfl
  obtain ⟨c, hc, hother⟩ := h
  obtain ⟨rest, rfl⟩ := List.head?_eq_some_iff.mp hc
  simp only [List.mem_cons, List.not_mem_nil, or_false, not_or] at hother
  have hnone : (lineBreak? (skipComment (skipSpaces (c :: rest)))).map (fun rest => ((), rest)) =
      none := by
    rw [hspaces]
    simp [skipComment, lineBreak?, hother]
  exact ⟨hnone, by rw [blankLine, hspace]; exact hnone⟩

/-- In front of content there is no gap but spaces. -/
theorem HasContent.skipGap_eq {text : List Char} (h : HasContent text) :
    skipGap text = text ∧ skipGap (' ' :: text) = text := by
  obtain ⟨hnone, hspace⟩ := h.blankLine_eq_none
  constructor
  · rw [skipGap, Reader.repeated_of_none hnone, h.skipSpaces_eq]
  · rw [skipGap, Reader.repeated_of_none hspace]
    exact h.skipSpaces_eq

/-- Whether a line is blank: empty, or a comment. -/
def IsBlank (line : List Char) : Prop :=
  line = [] ∨ ∃ comment, line = '#' :: comment ∧ ∀ c ∈ comment, isPrintable c = true

/-- A blank line is taken off. -/
theorem IsBlank.blankLine_append {line : List Char} (h : IsBlank line) (rest : List Char) :
    blankLine (line ++ '\n' :: rest) = some ((), rest) := by
  rcases h with rfl | ⟨comment, rfl, hcomment⟩
  · rfl
  · have hdrop : (comment ++ '\n' :: rest).dropWhile isPrintable = '\n' :: rest :=
      (takeWhile_dropWhile_append hcomment (by rintro c ⟨⟩; rfl)).2
    have hskip : skipComment (skipSpaces ('#' :: comment ++ '\n' :: rest)) = '\n' :: rest := hdrop
    rw [blankLine, hskip]
    rfl

/-- Blank lines in front of content are skipped. -/
theorem skipGap_append {blanks : List (List Char)} (h : ∀ line ∈ blanks, IsBlank line)
    {text : List Char} (htext : HasContent text) :
    skipGap (blanks.flatMap (fun line => line ++ ['\n']) ++ text) = text := by
  have hread : ∀ line ∈ blanks, ∀ tail, True →
      blankLine ((line ++ ['\n']) ++ tail) = some ((), tail) := by
    intro line hline tail _
    rw [List.append_assoc]
    exact (h line hline).blankLine_append tail
  have hblanks := Reader.repeated_flatMap (fun _ => ()) (fun _ => True) hread
    (by simp) (fun _ _ _ => trivial) trivial htext.blankLine_eq_none.1
  rw [skipGap, hblanks]
  exact htext.skipSpaces_eq

/-! ### Keys -/

/-- Whether a name may stand as a part of a key without quotes. -/
def IsBare (name : String) : Prop :=
  name.toList ≠ [] ∧ ∀ c ∈ name.toList, isKeyChar c = true

instance (name : String) : Decidable (IsBare name) :=
  decidable_of_iff (name.toList ≠ [] ∧ name.toList.all isKeyChar = true)
    (and_congr_right fun _ => List.all_eq_true)

/-- Such a name has content that is neither a quote nor a bracket. -/
theorem IsBare.head {name : String} (h : IsBare name) :
    ∃ c ∈ name.toList.head?, c ∉ [' ', '\t', '#', '\n', '\r', '"', '\'', '[', '.'] := by
  obtain ⟨c, rest, hc⟩ := List.exists_cons_of_ne_nil h.1
  refine ⟨c, by rw [hc]; rfl, fun hother => ?_⟩
  have hkey := h.2 c (by rw [hc]; exact List.mem_cons_self)
  simp only [List.mem_cons, List.not_mem_nil, or_false] at hother
  rcases hother with rfl | rfl | rfl | rfl | rfl | rfl | rfl | rfl | rfl <;> revert hkey <;> decide

/-- A part of a key ends at the first character that cannot belong to it. -/
theorem IsBare.readKeyPart_append {name : String} (h : IsBare name) {rest : List Char}
    (hrest : ∀ c ∈ rest.head?, isKeyChar c = false) :
    readKeyPart (name.toList ++ rest) = some (name, rest) := by
  obtain ⟨c, hc, hother⟩ := h.head
  simp only [List.mem_cons, List.not_mem_nil, or_false, not_or] at hother
  have hquote : Quoted.readShort (name.toList ++ rest) = none := by
    refine Quoted.readShort_eq_none fun d hd => ?_
    rw [List.head?_append, Option.mem_def.mp hc] at hd
    cases hd
    exact ⟨hother.2.2.2.2.2.1, hother.2.2.2.2.2.2.1⟩
  obtain ⟨htake, hdrop⟩ := takeWhile_dropWhile_append h.2 hrest
  have hne : name.toList.isEmpty = false := by simpa using h.1
  rw [readKeyPart, hquote]
  dsimp only
  rw [htake, hdrop, hne]
  simp

/-- A bare name has content. -/
theorem IsBare.hasContent_append {name : String} (h : IsBare name) (rest : List Char) :
    HasContent (name.toList ++ rest) := by
  obtain ⟨c, hc, hother⟩ := h.head
  refine HasContent.append ⟨c, hc, fun hblank => hother ?_⟩ rest
  simp only [List.mem_cons, List.not_mem_nil, or_false] at hblank ⊢
  tauto

/-- Where another character stands, it is not skipped. -/
theorem skip?_eq_none {c : Char} {text : List Char} (h : ∀ d ∈ text.head?, d ≠ c) :
    Reader.skip? [c] text = none := by
  cases text with
  | nil => rfl
  | cons d text =>
    have hne : c ≠ d := (h d rfl).symm
    simp [Reader.skip?, hne]

/-- A key of bare names is read part by part. -/
theorem readKey_append {first : String} (hfirst : IsBare first) (others : List String)
    (hothers : ∀ name ∈ others, IsBare name) (hlength : others.length < nestingLimit)
    (rest : List Char) (hrest : ∀ c ∈ rest.head?, isKeyChar c = false)
    (hend : ∀ c ∈ (skipSpaces rest).head?, c ≠ '.') :
    readKey (first.toList ++ (others.flatMap (fun name => '.' :: name.toList) ++ rest)) =
      some (.ofParts first others, skipSpaces rest) := by
  have hfurther : ∀ name ∈ others, ∀ tail : List Char, (∀ c ∈ tail.head?, isKeyChar c = false) →
      readFurtherPart (('.' :: name.toList) ++ tail) = some (name, tail) := by
    intro name hname tail htail
    have hspaces := ((hothers name hname).hasContent_append tail).skipSpaces_eq
    have hpoint : Reader.skip? ['.'] (skipSpaces (('.' :: name.toList) ++ tail)) =
        some (name.toList ++ tail) := Reader.skip?_append ['.'] _
    simp only [readFurtherPart, hpoint, hspaces, (hothers name hname).readKeyPart_append htail,
      Option.bind_eq_bind, Option.bind_some]
  have hnone : readFurtherPart rest = none := by
    simp [readFurtherPart, skip?_eq_none hend]
  have hpoint : ∀ name ∈ others, ∀ tail : List Char,
      ∀ c ∈ ((('.' :: name.toList) ++ tail).head?), isKeyChar c = false := by
    rintro name - tail c hc
    cases hc
    rfl
  have hparts := Reader.repeated_flatMap id _ hfurther (by simp) hpoint hrest hnone
  rw [List.map_id] at hparts
  have hbehind : ∀ c ∈ (others.flatMap (fun name => '.' :: name.toList) ++ rest).head?,
      isKeyChar c = false := by
    cases others with
    | nil => exact hrest
    | cons name others =>
      intro c hc
      cases hc
      rfl
  simp only [readKey, (hfirst.hasContent_append _).skipSpaces_eq, hfirst.readKeyPart_append hbehind,
    hparts, hlength, Option.bind_eq_bind, Option.bind_some, if_true]

/-! ### Values -/

/-- Whether a text behind a space is read as a value up to the end of its line. -/
def ReadsAs (text : List Char) (value : TomlValue) : Prop :=
  ∀ rest, readValue nestingLimit (skipSpaces (' ' :: (text ++ '\n' :: rest))) =
    some (value, '\n' :: rest)

/-- A text that opens no array and no table on one line is a value without others inside. -/
theorem readValue_eq_readSimple (room : ℕ) {text : List Char}
    (h : ∀ c ∈ text.head?, c ≠ '[' ∧ c ≠ '\x7b') : readValue room text = readSimple text := by
  cases room with
  | zero => rfl
  | succ room =>
    unfold readValue
    split
    · exact absurd rfl (h '[' rfl).1
    · exact absurd rfl (h '\x7b' rfl).2
    · rfl

/-- The truth values are read. -/
theorem readsAs_boolean (value : Bool) :
    ReadsAs (if value then ['t', 'r', 'u', 'e'] else ['f', 'a', 'l', 's', 'e'])
      (.boolean value) := by
  intro rest
  cases value <;> rfl

/-- A string is read in front of anything but a quote. -/
theorem readSimple_write_append (text : List Char) {rest : List Char}
    (hrest : ∀ c ∈ rest.head?, c ≠ '"' ∧ c ≠ '\'') :
    readSimple (Quoted.write text ++ rest) = some (.string (String.ofList text), rest) := by
  obtain ⟨c, hc, hquote⟩ := Quoted.head_write text
  have hhead : ∀ d ∈ (Quoted.write text ++ rest).head?, d = '"' ∨ d = '\'' := by
    intro d hd
    rw [List.head?_append, Option.mem_def.mp hc] at hd
    cases hd
    exact hquote
  have hread := Quoted.read_write_append text hrest
  unfold readSimple
  split
  · next heq => exact absurd (hhead 't' (by rw [heq]; rfl)) (by decide)
  · next heq => exact absurd (hhead 'f' (by rw [heq]; rfl)) (by decide)
  · rw [hread]

/-- The text of a string has content and opens no array and no table. -/
theorem head_write_append (text rest : List Char) :
    HasContent (Quoted.write text ++ rest) ∧
      ∀ c ∈ (Quoted.write text ++ rest).head?, c ≠ '[' ∧ c ≠ '\x7b' := by
  obtain ⟨c, hc, hquote⟩ := Quoted.head_write text
  refine ⟨HasContent.append ⟨c, hc, ?_⟩ rest, fun d hd => ?_⟩
  · rcases hquote with rfl | rfl <;> decide
  · rw [List.head?_append, Option.mem_def.mp hc] at hd
    cases hd
    rcases hquote with rfl | rfl <;> decide

/-- Strings are read. -/
theorem readsAs_string (text : List Char) :
    ReadsAs (Quoted.write text) (.string (String.ofList text)) := by
  intro rest
  obtain ⟨hcontent, hhead⟩ := head_write_append text ('\n' :: rest)
  have hspaces : skipSpaces (' ' :: (Quoted.write text ++ '\n' :: rest)) =
      Quoted.write text ++ '\n' :: rest := hcontent.skipSpaces_eq
  rw [hspaces, readValue_eq_readSimple _ hhead]
  exact readSimple_write_append text (by rintro c ⟨⟩; decide)

/-- A number is read where its text begins like nothing else. -/
theorem readsAs_of_readNumber {word : List Char} {value : TomlValue} {c : Char}
    (hc : c ∈ word.head?) (hhead : isAsciiDigit c = true ∨ c = '-' ∨ c = 'i')
    (hdate : '-' ∉ word.tail) (htime : ':' ∉ word.tail)
    (hread : ∀ rest, readNumber (word ++ '\n' :: rest) = some (value, '\n' :: rest)) :
    ReadsAs word value := by
  intro rest
  have hother : c ∉ [' ', '\t', '#', '\n', '\r', '"', '\'', '[', '\x7b', 't', 'f'] := by
    rintro hmem
    simp only [List.mem_cons, List.not_mem_nil, or_false] at hmem
    rcases hmem with rfl | rfl | rfl | rfl | rfl | rfl | rfl | rfl | rfl | rfl | rfl <;>
      revert hhead <;> decide
  obtain ⟨behind, rfl⟩ := List.head?_eq_some_iff.mp hc
  simp only [List.mem_cons, List.not_mem_nil, or_false, not_or] at hother
  obtain ⟨hblank, htab, hmark, hfeed, hreturn, hdouble, hsingle, harray, htable, htrue, hfalse⟩ :=
    hother
  have hcontent : HasContent (c :: behind ++ '\n' :: rest) :=
    ⟨c, rfl, by simp [hblank, htab, hmark, hfeed, hreturn]⟩
  have hspaces : skipSpaces (' ' :: (c :: behind ++ '\n' :: rest)) = c :: behind ++ '\n' :: rest :=
    hcontent.skipSpaces_eq
  have hstring : Quoted.read (c :: behind ++ '\n' :: rest) = none :=
    Quoted.read_eq_none (by rintro d ⟨⟩; exact ⟨hdouble, hsingle⟩)
  have hmoment := readMoment_eq_none (c :: behind) hdate htime rest
  rw [hspaces, readValue_eq_readSimple _ (by rintro d ⟨⟩; exact ⟨harray, htable⟩)]
  unfold readSimple
  split
  · next heq => exact absurd (List.cons.inj heq).1 htrue
  · next heq => exact absurd (List.cons.inj heq).1 hfalse
  · rw [hstring, hmoment]
    exact hread rest

/-- Natural numbers of 63 bits are read. -/
theorem readsAs_nat {n : ℕ} (hn : n < 2 ^ 63) : ReadsAs (Nat.toDigits 10 n) (.integer n) := by
  have hdigits := (isWhole_toDigits n).isDigit
  obtain ⟨c, behind, hc⟩ := List.exists_cons_of_ne_nil (isWhole_toDigits n).nonempty
  have hnot : ∀ d, isAsciiDigit d = false → d ∉ (Nat.toDigits 10 n).tail := by
    intro d hd hmem
    rw [hdigits d (List.mem_of_mem_tail hmem)] at hd
    cases hd
  exact readsAs_of_readNumber (c := c) (by rw [hc]; rfl)
    (Or.inl (hdigits c (by rw [hc]; exact List.mem_cons_self))) (hnot '-' rfl) (hnot ':' rfl)
    (readNumber_nat_append hn)

/-- Doubles that are not NaN are read. -/
theorem readsAs_float {x : Float} (hx : x.isNaN = false) :
    ReadsAs (writeFloat x).toList (.float x) := by
  obtain ⟨sign, hsign, hcases⟩ := writeFloat_cases hx
  obtain ⟨body, htext, ⟨c, hc, hhead⟩, hdate, htime⟩ : ∃ body,
      (writeFloat x).toList = sign.toList ++ body ∧
        (∃ c ∈ body.head?, isAsciiDigit c = true ∨ c = '-' ∨ c = 'i') ∧
          '-' ∉ body ∧ ':' ∉ body := by
    rcases hcases with ⟨-, whole, fraction, hwhole, hfraction, -, htext⟩ | ⟨-, htext⟩
    · obtain ⟨c, behind, hc⟩ := List.exists_cons_of_ne_nil hwhole.nonempty
      have hnot : ∀ d, isAsciiDigit d = false → d ≠ '.' → d ∉ whole ++ '.' :: fraction := by
        intro d hd hpoint hmem
        rcases List.mem_append.mp hmem with hmem | hmem
        · rw [hwhole.isDigit d hmem] at hd
          cases hd
        · rcases List.mem_cons.mp hmem with heq | hmem
          · exact hpoint heq
          · rw [hfraction d hmem] at hd
            cases hd
      exact ⟨_, htext, ⟨c, by rw [hc]; rfl, Or.inl (hwhole.isDigit c (by simp [hc]))⟩,
        hnot '-' rfl (by decide), hnot ':' rfl (by decide)⟩
    · exact ⟨_, htext, ⟨'i', rfl, Or.inr (Or.inr rfl)⟩, by decide, by decide⟩
  have hread := readNumber_writeFloat_append hx
  cases sign with
  | none =>
    rw [Option.toList_none, List.nil_append] at htext
    rw [htext] at hread ⊢
    exact readsAs_of_readNumber hc hhead (fun h => hdate (List.mem_of_mem_tail h))
      (fun h => htime (List.mem_of_mem_tail h)) hread
  | some d =>
    obtain rfl : d = '-' := hsign d rfl
    rw [htext] at hread ⊢
    exact readsAs_of_readNumber (c := '-') rfl (Or.inr (Or.inl rfl)) hdate htime hread

/-- Whether an item of a row ends before the text. -/
def EndsItem (rest : List Char) : Prop :=
  ∃ c ∈ rest.head?, c = ',' ∨ c = ']'

/-- An item that is a string is read, also behind a space. -/
theorem readItem_append (room : ℕ) (item : String) {rest : List Char} (hrest : EndsItem rest) :
    readItem (readValue room) (Quoted.write item.toList ++ rest) = some (.string item, rest) ∧
      readItem (readValue room) (' ' :: (Quoted.write item.toList ++ rest)) =
        some (.string item, rest) := by
  obtain ⟨c, hc, hend⟩ := hrest
  obtain ⟨hcontent, hhead⟩ := head_write_append item.toList rest
  have hbehind : HasContent rest := ⟨c, hc, by rcases hend with rfl | rfl <;> decide⟩
  have hquote : ∀ d ∈ rest.head?, d ≠ '"' ∧ d ≠ '\'' := by
    intro d hd
    rw [Option.mem_def.mp hc] at hd
    cases hd
    rcases hend with rfl | rfl <;> decide
  have hvalue : readValue room (Quoted.write item.toList ++ rest) = some (.string item, rest) := by
    rw [readValue_eq_readSimple room hhead, readSimple_write_append item.toList hquote,
      String.ofList_toList]
  constructor
  · simp only [readItem, hcontent.skipGap_eq.1, hvalue, Option.map_some, hbehind.skipGap_eq.1]
  · simp only [readItem, hcontent.skipGap_eq.2, hvalue, Option.map_some, hbehind.skipGap_eq.1]

/-- A closing bracket begins no item. -/
theorem readItem_closing (room : ℕ) (rest : List Char) :
    readItem (readValue room) (']' :: '\n' :: rest) = none := by
  have hcontent : HasContent (']' :: '\n' :: rest) := ⟨']', rfl, by decide⟩
  have hmoment : readMoment (']' :: '\n' :: rest) = none :=
    readMoment_eq_none [']'] (by decide) (by decide) rest
  have hnone : readSimple (']' :: '\n' :: rest) = none := by
    have hstring : Quoted.read (']' :: '\n' :: rest) = none := rfl
    have hnumber : readNumber (']' :: '\n' :: rest) = none := rfl
    unfold readSimple
    split
    · next heq => cases heq
    · next heq => cases heq
    · rw [hstring, hmoment, hnumber]
  rw [readItem, hcontent.skipGap_eq.1, readValue_eq_readSimple room (by rintro c ⟨⟩; decide), hnone]
  rfl

/-- The items of a row of strings are read. -/
theorem readItems_append (room : ℕ) (items : List String) (rest : List Char) :
    readItems (readValue room) ((String.intercalate ", " (items.map fun item =>
      String.ofList (Quoted.write item.toList))).toList ++ ']' :: '\n' :: rest) =
        some (items.map .string, '\n' :: rest) := by
  cases items with
  | nil =>
    have hcontent : HasContent (']' :: '\n' :: rest) := ⟨']', rfl, by decide⟩
    have hclose : Reader.skip? [']'] (']' :: '\n' :: rest) = some ('\n' :: rest) :=
      Reader.skip?_append [']'] _
    change readItems (readValue room) (']' :: '\n' :: rest) = some ([], '\n' :: rest)
    rw [readItems, readItem_closing]
    dsimp only
    rw [hcontent.skipGap_eq.1, hclose]
    rfl
  | cons first others =>
    have hitem : ∀ item ∈ others, ∀ tail, EndsItem tail →
        readFurtherItem (readValue room)
          ((", ".toList ++ (String.ofList (Quoted.write item.toList)).toList) ++ tail) =
            some (.string item, tail) := by
      intro item _ tail htail
      rw [@String.toList_ofList (Quoted.write item.toList), List.append_assoc]
      exact (readItem_append room item htail).2
    have hends : EndsItem (']' :: '\n' :: rest) := ⟨']', rfl, Or.inr rfl⟩
    have hne : ∀ item ∈ others,
        ", ".toList ++ (String.ofList (Quoted.write item.toList)).toList ≠ [] :=
      fun _ _ => List.cons_ne_nil _ _
    have hcomma : ∀ item ∈ others, ∀ tail : List Char,
        EndsItem ((", ".toList ++ (String.ofList (Quoted.write item.toList)).toList) ++ tail) :=
      fun _ _ _ => ⟨',', rfl, Or.inl rfl⟩
    have hothers := Reader.repeated_flatMap TomlValue.string EndsItem hitem hne hcomma hends rfl
    have hbehind : EndsItem (others.flatMap (fun item =>
        ", ".toList ++ (String.ofList (Quoted.write item.toList)).toList) ++
          ']' :: '\n' :: rest) := by
      cases others with
      | nil => exact hends
      | cons item others => exact ⟨',', rfl, Or.inl rfl⟩
    have hclose : Reader.skip? [']'] (']' :: '\n' :: rest) = some ('\n' :: rest) :=
      Reader.skip?_append [']'] _
    rw [List.map_cons, toList_intercalate_cons, String.toList_ofList, List.flatMap_map,
      List.append_assoc, readItems, (readItem_append room first hbehind).1]
    dsimp only
    rw [hothers]
    simp [hclose]

/-- Rows of strings are read. -/
theorem readsAs_strings (items : List String) :
    ReadsAs ('[' :: ((String.intercalate ", " (items.map fun item =>
      String.ofList (Quoted.write item.toList))).toList ++ [']']))
      (.array (items.map .string)) := by
  intro rest
  have hitems := readItems_append 78 items rest
  rw [List.cons_append, List.append_assoc]
  change (readItems (readValue 78) _).map _ = _
  rw [List.singleton_append, hitems]
  rfl

/-! ### Lines -/

/-- A line with content as it is written: the text begins with content and is read up to the line
break. -/
structure Writes (text : List Char) (line : Line) : Prop where
  /-- The text begins with content. -/
  content : HasContent text
  /-- It is read. -/
  read : ∀ rest, readContent (text ++ '\n' :: rest) = some (line, '\n' :: rest)

/-- A key with the text of a value is an assignment. -/
theorem writes_assignment {key : String} {text : List Char} {value : TomlValue} (hkey : IsBare key)
    (h : ReadsAs text value) :
    Writes (key.toList ++ (' ' :: '=' :: ' ' :: text)) (.assignment ⟨⟨[], key⟩, value⟩) := by
  refine ⟨hkey.hasContent_append _, fun rest => ?_⟩
  have hread := readKey_append hkey [] (by simp) (by decide)
    (' ' :: '=' :: ' ' :: (text ++ '\n' :: rest)) (by rintro c ⟨⟩; rfl) (by rintro c ⟨⟩; decide)
  have hspaces : skipSpaces (' ' :: '=' :: ' ' :: (text ++ '\n' :: rest)) =
      '=' :: ' ' :: (text ++ '\n' :: rest) := rfl
  have hequals : Reader.skip? ['='] ('=' :: ' ' :: (text ++ '\n' :: rest)) =
      some (' ' :: (text ++ '\n' :: rest)) := Reader.skip?_append ['='] _
  rw [List.flatMap_nil, List.nil_append, hspaces] at hread
  have hfeed : skipSpaces ('\n' :: rest) = '\n' :: rest := rfl
  have hassignment : readAssignment (readValue nestingLimit)
      (key.toList ++ (' ' :: '=' :: ' ' :: (text ++ '\n' :: rest))) =
        some (⟨⟨[], key⟩, value⟩, '\n' :: rest) := by
    simp only [readAssignment, hread, hequals, h rest, hfeed, Key.ofParts,
      Option.bind_eq_bind, Option.bind_some]
  obtain ⟨c, hc, hother⟩ := hkey.head
  obtain ⟨behind, hname⟩ := List.head?_eq_some_iff.mp hc
  simp only [List.append_assoc, List.cons_append]
  unfold readContent
  split
  · next heq =>
    rw [hname] at heq
    exact absurd (List.cons.inj heq).1 fun hbracket => hother (by simp [hbracket])
  · rw [hassignment]
    rfl

/-- Names between brackets are a header. -/
theorem writes_header {first : String} {others : List String} (hfirst : IsBare first)
    (hothers : ∀ name ∈ others, IsBare name) (hlength : others.length < nestingLimit) :
    Writes ('[' :: (first.toList ++ (others.flatMap (fun name => '.' :: name.toList) ++ [']'])))
      (.header (.ofParts first others)) := by
  refine ⟨⟨'[', rfl, by decide⟩, fun rest => ?_⟩
  have hread := readKey_append hfirst others hothers hlength (']' :: '\n' :: rest)
    (by rintro c ⟨⟩; rfl) (by rintro c ⟨⟩; decide)
  have hspaces : skipSpaces (']' :: '\n' :: rest) = ']' :: '\n' :: rest := rfl
  have hclose : Reader.skip? [']'] (']' :: '\n' :: rest) = some ('\n' :: rest) :=
    Reader.skip?_append [']'] _
  obtain ⟨c, hc, hother⟩ := hfirst.head
  obtain ⟨behind, hname⟩ := List.head?_eq_some_iff.mp hc
  simp only [List.append_assoc, List.cons_append, List.nil_append]
  change readHeader ('[' :: _) = _
  unfold readHeader
  split
  · next heq =>
    rw [hname] at heq
    have hbracket := (List.cons.inj (List.cons.inj heq).2).1
    exact absurd hbracket fun hbracket => hother (by simp [hbracket])
  · next heq =>
    rw [← (List.cons.inj heq).2, hread, hspaces]
    simp [hclose]
  · next hnone => exact absurd rfl (hnone _)

/-- A line with content and the blank lines in front of it. -/
structure Passage where
  /-- The blank lines. -/
  blanks : List (List Char)
  /-- The text of the line. -/
  text : List Char
  /-- What the line says. -/
  line : Line

namespace Passage

/-- The passage as it is written. -/
def write (p : Passage) : List Char :=
  p.blanks.flatMap (fun line => line ++ ['\n']) ++ (p.text ++ ['\n'])

/-- Whether the lines are blank where they should be and say what they should. -/
structure WellFormed (p : Passage) : Prop where
  /-- The lines in front are blank. -/
  blanks : ∀ line ∈ p.blanks, IsBlank line
  /-- The text writes the line. -/
  writes : Writes p.text p.line

/-- The line of a passage is read. -/
theorem WellFormed.readLine_append {p : Passage} (h : p.WellFormed) (rest : List Char) :
    readLine (p.write ++ rest) = some (p.line, rest) := by
  have hgap : skipGap (p.write ++ rest) = p.text ++ '\n' :: rest := by
    rw [write, List.append_assoc, List.append_assoc, List.singleton_append]
    exact skipGap_append h.blanks (h.writes.content.append _)
  have hend : endLine? ('\n' :: rest) = some rest := rfl
  simp only [readLine, hgap, h.writes.read, hend, Option.bind_eq_bind, Option.bind_some]

end Passage

/-- The lines of a document are read. -/
theorem linesOf?_passages {passages : List Passage} (h : ∀ p ∈ passages, p.WellFormed) :
    linesOf? (passages.flatMap Passage.write) = some (passages.map Passage.line) := by
  have hgap : skipGap [] = [] := by
    have hblank : blankLine [] = none := rfl
    rw [skipGap, Reader.repeated_of_none hblank]
    rfl
  have hend : readLine [] = none := by
    rw [readLine, hgap]
    rfl
  have hlines := Reader.repeated_flatMap Passage.line (fun _ => True)
    (fun p hp tail _ => (h p hp).readLine_append tail) (by simp [Passage.write])
    (fun _ _ _ => trivial) trivial hend
  have hfinal : endLine? [] = some [] := rfl
  rw [List.append_nil] at hlines
  rw [linesOf?, hlines]
  simp [hgap, hfinal]

/-! ### Keys with values, under headers -/

/-- A key with its value, and the value as it is written. -/
structure WrittenField where
  /-- The key. -/
  key : String
  /-- The text of the value. -/
  text : String
  /-- The value. -/
  value : TomlValue

namespace WrittenField

/-- The key with the value. -/
def entry (f : WrittenField) : String × TomlValue :=
  (f.key, f.value)

/-- Whether the key needs no quotes and the text is that of the value. -/
structure WellFormed (f : WrittenField) : Prop where
  /-- The key is bare. -/
  bare : IsBare f.key
  /-- The text is read as the value. -/
  reads : ReadsAs f.text.toList f.value

/-- The line of the field behind blank lines. -/
def passage (blanks : List (List Char)) (f : WrittenField) : Passage :=
  ⟨blanks, f.key.toList ++ (' ' :: '=' :: ' ' :: f.text.toList), assignmentLine f.entry⟩

/-- The line is read. -/
theorem WellFormed.passage {f : WrittenField} (h : f.WellFormed) {blanks : List (List Char)}
    (hblanks : ∀ line ∈ blanks, IsBlank line) : (f.passage blanks).WellFormed :=
  ⟨hblanks, writes_assignment h.bare h.reads⟩

end WrittenField

/-- A header behind an empty line, and the lines of the fields under it. -/
def tablePassages (first : String) (others : List String) (fields : List WrittenField) :
    List Passage :=
  ⟨[[]], '[' :: (first.toList ++ (others.flatMap (fun name => '.' :: name.toList) ++ [']'])),
    .header (.ofParts first others)⟩ :: fields.map (WrittenField.passage [])

/-- The lines of a table are read. -/
theorem wellFormed_tablePassages {first : String} {others : List String}
    {fields : List WrittenField} (hfirst : IsBare first) (hothers : ∀ name ∈ others, IsBare name)
    (hlength : others.length < nestingLimit) (hfields : ∀ f ∈ fields, f.WellFormed) :
    ∀ p ∈ tablePassages first others fields, p.WellFormed := by
  intro p hp
  rcases List.mem_cons.mp hp with rfl | hp
  · exact ⟨by simp [IsBlank], writes_header hfirst hothers hlength⟩
  · obtain ⟨f, hf, rfl⟩ := List.mem_map.mp hp
    exact (hfields f hf).passage (by simp)

/-- The lines of a table fill a new table at a place. -/
theorem Place.IsOpen.foldlM_tablePassages {p : Place} (hp : p.IsOpen) (first : String)
    (others : List String) {key : String} (hpath : Key.ofParts first others = ⟨p.path, key⟩)
    {front : Entries} (hkey : front.lookup key = none) {fields : List WrittenField}
    (h : (fields.map WrittenField.key).Nodup) (header : List String) :
    ((tablePassages first others fields).map Passage.line).foldlM Draft.add?
        ⟨p.fill front, header⟩ =
      some ⟨(p.enter front key).fill (fields.map fun f => valueNode f.entry),
        (p.enter front key).path⟩ := by
  have hkeys : ((fields.map WrittenField.entry).map Prod.fst).Nodup := by rwa [List.map_map]
  have hfill := hp.foldlM_header hkey hkeys header
  rw [List.map_map, List.map_map] at hfill
  rw [tablePassages, List.map_cons, List.map_map, hpath]
  exact hfill

end CurvePlot.Toml
