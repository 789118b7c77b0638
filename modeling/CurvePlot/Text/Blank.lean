/-!
# Blank characters and cuts

Blank characters are those with the `White_Space` property of Unicode. Texts are handled as
lists of characters; the functions here trim them, take their blanks out, and cut them at a
separator.
-/

namespace CurvePlot.Text

/-- Characters with the `White_Space` property. -/
def isBlank (c : Char) : Bool :=
  let n := c.toNat
  (0x9 ≤ n && n ≤ 0xD) || n == 0x20 || n == 0x85 || n == 0xA0 || n == 0x1680 ||
    (0x2000 ≤ n && n ≤ 0x200A) || n == 0x2028 || n == 0x2029 || n == 0x202F || n == 0x205F ||
    n == 0x3000

/-- The text without the blanks at its two ends. -/
def trim (text : List Char) : List Char :=
  ((text.dropWhile isBlank).reverse.dropWhile isBlank).reverse

/-- The text without any blank. -/
def compact (text : List Char) : List Char :=
  text.filter fun c => !isBlank c

/-- The text with its ASCII letters in lower case. -/
def lower (text : List Char) : List Char :=
  text.map Char.toLower

/-- The text up to the first separator, and what follows that separator if there is one. -/
def cut (separator : Char) : List Char → List Char × Option (List Char)
  | [] => ([], none)
  | c :: rest =>
    if c == separator then ([], some rest)
    else let (before, after) := cut separator rest; (c :: before, after)

/-- The pieces between the separators: one more than there are separators. -/
def pieces (separator : Char) : List Char → List (List Char)
  | [] => [[]]
  | c :: rest =>
    if c == separator then [] :: pieces separator rest
    else
      match pieces separator rest with
      | [] => [[c]]
      | piece :: others => (c :: piece) :: others

/-- How many characters stand before the first occurrence of `part`. -/
def position (part : List Char) : List Char → Option Nat
  | [] => if part.isEmpty then some 0 else none
  | c :: rest =>
    if part.isPrefixOf (c :: rest) then some 0 else (position part rest).map (· + 1)

/-- Whether `part` occurs in the text. -/
def contains (part text : List Char) : Bool :=
  (position part text).isSome

/-- A compact text holds no blank. -/
theorem not_isBlank_of_mem_compact {text : List Char} {c : Char} (h : c ∈ compact text) :
    isBlank c = false := by
  simpa using (List.mem_filter.1 h).2

/-- A text without the separator does not begin with it. -/
theorem head_ne_of_not_mem {separator c : Char} {rest : List Char} (h : separator ∉ c :: rest) :
    ¬(c == separator) = true :=
  fun heq => h (beq_iff_eq.mp heq ▸ List.mem_cons_self)

/-- Without the separator nothing is cut off. -/
theorem cut_of_not_mem {separator : Char} {text : List Char} (h : separator ∉ text) :
    cut separator text = (text, none) := by
  induction text with
  | nil => rfl
  | cons c rest ih =>
    rw [cut, if_neg (head_ne_of_not_mem h), ih fun hrest => h (List.mem_cons_of_mem _ hrest)]

/-- There is always a piece. -/
theorem pieces_ne_nil (separator : Char) (text : List Char) : pieces separator text ≠ [] := by
  cases text with
  | nil => simp [pieces]
  | cons c rest =>
    rw [pieces]
    split
    · simp
    · split <;> simp

end CurvePlot.Text
