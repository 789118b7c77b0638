/-!
# Words that notice an overflow

Places in a picture are words of 32 bits, and a result that is no such word ends the program. Every
operation is the one on whole numbers, with its result cut back to a word if it is one.
-/

namespace CurvePlot.Word

/-- The word that a whole number is, if it is one. -/
def ofInt? (n : Int) : Option Int32 :=
  if Int32.minValue.toInt ≤ n ∧ n ≤ Int32.maxValue.toInt then some (Int32.ofInt n) else none

/-- The sum of two words, if it is one. -/
def add? (a b : Int32) : Option Int32 :=
  ofInt? (a.toInt + b.toInt)

/-- The difference of two words, if it is one. -/
def sub? (a b : Int32) : Option Int32 :=
  ofInt? (a.toInt - b.toInt)

/-- The product of two words, if it is one. -/
def mul? (a b : Int32) : Option Int32 :=
  ofInt? (a.toInt * b.toInt)

/-- A whole number in range is the value of its word. -/
theorem toInt_ofInt {n : Int} (hlow : -2147483648 ≤ n) (hhigh : n < 2147483648) :
    (Int32.ofInt n).toInt = n :=
  Int32.toInt_ofInt_of_le hlow hhigh

/-- A whole number is the word that has it as its value. -/
theorem ofInt?_eq_some_iff {n : Int} {w : Int32} : ofInt? n = some w ↔ w.toInt = n := by
  have hmin : Int32.minValue.toInt = -2147483648 := rfl
  have hmax : Int32.maxValue.toInt = 2147483647 := rfl
  rw [ofInt?, hmin, hmax]
  split
  · next h =>
    rw [Option.some.injEq, ← Int32.toInt_inj, toInt_ofInt h.1 (by omega), eq_comm]
  · next h =>
    have hlow := w.le_toInt
    have hhigh := w.toInt_lt
    constructor
    · exact nofun
    · omega

/-- A whole number in range is the value of a word. -/
theorem exists_toInt_eq {n : Int} (hlow : -2147483648 ≤ n) (hhigh : n < 2147483648) :
    ∃ w : Int32, w.toInt = n :=
  ⟨Int32.ofInt n, toInt_ofInt hlow hhigh⟩

end CurvePlot.Word
