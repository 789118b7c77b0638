/-!
# Hexadecimal digits
-/

namespace CurvePlot.Text

/-- A hexadecimal digit, the letters counted from the given `a`. -/
def hexDigitFrom (a : Char) (n : Nat) : Char :=
  if n < 10 then Char.ofNat ('0'.toNat + n) else Char.ofNat (a.toNat + (n - 10))

/-- A hexadecimal digit in lower case. -/
def lowerHexDigit (n : Nat) : Char :=
  hexDigitFrom 'a' n

/-- A hexadecimal digit in upper case. -/
def upperHexDigit (n : Nat) : Char :=
  hexDigitFrom 'A' n

/-- The value of a hexadecimal digit. -/
def hexValue? (c : Char) : Option Nat :=
  if '0' ≤ c && c ≤ '9' then some (c.toNat - '0'.toNat)
  else if 'a' ≤ c && c ≤ 'f' then some (c.toNat - 'a'.toNat + 10)
  else if 'A' ≤ c && c ≤ 'F' then some (c.toNat - 'A'.toNat + 10)
  else none

/-- The value of a written digit is read back. -/
theorem hexValue?_upperHexDigit {n : Nat} (h : n < 16) : hexValue? (upperHexDigit n) = some n := by
  have all : ∀ m : Fin 16, hexValue? (upperHexDigit m) = some m.val := by decide
  exact all ⟨n, h⟩

end CurvePlot.Text
