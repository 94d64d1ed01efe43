/-
# Decimal numbers

The value of a natural number written in the decimal digits of ASCII.
-/

namespace TacAnalysis.Text

/-- The value of a sequence of decimal digits. -/
def decimalValue (digits : List Char) : Nat :=
  digits.foldl (fun value c => 10 * value + (c.toNat - '0'.toNat)) 0

end TacAnalysis.Text
