/-
# Columns

Texts brought to a width with blanks, so that they line up in columns. A text
that is wider already is left as it is.
-/

namespace TacAnalysis.Text

/-- A text with blanks before it. -/
def alignRight (width : Nat) (text : String) : String :=
  String.ofList (text.toList.leftpad width ' ')

/-- A text with blanks after it. -/
def alignLeft (width : Nat) (text : String) : String :=
  String.ofList (text.toList.rightpad width ' ')

end TacAnalysis.Text
