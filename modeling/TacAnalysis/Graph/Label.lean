/-
# Labels of drawings

The texts put inside the quotes of a drawing's label.
-/

namespace TacAnalysis.Graph

/-- A text inside quotes, where a quote is preceded by a backslash and nothing
else is changed. -/
def labelText (text : String) : String :=
  String.ofList (text.toList.flatMap fun c => if c = '"' then ['\\', '"'] else [c])

end TacAnalysis.Graph
