/-
# Documents

Structured data written in JSON, either on one line or with one value on each
line, indented by the depth it stands at.
-/

namespace TacAnalysis.Text

/-- A value to write. Members are written in their order. -/
inductive Document where
  | text (value : String)
  | number (value : Nat)
  | list (items : List Document)
  | record (members : List (String × Document))
  deriving Inhabited

namespace Document

/-- A number below 16 as a hexadecimal digit. -/
def hexDigit (digit : Nat) : Char := Nat.digitChar digit

/-- A character as it stands between the quotes of a text. -/
def jsonChar (c : Char) : List Char :=
  if c = '"' then ['\\', '"']
  else if c = '\\' then ['\\', '\\']
  else if c = '\n' then ['\\', 'n']
  else if c = '\r' then ['\\', 'r']
  else if c = '\t' then ['\\', 't']
  else if c.toNat = 8 then ['\\', 'b']
  else if c.toNat = 12 then ['\\', 'f']
  else if c.toNat < 32 then
    ['\\', 'u', '0', '0', hexDigit (c.toNat / 16), hexDigit (c.toNat % 16)]
  else [c]

/-- A text between quotes. -/
def jsonText (text : String) : String :=
  String.ofList (['"'] ++ text.toList.flatMap jsonChar ++ ['"'])

/-- Values between brackets, each on a line of its own at some depth. Nothing
stands between the brackets when there are no values. -/
def block (openMark closeMark : String) (depth : Nat) (items : List String) : String :=
  if items.isEmpty then openMark ++ closeMark
  else
    let line (depth : Nat) := "\n" ++ String.ofList (List.replicate (2 * depth) ' ')
    openMark ++ ",".intercalate (items.map fun item => line (depth + 1) ++ item) ++ line depth ++
      closeMark

mutual

/-- A value at some depth, written on several lines. -/
def lines (depth : Nat) : Document → String
  | text value => jsonText value
  | number value => toString value
  | list items => block "[" "]" depth (itemLines (depth + 1) items)
  | record members => block "\x7b" "\x7d" depth (memberLines (depth + 1) members)

/-- The items of a list at some depth. -/
def itemLines (depth : Nat) : List Document → List String
  | [] => []
  | item :: items => lines depth item :: itemLines depth items

/-- The members of a record at some depth. -/
def memberLines (depth : Nat) : List (String × Document) → List String
  | [] => []
  | (name, value) :: members =>
      (jsonText name ++ ": " ++ lines depth value) :: memberLines depth members

end

/-- A document written on several lines. -/
def render (document : Document) : String := document.lines 0

/-- Texts by name, written on one line. -/
def oneLine (members : List (String × String)) : String :=
  "\x7b" ++ ",".intercalate (members.map fun member =>
    jsonText member.1 ++ ":" ++ jsonText member.2) ++ "\x7d"

end Document

end TacAnalysis.Text
