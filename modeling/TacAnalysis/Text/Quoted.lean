/-
# Quoted text

A text shown inside a message stands between double quotes, on one line: quotes
and backslashes are preceded by a backslash, the usual controls have a letter of
their own, and characters that are not visible by themselves are written by
their code point in hexadecimal.
-/

import TacAnalysis.Text.Escaped

namespace TacAnalysis.Text

/-- The code point of a character in lower case hexadecimal, between braces. -/
def codePoint (c : Char) : List Char :=
  ['\\', 'u', '\x7b'] ++ Nat.toDigits 16 c.toNat ++ ['\x7d']

/-- A character as it stands in a quoted text. -/
def quotedChar (c : Char) : List Char :=
  if c = '"' then ['\\', '"']
  else if c = '\\' then ['\\', '\\']
  else if c = '\n' then ['\\', 'n']
  else if c = '\r' then ['\\', 'r']
  else if c = '\t' then ['\\', 't']
  else if c.toNat = 0 then ['\\', '0']
  else if isEscaped c then codePoint c
  else [c]

/-- A text between double quotes. -/
def quoted (text : List Char) : String :=
  String.ofList (['"'] ++ text.flatMap quotedChar ++ ['"'])

end TacAnalysis.Text
