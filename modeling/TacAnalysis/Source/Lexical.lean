/-
# Words and marks

The smallest pieces of a program text. White space and line comments may stand
before any of them and mean nothing. A word starts with a letter, `_` or `$` and
goes on with those and digits; a class name may also contain slashes. Letters
and digits are the ones of ASCII.
-/

import TacAnalysis.Source.Reader
import TacAnalysis.Text.Decimal

namespace TacAnalysis.Source

/-- White space: space, tab, line feed and carriage return. -/
def isBlank (c : Char) : Bool := c = ' ' || c = '\t' || c = '\n' || c = '\r'

/-- Drops leading white space and line comments. A comment goes from two slashes
to the end of the line, or of the text. -/
def skipBlanks (inComment : Bool) : List Char → List Char
  | [] => []
  | c :: rest =>
      if inComment then skipBlanks (c != '\n') rest
      else if isBlank c then skipBlanks false rest
      else if c = '/' && rest.head? = some '/' then skipBlanks true rest
      else c :: rest

/-- Takes a given sequence of characters off a text. -/
def dropGiven? : List Char → List Char → Option (List Char)
  | [], text => some text
  | _ :: _, [] => none
  | c :: given, d :: text => if c = d then dropGiven? given text else none

/-- Letters, `_` and `$` may start a word. -/
def isWordStart (c : Char) : Bool := c.isAlpha || c = '_' || c = '$'

/-- Letters, digits, `_` and `$` may be anywhere else in a word. -/
def isWordChar (c : Char) : Bool := c.isAlphanum || c = '_' || c = '$'

/-- Class names are words that may contain slashes. -/
def isClassNameChar (c : Char) : Bool := isWordChar c || c = '/'

namespace Reader

/-- Reads a punctuation mark or operator, blanks before it. -/
def mark (text : String) : Reader Unit := fun input =>
  match dropGiven? text.toList (skipBlanks false input) with
  | some rest => .matched () rest
  | none => .unmatched

/-- Reads a word known in advance, which must not be the start of a longer one. -/
def keyword (word : String) : Reader Unit := fun input =>
  match dropGiven? word.toList (skipBlanks false input) with
  | some rest => if rest.head?.any isWordChar then .unmatched else .matched () rest
  | none => .unmatched

/-- Reads a word whose characters after the first satisfy a condition. -/
def wordOf (continues : Char → Bool) : Reader String := fun input =>
  match skipBlanks false input with
  | [] => .unmatched
  | c :: rest =>
      if isWordStart c then
        .matched (String.ofList (c :: rest.takeWhile continues)) (rest.dropWhile continues)
      else .unmatched

/-- Reads the name of a variable, field, method or label. -/
def identifier : Reader String := wordOf isWordChar

/-- Reads the name of a class. -/
def className : Reader String := wordOf isClassNameChar

/-- A 32-bit number, if it is in range. -/
def int32? (value : Int) : Option Int32 :=
  if Int32.minValue.toInt ≤ value && value ≤ Int32.maxValue.toInt then some (Int32.ofInt value)
  else none

/-- The number written by decimal digits and an optional minus sign, if it is
in range. -/
def numberOf? (negative : Bool) (digits : List Char) : Option Int32 :=
  if digits.isEmpty then none
  else if negative then int32? (-(Text.decimalValue digits : Int))
  else int32? (Text.decimalValue digits)

/-- Reads a decimal number of 32 bits. -/
def number : Reader Int32 := fun input =>
  let text := skipBlanks false input
  let negative := text.head? = some '-'
  let unsigned := if negative then text.tail else text
  match numberOf? negative (unsigned.takeWhile Char.isDigit) with
  | some value => .matched value (unsigned.dropWhile Char.isDigit)
  | none => .unmatched

/-- Reads one of several marks, the first listed that matches, as what it
stands for. -/
def oneOfMarks {α : Type} (table : List (String × α)) : Reader α :=
  firstOf (table.map fun entry => (fun _ => entry.2) <$> mark entry.1)

/-- Reads one of several keywords, as what it stands for. -/
def oneOfKeywords {α : Type} (table : List (String × α)) : Reader α :=
  firstOf (table.map fun entry => (fun _ => entry.2) <$> keyword entry.1)

/-- Reads something between an opening and a closing mark. -/
def between {α : Type} (opening closing : String) (reader : Reader α) : Reader α :=
  mark opening *> reader <* mark closing

/-- Reads values separated by commas, possibly none, between parentheses. -/
def parenthesized {α : Type} (reader : Reader α) : Reader (List α) :=
  between "(" ")" (separatedOrNone (mark ",") reader)

end Reader

end TacAnalysis.Source
