/-
# Readers

A reader takes a value off the front of a text. It can match, leaving the rest
of the text; it can find nothing it knows, so that another reader may be tried
at the same place; or it can refuse the text for good, which no alternative
makes up for. Choice is ordered: the first reader that matches is the one that
counts, and what it took is never given back.
-/

import TacAnalysis.Error

namespace TacAnalysis.Source

/-- What a reader makes of a text. -/
inductive Outcome (α : Type) where
  | matched (value : α) (rest : List Char)
  | unmatched
  | refused (error : ProgramError)
  deriving DecidableEq, Inhabited

/-- Takes a value off the front of a text. -/
def Reader (α : Type) : Type := List Char → Outcome α

namespace Reader

variable {α β : Type}

/-- Matches without taking anything. -/
protected def pure (value : α) : Reader α := fun text => .matched value text

/-- Reads a value, then whatever that value calls for. -/
protected def bind (first : Reader α) (next : α → Reader β) : Reader β := fun text =>
  match first text with
  | .matched value rest => next value rest
  | .unmatched => .unmatched
  | .refused error => .refused error

instance : Monad Reader where
  pure := Reader.pure
  bind := Reader.bind

/-- Finds nothing, whatever the text. -/
def fail : Reader α := fun _ => .unmatched

/-- Tries the second reader where the first one finds nothing. -/
protected def orElse (first : Reader α) (second : Unit → Reader α) : Reader α := fun text =>
  match first text with
  | .unmatched => second () text
  | outcome => outcome

instance : OrElse (Reader α) where
  orElse := Reader.orElse

/-- The first reader of a list that matches. -/
def firstOf (readers : List (Reader α)) : Reader α :=
  readers.foldr (fun reader others => reader <|> others) fail

/-- Reads a value if there is one. -/
def optional (reader : Reader α) : Reader (Option α) :=
  (some <$> reader) <|> pure none

/-- Reads at most `limit` values in a row, as many as there are. -/
def manyUpTo (reader : Reader α) : Nat → Reader (List α)
  | 0 => pure []
  | limit + 1 => fun text =>
      match reader text with
      | .matched value rest =>
          match manyUpTo reader limit rest with
          | .matched values rest => .matched (value :: values) rest
          | .unmatched => .unmatched
          | .refused error => .refused error
      | .unmatched => .matched [] text
      | .refused error => .refused error

/-- Reads values in a row, as many as there are. The reader takes at least one
character each time, so there are no more values than characters. -/
def many (reader : Reader α) : Reader (List α) := fun text =>
  manyUpTo reader text.length text

/-- Reads one value or more, with a separator between two values. A separator
that no value follows is left unread. -/
def separated (separator : Reader β) (reader : Reader α) : Reader (List α) := do
  let first ← reader
  let others ← many (separator *> reader)
  pure (first :: others)

/-- Reads any number of values, with a separator between two values. -/
def separatedOrNone (separator : Reader β) (reader : Reader α) : Reader (List α) :=
  separated separator reader <|> pure []

end Reader

end TacAnalysis.Source
