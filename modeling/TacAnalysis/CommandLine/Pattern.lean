/-
# Patterns

Patterns that select classes and methods by their names. A pattern is searched
anywhere in a name. It is made of characters standing for themselves, `.` for
any character, `^` and `$` for the two ends of the name, `|` between
alternatives, groups in parentheses, and `*`, `+` or `?` after what is repeated
or optional; a backslash takes its meaning from a punctuation mark.
-/

namespace TacAnalysis.CommandLine

/-- A pattern. -/
inductive Pattern where
  | nothing
  | atStart
  | atEnd
  | anything
  | char (c : Char)
  | seq (first second : Pattern)
  | either (first second : Pattern)
  | many (repeated : Pattern)
  deriving DecidableEq, Inhabited

namespace Pattern

/-- The positions of a text where a match starting at one of some positions may
end. Repetition goes on for as many rounds as there are characters, which is
enough since a round that reaches new positions takes at least one. -/
def ends (text : List Char) : Pattern → List Nat → List Nat
  | nothing, starts => starts
  | atStart, starts => starts.filter (· = 0)
  | atEnd, starts => starts.filter (· = text.length)
  | anything, starts =>
      starts.filterMap fun position =>
        text[position]?.bind fun c => if c = '\n' then none else some (position + 1)
  | char c, starts =>
      starts.filterMap fun position =>
        if text[position]? = some c then some (position + 1) else none
  | seq first second, starts => ends text second (ends text first starts)
  | either first second, starts => (ends text first starts ++ ends text second starts).eraseDups
  | many repeated, starts =>
      (List.range text.length).foldl
        (fun reached _ => (reached ++ ends text repeated reached).eraseDups) starts

/-- Whether a pattern matches some part of a text. -/
def isFoundIn (pattern : Pattern) (text : String) : Bool :=
  let characters := text.toList
  !(pattern.ends characters (List.range (characters.length + 1))).isEmpty

/-- A group being read: its alternatives so far, and the parts of the last one,
both in reverse. -/
structure Group where
  alternatives : List Pattern
  parts : List Pattern
  deriving DecidableEq, Inhabited

namespace Group

/-- The group of nothing. -/
def empty : Group := ⟨[], []⟩

/-- Adds a part to the last alternative. -/
def add (group : Group) (part : Pattern) : Group := { group with parts := part :: group.parts }

/-- Ends the last alternative. -/
def divide (group : Group) : Group where
  alternatives := group.parts.foldr (fun part before => seq before part) nothing ::
    group.alternatives
  parts := []

/-- The pattern of a group that is complete. -/
def toPattern (group : Group) : Pattern :=
  match group.divide.alternatives with
  | [] => nothing
  | last :: before => before.foldl (fun after alternative => either alternative after) last

/-- Replaces the last part, if there is one. -/
def revise? (group : Group) (change : Pattern → Pattern) : Option Group :=
  match group.parts with
  | [] => none
  | part :: parts => some { group with parts := change part :: parts }

end Group

/-- What a repetition mark makes of what is before it. -/
def repetition? (c : Char) : Option (Pattern → Pattern) :=
  if c = '*' then some many
  else if c = '+' then some fun repeated => seq repeated (many repeated)
  else if c = '?' then some fun repeated => either repeated nothing
  else none

/-- Whether a character loses its meaning after a backslash: punctuation does. -/
def isQuotable (c : Char) : Bool :=
  c.toNat < 128 && !c.isAlphanum && c != '<' && c != '>'

/-- Reads a pattern inside some groups, the innermost first. Repetition marks need
something to repeat; the mark `?` after one of them asks for the shortest match,
which does not change whether there is one. -/
def read : (afterRepetition : Bool) → (outer : List Group) → Group → List Char → Option Pattern
  | _, [], group, [] => some group.toPattern
  | _, _ :: _, _, [] => none
  | _, outer, group, '\\' :: c :: rest =>
      if isQuotable c then read false outer (group.add (char c)) rest else none
  | afterRepetition, outer, group, c :: rest =>
      if c = '(' then read false (group :: outer) .empty rest
      else if c = ')' then
        match outer with
        | [] => none
        | parent :: outer => read false outer (parent.add group.toPattern) rest
      else if c = '|' then read false outer group.divide rest
      else if afterRepetition && c = '?' then read false outer group rest
      else
        match repetition? c with
        | some change =>
            match group.revise? change with
            | some group => read true outer group rest
            | none => none
        | none =>
            if c = '^' then read false outer (group.add atStart) rest
            else if c = '$' then read false outer (group.add atEnd) rest
            else if c = '.' then read false outer (group.add anything) rest
            else if c = '[' || c = '\x7b' || c = '\\' then none
            else read false outer (group.add (char c)) rest

/-- The pattern written by a text, if it is well formed. -/
def ofText? (text : String) : Option Pattern := read false [] .empty text.toList

end Pattern

end TacAnalysis.CommandLine
