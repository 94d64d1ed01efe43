/-
# Webs of definitions

A variable that is assigned at several places may in fact stand for several values that
have nothing to do with each other. The definitions that reach a statement reading their
variable are put together; the sets of definitions that are obtained in this way are the
webs of the variable. Splitting gives each web a variable of its own; the web holding the
earliest definition keeps the variable itself.
-/

import TacAnalysis.Dataflow.SetFact
import TacAnalysis.Program.ReachingDefinitions
import TacAnalysis.UnionFind

namespace TacAnalysis

/-- A definition: a variable, and where it gets a value. -/
abbrev Definition := VarId × DefSite

/-- Definitions come in the order of their variables, those of one variable in the order
of their sites. -/
instance : Ord Definition := lexOrd

/-- Puts the definitions of a variable that reach a statement into one web. -/
def joinReaching (webs : UnionFind Definition) : List Definition → UnionFind Definition
  | [] => webs
  | first :: others => others.foldl (fun webs other => webs.union first other) (webs.find first).1

/-- The rank of a root among those of its variable, out of the roots of all webs. -/
def rankAmong (roots : List Definition) (root : Definition) : Nat :=
  (roots.filter fun other => other.1 == root.1).idxOf root

/-- The new variables needed for webs: one for each web of a variable but the first, given
as the variable and the rank of the web. -/
def addedVars (roots : List Definition) : List (VarId × Nat) :=
  (roots.map fun root => (root.1, rankAmong roots root)).filter fun entry => entry.2 != 0

/-- The variable standing for the web of a rank: the variable itself for the first web,
otherwise one of the added variables, which are numbered from `fresh` on. -/
def webVar (added : List (VarId × Nat)) (fresh : VarId) (var : VarId) (rank : Nat) : VarId :=
  if rank = 0 then var else fresh + added.idxOf (var, rank)

/-- The outcome of splitting: the statements with every web on a variable of its own, and
the new variables, each given as the variable it is split from and the rank of its web. -/
structure Splitting where
  body : Array Stmt
  added : List (VarId × Nat)
  deriving DecidableEq, Inhabited

namespace Code

variable (code : Code)

/-- The definitions of a variable that reach a statement, in order. -/
def reachingOf (reaching : Table Nat DefSet) (index : Nat) (var : VarId) : List Definition :=
  (SetFact.ofList (reaching.get index).elements).elements.filter fun definition =>
    definition.1 == var

/-- Looks at a statement: what it defines is a definition, and the definitions of a variable
that it reads are in one web. -/
def joinAt (reaching : Table Nat DefSet) (webs : UnionFind Definition) (index : Nat) :
    UnionFind Definition :=
  let stmt := code.stmt index
  let webs := match stmt.def? with
    | some var => (webs.find (var, .stmt index)).1
    | none => webs
  stmt.uses.foldl (fun webs var => joinReaching webs (reachingOf reaching index var)) webs

/-- The webs of all variables, from what is defined on entry and by looking at the
statements in order. -/
def webs : UnionFind Definition :=
  let onEntry := code.entryVars.foldl (fun webs var => (webs.find (var, .entry)).1) .empty
  code.positions.foldl (code.joinAt code.reachingDefinitions) onEntry

end Code

/-- The webs with the roots of all of them, in order, and the variables added for them. -/
structure Naming where
  webs : UnionFind Definition
  roots : List Definition
  added : List (VarId × Nat)
  deriving DecidableEq, Inhabited

/-- The variable that stands for the web of a definition. -/
def Naming.nameOf (naming : Naming) (fresh : VarId) (definition : Definition) : VarId :=
  let root := (naming.webs.find definition).2
  if naming.roots.contains root then
    webVar naming.added fresh root.1 (rankAmong naming.roots root)
  else definition.1

namespace Code

variable (code : Code)

/-- The names of all webs. -/
def naming : Naming :=
  let (webs, found) := code.webs.findAll code.webs.nodes
  let roots := (SetFact.ofList found).elements
  ⟨webs, roots, addedVars roots⟩

/-- Gives every web of definitions a variable of its own, new variables being numbered from
`fresh` on. What no definition reaches keeps its variable. -/
def split (fresh : VarId) : Splitting :=
  let reaching := code.reachingDefinitions
  let naming := code.naming
  { body := code.body.mapIdx fun index stmt => stmt.rename
      (fun var => naming.nameOf fresh (var, .stmt index))
      (fun var => (reachingOf reaching index var).head?.elim var (naming.nameOf fresh))
    added := naming.added }

end Code

end TacAnalysis
