/-
# The class hierarchy

Who extends and implements whom, which classes are subtypes of which, and the
method that runs when a subsignature is called on an object of a class. A type
is linked to its superclass and to its interfaces; an interface is linked to
the interfaces it extends.
-/

import TacAnalysis.Dataflow.SetFact
import TacAnalysis.Graph.Search
import TacAnalysis.Program

namespace TacAnalysis

/-- The link from a type to a direct supertype. An interface extends other
interfaces. -/
inductive Inheritance where
  | extension
  | implementation
  deriving DecidableEq, Inhabited

namespace Program

variable (program : Program)

/-- The numbers of all classes. -/
def classIds : List ClassId := List.range program.classes.size

/-- Whether a type is an interface. -/
def isInterface (id : ClassId) : Bool := (program.classDef id).isInterface

/-- The hierarchy as a graph, from each type to its direct supertypes: its superclass, then
its interfaces. -/
def hierarchyGraph : Digraph ClassId Inheritance where
  nodes := program.classIds
  arcs := program.classIds.flatMap fun id =>
    let cls := program.classDef id
    cls.superclass.toList.map (⟨id, .extension, ·⟩) ++
      cls.interfaces.map (⟨id, if cls.isInterface then .extension else .implementation, ·⟩)

/-- The types linked to a type from below by links of a kind that are interfaces, or those
that are not, once per link and the last link first. -/
def directSubtypes (id : ClassId) (link : Inheritance) (areInterfaces : Bool) : List ClassId :=
  (((program.hierarchyGraph.incoming id).filter fun arc => arc.label = link).map
    Arc.source).filter fun sub => program.isInterface sub == areInterfaces

/-- The classes whose superclass is a given one. -/
def subclasses (id : ClassId) : List ClassId := program.directSubtypes id .extension false

/-- The interfaces extending an interface. -/
def subinterfaces (id : ClassId) : List ClassId := program.directSubtypes id .extension true

/-- The classes declared to implement an interface. -/
def implementors (id : ClassId) : List ClassId := program.directSubtypes id .implementation false

/-- The types to look at below a type. -/
def subtypes (id : ClassId) : List ClassId :=
  if program.isInterface id then program.implementors id ++ program.subinterfaces id
  else program.subclasses id

theorem mem_directSubtypes {program : Program} {id sub : ClassId} {link : Inheritance}
    {areInterfaces : Bool} : sub ∈ program.directSubtypes id link areInterfaces ↔
      ⟨sub, link, id⟩ ∈ program.hierarchyGraph.arcs ∧ program.isInterface sub = areInterfaces := by
  simp only [directSubtypes, Digraph.incoming, List.mem_filter, List.mem_map, List.mem_reverse,
    decide_eq_true_eq, beq_iff_eq, and_congr_left_iff]
  intro _
  constructor
  · rintro ⟨arc, ⟨⟨isArc, rfl⟩, rfl⟩, rfl⟩
    exact isArc
  · exact fun isArc => ⟨_, ⟨⟨isArc, rfl⟩, rfl⟩, rfl⟩

/-- From each type to those below it. -/
def subtypeLinks : Graph.Links ClassId where
  next := program.subtypes
  sources := program.hierarchyGraph.arcs.map Arc.target
  mem_sources {sup sub} isSubtype := by
    have isTarget {link : Inheritance} {areInterfaces : Bool}
        (isSubtype : sub ∈ program.directSubtypes sup link areInterfaces) :
        sup ∈ program.hierarchyGraph.arcs.map Arc.target :=
      List.mem_map_of_mem (f := Arc.target) (mem_directSubtypes.mp isSubtype).1
    unfold subtypes at isSubtype
    split at isSubtype
    case isTrue => exact (List.mem_append.mp isSubtype).elim isTarget isTarget
    case isFalse => exact isTarget isSubtype

/-- All supertypes of a class, itself included, in ascending order. -/
def ancestors (id : ClassId) : List ClassId :=
  (SetFact.ofList (Graph.search program.hierarchyGraph.outLinks .freshStack [id] [])).elements

/-- All subtypes of a class, itself included. -/
def descendants (id : ClassId) : List ClassId :=
  Graph.search program.subtypeLinks .stack [id] []

/-- Whether the values of one class are values of another. -/
def isSubtype (sub sup : ClassId) : Bool := (program.ancestors sub).contains sup

/-- The first method with a body found under a subsignature along a superclass
chain, looked for in at most `limit` classes. -/
def dispatchWithin (sub : Subsignature) : (limit : Nat) → Option ClassId → Option MethodId
  | _, none => none
  | 0, some _ => none
  | limit + 1, some id =>
      match program.declaredMethod? id sub with
      | some method =>
          if (program.methodDef method).isAbstract then
            dispatchWithin sub limit (program.classDef id).superclass
          else some method
      | none => dispatchWithin sub limit (program.classDef id).superclass

/-- The method that runs when a subsignature is called on an object of a class. -/
def dispatch (id : ClassId) (sub : Subsignature) : Option MethodId :=
  program.dispatchWithin sub program.classes.size (some id)

/-- The line style a class is drawn with. -/
def classStyle (id : ClassId) : String :=
  let cls := program.classDef id
  if cls.isInterface then "dashed" else if cls.isAbstract then "dotted" else "solid"

/-- The line style a link is drawn with. -/
def linkStyle : Inheritance → String
  | .extension => "solid"
  | .implementation => "dashed"

/-- The drawing of the hierarchy. -/
def hierarchyDot : String :=
  "digraph \x7b\n" ++
    program.hierarchyGraph.drawing
      (fun id => "label = \"" ++ (program.classDef id).name ++ "\" shape=box,style=" ++
        program.classStyle id)
      (fun arc => "arrowType=empty,style=" ++ linkStyle arc.label) ++
    "\x7d\n"

end Program

end TacAnalysis
