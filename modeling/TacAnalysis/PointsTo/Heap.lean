/-
# Abstract objects

All the objects allocated at one program point are a single abstract object,
which may be told apart by the contexts it is allocated in. Both are numbered in
order of appearance.
-/

import TacAnalysis.PointsTo.Context

namespace TacAnalysis.PointsTo

/-- An abstract object: where it is allocated, and its type. -/
structure AbstractObject where
  site : Site
  ty : Ty
  deriving DecidableEq, Inhabited

/-- The number of a qualified object. -/
abbrev QualifiedId := Nat

/-- The abstract objects met so far, the sites that number them, and those told apart
by a context. -/
structure Heap where
  objects : List AbstractObject
  sites : ArrivalSet Site
  qualified : ArrivalSet QualifiedObject
  numbered : sites.elements = objects.map AbstractObject.site
  deriving DecidableEq

namespace Heap

/-- The heap without objects. -/
def empty : Heap := ⟨[], .empty, .empty, rfl⟩

instance : Inhabited Heap := ⟨empty⟩

variable (heap : Heap)

/-- The abstract object of a number. -/
def object (id : ObjectId) : AbstractObject := heap.objects.getD id default

/-- The object allocated at a program point. It is of the type it is first
allocated with. -/
def allocate (site : Site) (ty : Ty) : ObjectId × Heap :=
  match isKnown : heap.sites.number? site with
  | some id => (id, heap)
  | none => (heap.objects.length, { heap with
      objects := heap.objects ++ [⟨site, ty⟩]
      sites := heap.sites.append site (ArrivalSet.number?_eq_none_iff.mp isKnown)
      numbered := by simp [ArrivalSet.append, heap.numbered] })

/-- The number of an object in a context. -/
def qualify (context : ContextId) (object : ObjectId) : QualifiedId × Heap :=
  let (id, qualified) := heap.qualified.intern ⟨context, object⟩
  (id, { heap with qualified })

/-- The qualified object of a number. -/
def qualifiedObject (id : QualifiedId) : QualifiedObject := (heap.qualified.get? id).getD default

/-- The abstract object that a qualified object is, whatever its context. -/
def objectOf (id : QualifiedId) : ObjectId := (heap.qualifiedObject id).object

/-- The type of a qualified object. -/
def typeOf (id : QualifiedId) : Ty := (heap.object (heap.objectOf id)).ty

variable {heap}

/-- The number of a site is the one of the object allocated there. -/
theorem number?_sites_eq_some_iff {site : Site} {id : ObjectId} :
    heap.sites.number? site = some id ↔
      ∃ object, heap.objects[id]? = some object ∧ object.site = site := by
  rw [ArrivalSet.number?_eq_some_iff, ArrivalSet.get?, heap.numbered, List.getElem?_map,
    Option.map_eq_some_iff]

end Heap

end TacAnalysis.PointsTo
