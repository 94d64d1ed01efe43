/-
# Behind cycles

What is true of a node as soon as it is true of all nodes that lead to it is true of the
nodes of a finite graph that no cycle leads to. When it is known from the start of the nodes
that no origin leads to, only the cycles that the origins lead to stand in the way.
-/

import Mathlib.Data.Set.Finite.Basic
import Mathlib.Logic.Relation
import Mathlib.Order.WellFounded

namespace TacAnalysis.Graph

open Relation (ReflTransGen TransGen)

variable {Node : Type} {leads : Node → Node → Prop} {nodes : List Node} {node : Node}
  {motive : Node → Prop}

/-- What is true of a node when it is true of the nodes leading to it, is true of a node that
no cycle leads to. -/
theorem induction_of_no_cycle (areNodes : ∀ source target, leads source target → source ∈ nodes)
    (noCycle : ∀ other, ReflTransGen leads other node → ¬ TransGen leads other other)
    (inherits : ∀ node, (∀ source, leads source node → motive source) → motive node) :
    motive node := by
  let Earlier := { source // source ∈ nodes ∧ TransGen leads source node }
  let precedes (first second : Earlier) : Prop := TransGen leads first.1 second.1
  have isFinite : Finite Earlier :=
    ((List.finite_toSet nodes).subset fun _ isIn => isIn.1).to_subtype
  have transitive : IsTrans Earlier precedes := ⟨fun _ _ _ => TransGen.trans⟩
  have irreflexive : Std.Irrefl precedes :=
    ⟨fun other => noCycle other.1 other.2.2.to_reflTransGen⟩
  have wellFounded := Finite.wellFounded_of_trans_of_irrefl precedes
  have earlier (source : Earlier) : motive source.1 := by
    induction source using wellFounded.induction with
    | _ source ih =>
        apply inherits
        intro other leads
        exact ih ⟨other, areNodes _ _ leads, .head leads source.2.2⟩ (.single leads)
  apply inherits
  intro source leads
  exact earlier ⟨source, areNodes _ _ leads, .single leads⟩

/-- Some path from an origin to a node meets a cycle. -/
def BehindCycle (leads : Node → Node → Prop) (isOrigin : Node → Prop) (node : Node) : Prop :=
  ∃ origin middle, isOrigin origin ∧ ReflTransGen leads origin middle ∧
    TransGen leads middle middle ∧ ReflTransGen leads middle node

/-- No node is behind a cycle when the edges rise from the origins on. -/
theorem not_behindCycle_of_rises {isOrigin : Node → Prop} (rank : Node → Nat) {first : Nat}
    (areLate : ∀ origin, isOrigin origin → first ≤ rank origin)
    (rises : ∀ source target, leads source target → first ≤ rank source →
      rank source < rank target) : ¬ BehindCycle leads isOrigin node := by
  have goesUp {source target : Node} (isPath : ReflTransGen leads source target)
      (isLate : first ≤ rank source) : rank source ≤ rank target := by
    induction isPath with
    | refl => exact le_rfl
    | tail _ isEdge ih => exact ih.trans (rises _ _ isEdge (isLate.trans ih)).le
  rintro ⟨origin, middle, isOrigin, leadsTo, isCycle, -⟩
  have isLate : first ≤ rank middle :=
    (areLate origin isOrigin).trans (goesUp leadsTo (areLate origin isOrigin))
  obtain ⟨last, isPath, isEdge⟩ := TransGen.tail'_iff.mp isCycle
  have isAbove := goesUp isPath isLate
  exact absurd (rises last middle isEdge (isLate.trans isAbove)) (Nat.not_lt.mpr isAbove)

/-- What is true of the nodes that no origin leads to, and of a node when it is true of the
nodes leading to it, is true of a node that is not behind a cycle. -/
theorem induction_of_not_behindCycle {isOrigin : Node → Prop}
    (areNodes : ∀ source target, leads source target → source ∈ nodes)
    (notBehind : ¬ BehindCycle leads isOrigin node)
    (isKnown : ∀ node, (∀ origin, isOrigin origin → ¬ ReflTransGen leads origin node) →
      motive node)
    (inherits : ∀ node, (∀ source, leads source node → motive source) → motive node) :
    motive node := by
  -- The edges that an origin leads to.
  let leadsOn (source target : Node) : Prop :=
    leads source target ∧ ∃ origin, isOrigin origin ∧ ReflTransGen leads origin source
  have isEdge (source target : Node) (isLed : leadsOn source target) : leads source target :=
    isLed.1
  have areSources (source target : Node) (isLed : leadsOn source target) : source ∈ nodes :=
    areNodes source target isLed.1
  apply induction_of_no_cycle areSources
  · intro other isBefore isCycle
    obtain ⟨_, ⟨-, origin, isOrigin, leadsTo⟩, -⟩ := TransGen.head'_iff.mp isCycle
    exact notBehind ⟨origin, other, isOrigin, leadsTo, TransGen.mono isEdge _ _ isCycle,
      ReflTransGen.mono isEdge _ _ isBefore⟩
  · intro target areInherited
    apply inherits
    intro source isLed
    by_cases isAfter : ∃ origin, isOrigin origin ∧ ReflTransGen leads origin source
    · exact areInherited source ⟨isLed, isAfter⟩
    · apply isKnown
      intro origin isOrigin leadsTo
      exact isAfter ⟨origin, isOrigin, leadsTo⟩

end TacAnalysis.Graph
