/-
# What union-find finds

A forest represents its sets by a function that takes nodes to their roots. Each parent is
smaller than its child, or the child itself, so that the nodes below a node bound the number
of parents to follow from it. Finding a root changes parents but no roots, and a union joins
two sets and leaves all others as they are. No node is smaller than the root of its set.
-/

import TacAnalysis.UnionFind

namespace TacAnalysis.UnionFind

variable {Node : Type} [BEq Node] [Ord Node] {forest : UnionFind Node} {root : Node → Node}
  {node other first second : Node}

/-- The root of the set of a node. -/
def rootOf (forest : UnionFind Node) (node : Node) : Node := (forest.find node).2

/-- A node is listed with a parent. -/
def Has (forest : UnionFind Node) (node : Node) : Prop := (forest.parent? node).isSome

/-- Following parents leads to the roots that a function gives. -/
structure Represents (forest : UnionFind Node) (root : Node → Node) : Prop where
  unlisted : ∀ node, forest.parent? node = none → root node = node
  listed : ∀ node parent, forest.parent? node = some parent →
    parent = node ∧ root node = node ∨
      compare parent node = .lt ∧ root node = root parent ∧ forest.Has parent

omit [Ord Node] in
theorem has_iff_mem_nodes [LawfulBEq Node] : forest.Has node ↔ node ∈ forest.nodes := by
  rw [Has, parent?, List.lookup_isSome_iff, nodes, List.mem_map]
  constructor
  · rintro ⟨entry, isEntry, isSame⟩
    exact ⟨entry, isEntry, (eq_of_beq isSame).symm⟩
  · rintro ⟨entry, isEntry, rfl⟩
    exact ⟨entry, isEntry, beq_self_eq_true _⟩

/-- The number of nodes that are smaller than a node. -/
def below (forest : UnionFind Node) (node : Node) : Nat :=
  forest.nodes.countP fun other => compare other node == .lt

omit [BEq Node] in
theorem below_le : forest.below node ≤ forest.nodes.length := List.countP_le_length

theorem below_lt [LawfulBEq Node] [Std.TransOrd Node] (isLess : compare other node = .lt)
    (isNode : forest.Has other) : forest.below other < forest.below node := by
  have isIn := has_iff_mem_nodes.mp isNode
  obtain ⟨before, after, areNodes⟩ := List.append_of_mem isIn
  have fewer (nodes : List Node) : nodes.countP (fun third => compare third other == .lt) ≤
      nodes.countP (fun third => compare third node == .lt) := by
    refine List.countP_mono_left fun third _ isBelow => ?_
    rw [beq_iff_eq] at isBelow ⊢
    exact Std.TransCmp.lt_trans isBelow isLess
  have notSelf : (compare other other == .lt) = false := by
    rw [Std.compare_self]
    rfl
  have isCounted : (compare other node == .lt) = true := by rw [isLess]; rfl
  rw [below, below, areNodes, List.countP_append, List.countP_append, List.countP_cons,
    List.countP_cons, notSelf, isCounted, if_neg Bool.false_ne_true, if_pos rfl]
  have isBefore := fewer before
  have isAfter := fewer after
  omega

section Parents

variable [LawfulBEq Node] {parent : Node}

theorem parent?_setParent : (forest.setParent node parent).parent? other =
    if other == node then some parent else forest.parent? other :=
  lookup_insertEntry _ _ _ _

theorem has_setParent :
    (forest.setParent node parent).Has other ↔ other = node ∨ forest.Has other := by
  rw [Has, parent?_setParent]
  by_cases isSame : other = node
  · simp [isSame]
  · rw [beq_false_of_ne isSame, if_neg Bool.false_ne_true, or_iff_right isSame, Has]

/-- Giving a node a smaller parent in its set changes no root. -/
theorem Represents.setParent (represents : forest.Represents root)
    (isParent : parent = node ∧ root node = node ∨
      compare parent node = .lt ∧ root node = root parent ∧ forest.Has parent) :
    (forest.setParent node parent).Represents root where
  unlisted other isNone := by
    rw [parent?_setParent] at isNone
    split at isNone
    case isTrue => cases isNone
    case isFalse => exact represents.unlisted other isNone
  listed other found isFound := by
    rw [parent?_setParent] at isFound
    split at isFound
    case isTrue isSame =>
        cases isFound
        rw [eq_of_beq isSame]
        exact isParent.imp_right fun ⟨isLess, sameRoot, isNode⟩ =>
          ⟨isLess, sameRoot, has_setParent.mpr (.inr isNode)⟩
    case isFalse =>
        exact (represents.listed other found isFound).imp_right fun ⟨isLess, sameRoot, isNode⟩ =>
          ⟨isLess, sameRoot, has_setParent.mpr (.inr isNode)⟩

end Parents

section Walking

variable [LawfulBEq Node] [Std.TransOrd Node]

/-- What holds of the nodes that are their own roots, and of a node whenever it holds of the
parent, holds of all nodes. -/
theorem Represents.induction (represents : forest.Represents root) {motive : Node → Prop}
    (ofRoot : ∀ node, root node = node → motive node)
    (ofParent : ∀ node parent, forest.parent? node = some parent → compare parent node = .lt →
      root node = root parent → forest.Has parent → motive parent → motive node) (node : Node) :
    motive node := by
  induction isBound : forest.below node using Nat.strongRecOn generalizing node with
  | ind bound ih =>
      cases isFound : forest.parent? node with
      | none => exact ofRoot node (represents.unlisted node isFound)
      | some parent =>
          rcases represents.listed node parent isFound with
            ⟨-, isRoot⟩ | ⟨isLess, sameRoot, isNode⟩
          · exact ofRoot node isRoot
          · have isBelow := below_lt isLess isNode
            exact ofParent node parent isFound isLess sameRoot isNode
              (ih _ (isBound ▸ isBelow) parent rfl)

theorem Represents.root_root (represents : forest.Represents root) :
    root (root node) = root node := by
  refine represents.induction (motive := fun node => root (root node) = root node)
    (fun node isRoot => by rw [isRoot, isRoot]) (fun node parent _ _ sameRoot _ ih => ?_) node
  rw [sameRoot]
  exact ih

/-- The root of a node is the node itself or smaller. -/
theorem Represents.root_eq_or_lt (represents : forest.Represents root) :
    root node = node ∨ compare (root node) node = .lt := by
  refine represents.induction (motive := fun node => root node = node ∨
      compare (root node) node = .lt) (fun _ => .inl)
    (fun node parent _ isLess sameRoot _ ih => .inr ?_) node
  rw [sameRoot]
  rcases ih with isRoot | isLower
  · rwa [isRoot]
  · exact Std.TransCmp.lt_trans isLower isLess

theorem Represents.has_root (represents : forest.Represents root) (isNode : forest.Has node) :
    forest.Has (root node) := by
  refine represents.induction (motive := fun node => forest.Has node → forest.Has (root node))
    (fun node isRoot isNode => ?_) (fun node parent _ _ sameRoot isParent ih _ => ?_) node isNode
  · rwa [isRoot]
  · rw [sameRoot]
    exact ih isParent

/-- A search finds the root, adds the node if it is new, and changes no root. -/
structure Finds (forest : UnionFind Node) (root : Node → Node) (node : Node)
    (found : UnionFind Node × Node) : Prop where
  isRoot : found.2 = root node
  represents : found.1.Represents root
  has_iff : ∀ other, found.1.Has other ↔ other = node ∨ forest.Has other

/-- Following parents for more steps than there are smaller nodes finds the root. -/
theorem finds_findWithin (represents : forest.Represents root) {steps : Nat}
    (areEnough : forest.below node < steps) :
    forest.Finds root node (forest.findWithin steps node) := by
  induction steps generalizing node with
  | zero => cases areEnough
  | succ steps ih =>
      rw [findWithin]
      split
      case h_1 isNew =>
          have isRoot := represents.unlisted node isNew
          exact ⟨isRoot.symm, represents.setParent (.inl ⟨rfl, isRoot⟩), fun _ => has_setParent⟩
      case h_2 parent isFound =>
          have isNode : forest.Has node := Option.isSome_iff_exists.mpr ⟨parent, isFound⟩
          have hasNode (other : Node) : forest.Has other ↔ other = node ∨ forest.Has other :=
            ⟨.inr, fun isEither => isEither.elim (· ▸ isNode) id⟩
          split
          case isTrue isSame =>
              rcases represents.listed node parent isFound with ⟨-, isRoot⟩ | ⟨isLess, -⟩
              · exact ⟨isRoot.symm, represents, hasNode⟩
              · rw [eq_of_beq isSame, Std.compare_self] at isLess
                cases isLess
          case isFalse isOther =>
              rcases represents.listed node parent isFound with
                ⟨isSame, -⟩ | ⟨isLess, sameRoot, isParent⟩
              · exact absurd (beq_iff_eq.mpr isSame) isOther
              · have isBelow := below_lt isLess isParent
                obtain ⟨isRoot, shortened, has_iff⟩ := @ih parent (by omega)
                rw [← sameRoot] at isRoot
                refine ⟨isRoot, shortened.setParent ?_, fun other => ?_⟩
                · rw [isRoot, shortened.root_root]
                  refine represents.root_eq_or_lt.imp (fun isOwn => ⟨isOwn, isOwn⟩)
                    fun isLower => ⟨isLower, rfl, ?_⟩
                  exact (has_iff _).mpr (.inr (represents.has_root isNode))
                · have isOld (isSame : other = parent) : forest.Has other := isSame ▸ isParent
                  rw [has_setParent, has_iff, or_iff_right_of_imp isOld]

theorem finds_find (represents : forest.Represents root) (node : Node) :
    forest.Finds root node (forest.find node) :=
  finds_findWithin represents (Nat.lt_succ_of_le below_le)

/-- The roots found are the ones that a forest represents its sets by. -/
theorem Represents.rootOf_eq (represents : forest.Represents root) : forest.rootOf = root :=
  funext fun node => (finds_find represents node).isRoot

end Walking

/-- Following parents leads to the roots that are found. -/
def IsForest (forest : UnionFind Node) : Prop := forest.Represents forest.rootOf

section Operations

variable [LawfulBEq Node] [Std.TransOrd Node]

theorem Represents.isForest (represents : forest.Represents root) : forest.IsForest := by
  rw [IsForest, represents.rootOf_eq]
  exact represents

omit [LawfulBEq Node] [Std.TransOrd Node] in
theorem represents_empty : (empty : UnionFind Node).Represents id :=
  ⟨fun _ _ => rfl, nofun⟩

omit [Ord Node] [LawfulBEq Node] [Std.TransOrd Node] in
theorem not_has_empty : ¬(empty : UnionFind Node).Has node := nofun

theorem rootOf_empty : (empty : UnionFind Node).rootOf node = node :=
  congrFun represents_empty.rootOf_eq node

namespace IsForest

variable (isForest : forest.IsForest)

include isForest

theorem find (node : Node) : (forest.find node).1.IsForest :=
  (finds_find isForest node).represents.isForest

/-- Finding roots changes none of them. -/
theorem rootOf_find (node : Node) : (forest.find node).1.rootOf = forest.rootOf :=
  (finds_find isForest node).represents.rootOf_eq

theorem has_find : (forest.find node).1.Has other ↔ other = node ∨ forest.Has other :=
  (finds_find isForest node).has_iff other

theorem rootOf_rootOf (node : Node) : forest.rootOf (forest.rootOf node) = forest.rootOf node :=
  isForest.root_root

theorem rootOf_eq_or_lt (node : Node) :
    forest.rootOf node = node ∨ compare (forest.rootOf node) node = .lt :=
  isForest.root_eq_or_lt

/-- The roots of nodes, one after another. -/
theorem findAll (nodes : List Node) : (forest.findAll nodes).1.IsForest ∧
    (forest.findAll nodes).1.rootOf = forest.rootOf ∧
      (forest.findAll nodes).2 = nodes.map forest.rootOf := by
  induction nodes generalizing forest with
  | nil => exact ⟨isForest, rfl, rfl⟩
  | cons node nodes ih =>
      obtain ⟨staysForest, sameRoots, areRoots⟩ := ih (isForest.find node)
      rw [isForest.rootOf_find] at sameRoots areRoots
      exact ⟨staysForest, sameRoots, congrArg (forest.rootOf node :: ·) areRoots⟩

end IsForest

/-- A root that gets another, smaller root as its parent takes its set along. -/
theorem represents_link [DecidableEq Node] (represents : forest.Represents root)
    (isLess : compare first second = .lt) (isFirst : root first = first)
    (isSecond : root second = second) (isNode : forest.Has first) (isChild : forest.Has second) :
    (forest.setParent second first).Represents
      fun node => if root node = second then first else root node := by
  have areOther : first ≠ second := by
    rintro rfl
    rw [Std.compare_self] at isLess
    cases isLess
  constructor
  case unlisted =>
      intro node isNone
      rw [parent?_setParent] at isNone
      split at isNone
      case isTrue => cases isNone
      case isFalse =>
          have isRoot := represents.unlisted node isNone
          have isOther : node ≠ second := by
            rintro rfl
            rw [Has, isNone] at isChild
            cases isChild
          rw [isRoot, if_neg isOther]
  case listed =>
      intro node parent isFound
      rw [parent?_setParent] at isFound
      split at isFound
      case isTrue isSame =>
          cases isFound
          rw [eq_of_beq isSame, isSecond, if_pos rfl, isFirst, if_neg areOther]
          exact .inr ⟨isLess, rfl, has_setParent.mpr (.inr isNode)⟩
      case isFalse isOther =>
          rcases represents.listed node parent isFound with
            ⟨isOwn, isRoot⟩ | ⟨isLower, sameRoot, isParent⟩
          · have notSecond : node ≠ second := fun isSame => isOther (beq_iff_eq.mpr isSame)
            rw [isRoot, if_neg notSecond]
            exact .inl ⟨isOwn, rfl⟩
          · rw [sameRoot]
            exact .inr ⟨isLower, rfl, has_setParent.mpr (.inr isParent)⟩

/-- The sets of two nodes have become one, and all others are as they have been. -/
structure Joins (forest : UnionFind Node) (first second : Node) (new : UnionFind Node) :
    Prop where
  isForest : new.IsForest
  has_iff : ∀ node, new.Has node ↔ node = first ∨ node = second ∨ forest.Has node
  rootOf_eq_iff : ∀ node other, new.rootOf node = new.rootOf other ↔
    forest.rootOf node = forest.rootOf other ∨
      forest.rootOf node = forest.rootOf first ∧ forest.rootOf other = forest.rootOf second ∨
      forest.rootOf node = forest.rootOf second ∧ forest.rootOf other = forest.rootOf first

variable [DecidableEq Node]

/-- Linking one root to another makes one set of theirs. -/
theorem rootOf_eq_iff_link (represents : forest.Represents root)
    (isLess : compare first second = .lt) (isFirst : root first = first)
    (isSecond : root second = second) (isNode : forest.Has first) (isChild : forest.Has second)
    (node other : Node) :
    (forest.setParent second first).rootOf node = (forest.setParent second first).rootOf other ↔
      root node = root other ∨ root node = first ∧ root other = second ∨
        root node = second ∧ root other = first := by
  rw [(represents_link represents isLess isFirst isSecond isNode isChild).rootOf_eq]
  by_cases isLost : root node = second <;> by_cases isLostToo : root other = second
  · simp [isLost, isLostToo]
  · simp [isLost, isLostToo, Ne.symm isLostToo, eq_comm]
  · simp [isLost, isLostToo]
  · simp [isLost, isLostToo]

omit [LawfulBEq Node] [Std.TransOrd Node] [DecidableEq Node] in
theorem Joins.symm {new : UnionFind Node} (joins : forest.Joins first second new) :
    forest.Joins second first new where
  isForest := joins.isForest
  has_iff node := (joins.has_iff node).trans or_left_comm
  rootOf_eq_iff node other := (joins.rootOf_eq_iff node other).trans (or_congr_right or_comm)

/-- Once two nodes are there, linking the larger of their roots to the smaller one joins their
sets. -/
theorem Represents.joins_link {found : UnionFind Node}
    (represents : found.Represents forest.rootOf) (isForest : forest.IsForest)
    (hasNode : ∀ node, found.Has node ↔ node = first ∨ node = second ∨ forest.Has node)
    (isLess : compare (forest.rootOf first) (forest.rootOf second) = .lt) :
    forest.Joins first second
      (found.setParent (forest.rootOf second) (forest.rootOf first)) := by
  have isFirst := isForest.rootOf_rootOf first
  have isSecond := isForest.rootOf_rootOf second
  have hasFirst : found.Has (forest.rootOf first) :=
    represents.has_root ((hasNode first).mpr (.inl rfl))
  have hasSecond : found.Has (forest.rootOf second) :=
    represents.has_root ((hasNode second).mpr (.inr (.inl rfl)))
  have linked := represents_link represents isLess isFirst isSecond hasFirst hasSecond
  refine ⟨linked.isForest, fun node => ?_,
    rootOf_eq_iff_link represents isLess isFirst isSecond hasFirst hasSecond⟩
  rw [has_setParent, hasNode, or_iff_right_of_imp]
  rintro rfl
  exact (hasNode _).mp hasSecond

/-- A union joins the sets of its arguments. -/
theorem IsForest.joins_union [Std.LawfulEqOrd Node] (isForest : forest.IsForest)
    (first second : Node) : forest.Joins first second (forest.union first second) := by
  have foundFirst := finds_find isForest first
  have foundSecond := finds_find foundFirst.represents second
  have represents := foundSecond.represents
  have hasNode (node : Node) : ((forest.find first).1.find second).1.Has node ↔
      node = first ∨ node = second ∨ forest.Has node := by
    rw [foundSecond.has_iff, foundFirst.has_iff]
    exact or_left_comm
  unfold union
  simp only [foundFirst.isRoot, foundSecond.isRoot]
  split
  case isTrue isSame =>
      have isSame := eq_of_beq isSame
      refine ⟨represents.isForest, hasNode, fun node other => ?_⟩
      rw [represents.rootOf_eq, isSame, or_self, iff_comm, or_iff_left_iff_imp]
      exact fun areBoth => areBoth.1.trans areBoth.2.symm
  case isFalse isOther =>
      split
      case isTrue isLess =>
          exact represents.joins_link isForest hasNode (Ordering.isLT_iff_eq_lt.mp isLess)
      case isFalse notLess =>
          have isLess : compare (forest.rootOf second) (forest.rootOf first) = .lt := by
            cases isOrder : compare (forest.rootOf first) (forest.rootOf second) with
            | lt => rw [isOrder] at notLess; contradiction
            | eq => exact absurd (beq_iff_eq.mpr (Std.LawfulEqOrd.eq_of_compare isOrder)) isOther
            | gt => exact Std.OrientedCmp.lt_of_gt isOrder
          have hasNodes (node : Node) := (hasNode node).trans or_left_comm
          exact (represents.joins_link isForest hasNodes isLess).symm

end Operations

end TacAnalysis.UnionFind
