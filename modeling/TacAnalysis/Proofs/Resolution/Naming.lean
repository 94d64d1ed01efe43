/-
# The names of webs

A web goes by the rank of its root among the roots of its variable. The web of the earliest
definition has the rank zero and keeps the variable; every other web has a variable of its
own among those that are added. A statement that reads a variable reads it under the name of
the web of whichever definition reaches the statement, since they are all in one web.
-/

import TacAnalysis.Proofs.Lists
import TacAnalysis.Proofs.Resolution.Webs

namespace TacAnalysis

namespace Code

variable {code : Code} {fresh var other name : VarId} {site first second : DefSite} {index : Nat}

section Ranking

/-- The roots of the webs of a variable, in order. -/
def rootsOf (code : Code) (var : VarId) : List Definition :=
  code.naming.roots.filter fun root => root.1 == var

/-- The rank of the web of a definition among those of its variable. -/
def rankOf (code : Code) (var : VarId) (site : DefSite) : Nat :=
  (code.rootsOf var).idxOf (code.webs.rootOf (var, site))

theorem mem_roots {definition : Definition} : definition ∈ code.naming.roots ↔
    ∃ var site, code.DefinesAt var site ∧ code.webs.rootOf (var, site) = definition := by
  have areRoots := (code.isForest_webs.findAll code.webs.nodes).2.2
  have isRoot : definition ∈ code.naming.roots ↔
      definition ∈ SetFact.ofList (code.webs.findAll code.webs.nodes).2 := Iff.rfl
  rw [isRoot, SetFact.mem_ofList, areRoots, List.mem_map]
  constructor
  · rintro ⟨⟨var, site⟩, isNode, isRoot⟩
    exact ⟨var, site, has_webs.mp (UnionFind.has_iff_mem_nodes.mpr isNode), isRoot⟩
  · rintro ⟨var, site, defines, isRoot⟩
    exact ⟨(var, site), UnionFind.has_iff_mem_nodes.mp (has_webs.mpr defines), isRoot⟩

theorem mem_rootsOf (defines : code.DefinesAt var site) :
    code.webs.rootOf (var, site) ∈ code.rootsOf var := by
  refine List.mem_filter.mpr ⟨mem_roots.mpr ⟨var, site, defines, rfl⟩, ?_⟩
  obtain ⟨root, isRoot, -⟩ := code.exists_root var site
  rw [isRoot]
  exact beq_self_eq_true var

/-- The root of a web of a variable is a definition of the variable. -/
theorem exists_of_mem_rootsOf {definition : Definition} (isRoot : definition ∈ code.rootsOf var) :
    ∃ site, code.DefinesAt var site ∧ code.webs.rootOf (var, site) = definition := by
  obtain ⟨isRoot, isVar⟩ := List.mem_filter.mp isRoot
  obtain ⟨other, site, defines, rfl⟩ := mem_roots.mp isRoot
  obtain ⟨root, isOwn, -⟩ := code.exists_root other site
  rw [isOwn, beq_iff_eq] at isVar
  cases isVar
  exact ⟨site, defines, rfl⟩

theorem pairwise_rootsOf (code : Code) (var : VarId) :
    (code.rootsOf var).Pairwise (compare · · = .lt) :=
  (SetFact.pairwise_ofList (code.webs.findAll code.webs.nodes).2).filter _

/-- Definitions are of the same rank exactly if their sites are linked. -/
theorem rankOf_eq_iff_linked (isFirst : code.DefinesAt var first) :
    code.rankOf var first = code.rankOf var second ↔ code.Linked var first second := by
  rw [rankOf, rankOf, List.idxOf_inj (mem_rootsOf isFirst), rootOf_webs_eq_iff,
    and_iff_right rfl]

theorem definesAt_of_linked (linked : code.Linked var first second)
    (isFirst : code.DefinesAt var first) : code.DefinesAt var second := by
  cases linked with
  | refl => exact isFirst
  | tail _ meet => exact meet.definesSecond

/-- The web of the first site that defines a variable comes first. -/
theorem rankOf_first (isFirst : code.DefinesAt var first)
    (isEarliest : ∀ other, code.DefinesAt var other → ¬other.Precedes first) :
    code.rankOf var first = 0 := by
  have isOwnRoot : code.webs.rootOf (var, first) = (var, first) := by
    obtain ⟨root, isRoot, linked, rfl | precedes⟩ := code.exists_root var first
    · exact isRoot
    · exact absurd precedes (isEarliest root (definesAt_of_linked linked isFirst))
  refine idxOf_eq_zero_of_least (code.pairwise_rootsOf var) (mem_rootsOf isFirst)
    fun definition isOther isLess => ?_
  obtain ⟨site, defines, rfl⟩ := exists_of_mem_rootsOf isOther
  obtain ⟨root, isRoot, linked, -⟩ := code.exists_root var site
  rw [isOwnRoot, isRoot, Definition.compare_eq_lt] at isLess
  rcases isLess with isLess | ⟨-, precedes⟩
  · exact Nat.lt_irrefl var isLess
  · exact isEarliest root (definesAt_of_linked linked defines) precedes

/-- What a variable holds on entry is in its first web. -/
theorem rankOf_entry (isEntryVar : code.DefinesAt var .entry) : code.rankOf var .entry = 0 :=
  rankOf_first isEntryVar fun other _ => by cases other <;> exact id

end Ranking

section Added

/-- The rank of a root, as it is added, is that of the web. -/
theorem rankAmong_rootOf : rankAmong code.naming.roots (code.webs.rootOf (var, site)) =
    code.rankOf var site := by
  obtain ⟨root, isRoot, -⟩ := code.exists_root var site
  rw [rankAmong, rankOf, rootsOf, isRoot]

theorem mem_added {entry : VarId × Nat} : entry ∈ code.naming.added ↔
    entry.2 ≠ 0 ∧ ∃ site, code.DefinesAt entry.1 site ∧ code.rankOf entry.1 site = entry.2 := by
  show entry ∈ addedVars code.naming.roots ↔ _
  rw [addedVars, List.mem_filter, List.mem_map, bne_iff_ne, and_comm, and_congr_right_iff]
  intro _
  constructor
  · rintro ⟨root, isRoot, rfl⟩
    obtain ⟨var, site, defines, rfl⟩ := mem_roots.mp isRoot
    obtain ⟨root, isRoot, -⟩ := code.exists_root var site
    rw [rankAmong_rootOf, isRoot]
    exact ⟨site, defines, rfl⟩
  · rintro ⟨site, defines, isRank⟩
    refine ⟨_, mem_roots.mpr ⟨_, site, defines, rfl⟩, ?_⟩
    obtain ⟨root, isRoot, -⟩ := code.exists_root entry.1 site
    rw [rankAmong_rootOf, isRank, isRoot]

/-- The variables that are added are different ones. -/
theorem nodup_added : code.naming.added.Nodup := by
  show (addedVars code.naming.roots).Nodup
  refine List.Nodup.filter _ (List.Nodup.map_on (fun first isFirst second isSecond same => ?_) ?_)
  · obtain ⟨var, site, defines, rfl⟩ := mem_roots.mp isFirst
    obtain ⟨other, otherSite, otherDefines, rfl⟩ := mem_roots.mp isSecond
    obtain ⟨root, isRoot, -⟩ := code.exists_root var site
    obtain ⟨otherRoot, isOtherRoot, -⟩ := code.exists_root other otherSite
    rw [rankAmong_rootOf, rankAmong_rootOf, isRoot, isOtherRoot, Prod.mk.injEq] at same
    obtain ⟨rfl, sameRank⟩ := same
    exact rootOf_webs_eq_iff.mpr ⟨rfl, (rankOf_eq_iff_linked defines).mp sameRank⟩
  · refine (SetFact.pairwise_ofList (code.webs.findAll code.webs.nodes).2).imp ?_
    rintro definition _ isLess rfl
    rw [Std.compare_self] at isLess
    cases isLess

end Added

section Names

/-- The name of the web that a site of a variable belongs to. -/
def nameAt (code : Code) (fresh var : VarId) (site : DefSite) : VarId :=
  code.naming.nameOf fresh (var, site)

/-- What a statement reads after splitting in place of a variable. -/
def readFor (code : Code) (fresh : VarId) (index : Nat) (var : VarId) : VarId :=
  (reachingOf code.reachingDefinitions index var).head?.elim var (code.naming.nameOf fresh)

/-- A variable goes by a name: its own one, or that of a variable added for one of its webs. -/
def IsName (code : Code) (fresh var name : VarId) : Prop :=
  name = var ∨ ∃ rank, (var, rank) ∈ (code.split fresh).added ∧
    name = fresh + (code.split fresh).added.idxOf (var, rank)

theorem nameAt_eq_ite : code.nameAt fresh var site =
    if code.naming.roots.contains (code.webs.rootOf (var, site)) then
      webVar code.naming.added fresh var (code.rankOf var site)
    else var := by
  have sameRoot : (code.naming.webs.find (var, site)).2 = code.webs.rootOf (var, site) :=
    congrFun (code.isForest_webs.findAll code.webs.nodes).2.1 (var, site)
  obtain ⟨root, isRoot, -⟩ := code.exists_root var site
  rw [nameAt, Naming.nameOf]
  simp only [sameRoot, rankAmong_rootOf]
  rw [isRoot]

/-- The web of a definition goes by the name of its rank. -/
theorem nameAt_eq (defines : code.DefinesAt var site) : code.nameAt fresh var site =
    webVar code.naming.added fresh var (code.rankOf var site) := by
  rw [nameAt_eq_ite, if_pos (List.contains_iff_mem.mpr (mem_roots.mpr ⟨_, _, defines, rfl⟩))]

theorem nameAt_entry (isEntryVar : code.DefinesAt var .entry) :
    code.nameAt fresh var .entry = var := by
  rw [nameAt_eq isEntryVar, rankOf_entry isEntryVar, webVar, if_pos rfl]

/-- The names of definitions: that of the variable for the first web, and that of an added
variable for each of the others. -/
theorem nameAt_cases (fresh : VarId) (defines : code.DefinesAt var site) :
    code.nameAt fresh var site = var ∧ code.rankOf var site = 0 ∨
      (var, code.rankOf var site) ∈ code.naming.added ∧
        code.nameAt fresh var site =
          fresh + code.naming.added.idxOf (var, code.rankOf var site) := by
  rw [nameAt_eq defines, webVar]
  split
  case isTrue isZero => exact .inl ⟨rfl, isZero⟩
  case isFalse isNew => exact .inr ⟨mem_added.mpr ⟨isNew, site, defines, rfl⟩, rfl⟩

theorem isName_nameAt (code : Code) (fresh var : VarId) (site : DefSite) :
    code.IsName fresh var (code.nameAt fresh var site) := by
  rw [nameAt_eq_ite]
  split
  case isFalse => exact .inl rfl
  case isTrue isRoot =>
      obtain ⟨other, root, defines, sameRoot⟩ := mem_roots.mp (List.contains_iff_mem.mp isRoot)
      obtain ⟨rfl, linked⟩ := rootOf_webs_eq_iff.mp sameRoot
      have definesToo := definesAt_of_linked linked defines
      rw [← nameAt_eq definesToo]
      exact (nameAt_cases fresh definesToo).imp And.left fun ⟨isAdded, isName⟩ =>
        ⟨_, isAdded, isName⟩

theorem isName_readFor (code : Code) (fresh var : VarId) (index : Nat) :
    code.IsName fresh var (code.readFor fresh index var) := by
  rw [readFor]
  cases isFirst : (reachingOf code.reachingDefinitions index var).head? with
  | none => exact .inl rfl
  | some definition =>
      have isVar := (List.mem_filter.mp (List.mem_of_head? isFirst)).2
      rw [← eq_of_beq isVar]
      exact code.isName_nameAt fresh definition.1 definition.2

/-- What a definition reaches is read under the name of its web. -/
theorem readFor_eq_nameAt (fresh : VarId) (defines : code.DefinesAt var site)
    (isRead : var ∈ (code.stmt index).uses) (arrives : code.Arrives var site index) :
    code.readFor fresh index var = code.nameAt fresh var site := by
  have isReaching := (mem_reachingOf isRead).mpr ⟨rfl, defines, arrives⟩
  rw [readFor]
  cases isFirst : (reachingOf code.reachingDefinitions index var).head? with
  | none =>
      rw [List.head?_eq_none_iff.mp isFirst] at isReaching
      cases isReaching
  | some definition =>
      obtain ⟨other, first⟩ := definition
      obtain ⟨rfl, definesFirst, arrivesFirst⟩ :=
        (mem_reachingOf isRead).mp (List.mem_of_head? isFirst)
      have linked : code.Linked _ first site :=
        .single ⟨definesFirst, defines, index, isRead, arrivesFirst, arrives⟩
      show code.nameAt fresh _ first = _
      rw [nameAt_eq definesFirst, nameAt_eq defines, (rankOf_eq_iff_linked definesFirst).mpr linked]

/-- What no definition reaches is read under its own name. -/
theorem readFor_eq_self (notReached : ∀ site, code.DefinesAt var site →
    ¬code.Arrives var site index) (isRead : var ∈ (code.stmt index).uses) :
    code.readFor fresh index var = var := by
  have isEmpty : reachingOf code.reachingDefinitions index var = [] := by
    refine List.eq_nil_iff_forall_not_mem.mpr fun (other, site) isReaching => ?_
    obtain ⟨rfl, defines, arrives⟩ := (mem_reachingOf isRead).mp isReaching
    exact notReached site defines arrives
  rw [readFor, isEmpty]
  rfl

/-- Splitting renames every statement. -/
theorem stmt_split : (code.split fresh).body.getD index .nop =
    (code.stmt index).rename (fun var => code.nameAt fresh var (.stmt index))
      (code.readFor fresh index) := by
  unfold split stmt
  rw [Array.getD_eq_getD_getElem?, Array.getD_eq_getD_getElem?, Array.getElem?_mapIdx]
  cases code.body[index]? with
  | none => rfl
  | some stmt => rfl

theorem size_split : (code.split fresh).body.size = code.body.size := Array.size_mapIdx

/-- Whatever statements there are after splitting, they have been renamed. -/
theorem exists_of_mem_split {stmt : Stmt} (isStmt : stmt ∈ (code.split fresh).body) :
    ∃ original ∈ code.body, ∃ onDef onUse, stmt = original.rename onDef onUse := by
  obtain ⟨index, inBody, rfl⟩ := Array.mem_iff_getElem.mp isStmt
  have inOriginal : index < code.body.size := inBody.trans_eq size_split
  exact ⟨_, Array.getElem_mem inOriginal, _, _, Array.getElem_mapIdx _⟩

end Names

end Code

end TacAnalysis
