/-
# Webs are chains of definitions

Two definitions of a variable meet at a statement that reads the variable when both reach it,
and they are linked when a chain of definitions leads from one to the other in which
consecutive ones meet. Looking at the statements in order puts together definitions that
meet, and nothing else: what has been put together at any time is linked, nothing is taken
apart again, and in the end all definitions that meet are together. So the webs are the
chains, each under the earliest of its definitions, and the web of the first definition of a
variable has the rank zero, since the roots come in order.
-/

import Mathlib.Logic.Relation
import TacAnalysis.Program.Webs
import TacAnalysis.Proofs.Resolution.ReachingDefinitions
import TacAnalysis.Proofs.UnionFind

namespace TacAnalysis

open Relation (ReflTransGen)

namespace DefSite

/-- The entry comes before all statements, and these come in order. -/
def Precedes : DefSite → DefSite → Prop
  | .entry, .stmt _ => True
  | .stmt first, .stmt second => first < second
  | _, .entry => False

/-- The place of a site among all sites. -/
def place : DefSite → Nat
  | .entry => 0
  | .stmt index => index + 1

theorem compare_eq_compare_place (first second : DefSite) :
    compare first second = compare first.place second.place := by
  cases first <;> cases second
  case entry.entry => rfl
  case entry.stmt => exact (Nat.compare_eq_lt.mpr (Nat.succ_pos _)).symm
  case stmt.entry => exact (Nat.compare_eq_gt.mpr (Nat.succ_pos _)).symm
  case stmt.stmt first second =>
      show (compare first second).then .eq = compare (first + 1) (second + 1)
      rw [Ordering.then_eq]
      simp only [Nat.compare_eq_ite_lt, Nat.add_lt_add_iff_right]

theorem precedes_iff {first second : DefSite} :
    first.Precedes second ↔ compare first second = .lt := by
  rw [compare_eq_compare_place, Nat.compare_eq_lt]
  cases first <;> cases second <;> simp [Precedes, place]

instance : Std.TransOrd DefSite where
  eq_swap {first second} := by
    rw [compare_eq_compare_place, compare_eq_compare_place second]
    exact Std.OrientedCmp.eq_swap
  isLE_trans {first second third} := by
    rw [compare_eq_compare_place, compare_eq_compare_place second, compare_eq_compare_place first]
    exact Std.TransCmp.isLE_trans

instance : Std.LawfulEqOrd DefSite where
  compare_self {site} := by
    rw [compare_eq_compare_place]
    exact Std.compare_self
  eq_of_compare {first second} isEqual := by
    rw [compare_eq_compare_place, Nat.compare_eq_eq] at isEqual
    cases first <;> cases second <;> simp_all [place]

end DefSite

theorem Definition.compare_eq_lt {first second : Definition} : compare first second = .lt ↔
    first.1 < second.1 ∨ first.1 = second.1 ∧ first.2.Precedes second.2 := by
  show (compare first.1 second.1).then (compare first.2 second.2) = .lt ↔ _
  rw [Ordering.then_eq_lt, Nat.compare_eq_lt, Nat.compare_eq_eq, DefSite.precedes_iff]

namespace Code

variable {code : Code} {var other : VarId} {site first second : DefSite} {index : Nat}
  {webs old middle new : UnionFind Definition}

/-- Two sites define a variable, and both definitions reach a statement that reads it. -/
structure Meet (code : Code) (var : VarId) (first second : DefSite) : Prop where
  definesFirst : code.DefinesAt var first
  definesSecond : code.DefinesAt var second
  arrive : ∃ index, var ∈ (code.stmt index).uses ∧ code.Arrives var first index ∧
    code.Arrives var second index

/-- A chain of sites defining a variable leads from one to another, in which consecutive ones
meet. -/
def Linked (code : Code) (var : VarId) : DefSite → DefSite → Prop := ReflTransGen (code.Meet var)

theorem Meet.symm (meet : code.Meet var first second) : code.Meet var second first := by
  obtain ⟨isFirst, isSecond, index, isRead, arrives, arrivesToo⟩ := meet
  exact ⟨isSecond, isFirst, index, isRead, arrivesToo, arrives⟩

theorem Linked.symm (linked : code.Linked var first second) : code.Linked var second first := by
  induction linked with
  | refl => exact .refl
  | tail _ meet ih => exact .head meet.symm ih

theorem lt_size_of_uses (isRead : var ∈ (code.stmt index).uses) : index < code.body.size := by
  apply Nat.lt_of_not_le
  intro pastEnd
  rw [stmt_eq_nop pastEnd] at isRead
  cases isRead

/-- The definitions of a variable that reach a statement reading it. -/
theorem mem_reachingOf (isRead : var ∈ (code.stmt index).uses) :
    (other, site) ∈ reachingOf code.reachingDefinitions index var ↔
      other = var ∧ code.DefinesAt var site ∧ code.Arrives var site index := by
  rw [reachingOf, List.mem_filter, ← SetFact.mem_def, SetFact.mem_ofList,
    mem_reachingDefinitions (lt_size_of_uses isRead), beq_iff_eq, and_comm, and_congr_right_iff]
  rintro rfl
  rfl

section Joining

/-- Webs put together nothing but definitions of one variable that are linked. -/
structure Gathers (code : Code) (webs : UnionFind Definition) : Prop where
  isForest : webs.IsForest
  defines : ∀ var site, webs.Has (var, site) → code.DefinesAt var site
  linked : ∀ var first other second, webs.rootOf (var, first) = webs.rootOf (other, second) →
    var = other ∧ code.Linked var first second

/-- Definitions are kept, and so are webs that have become one. -/
structure Advances (code : Code) (old new : UnionFind Definition) : Prop where
  gathers : code.Gathers new
  has : ∀ definition, old.Has definition → new.Has definition
  together : ∀ first second, old.rootOf first = old.rootOf second →
    new.rootOf first = new.rootOf second

theorem Gathers.refl (gathers : code.Gathers webs) : code.Advances webs webs :=
  ⟨gathers, fun _ => id, fun _ _ => id⟩

theorem Advances.trans (before : code.Advances old middle) (after : code.Advances middle new) :
    code.Advances old new where
  gathers := after.gathers
  has definition isNode := after.has definition (before.has definition isNode)
  together first second isSame := after.together first second (before.together first second isSame)

theorem gathers_empty : code.Gathers .empty where
  isForest := UnionFind.represents_empty.isForest
  defines _ _ isNode := absurd isNode UnionFind.not_has_empty
  linked var first other second isSame := by
    rw [UnionFind.rootOf_empty, UnionFind.rootOf_empty] at isSame
    cases isSame
    exact ⟨rfl, .refl⟩

/-- Finding a definition puts nothing together. -/
theorem Gathers.find (gathers : code.Gathers webs) (defines : code.DefinesAt var site) :
    code.Advances webs (webs.find (var, site)).1 ∧ (webs.find (var, site)).1.Has (var, site) := by
  have isForest := gathers.isForest
  have sameRoots := isForest.rootOf_find (var, site)
  refine ⟨⟨⟨isForest.find _, fun other otherSite isNode => ?_, ?_⟩,
    fun definition isNode => ?_, ?_⟩, isForest.has_find.mpr (.inl rfl)⟩
  · rcases isForest.has_find.mp isNode with isSame | isOld
    · cases isSame
      exact defines
    · exact gathers.defines other otherSite isOld
  · rw [sameRoots]
    exact gathers.linked
  · exact isForest.has_find.mpr (.inr isNode)
  · rw [sameRoots]
    exact fun _ _ => id

/-- A union of definitions that meet puts together what is linked. -/
theorem Gathers.union (gathers : code.Gathers webs) (meet : code.Meet var first second) :
    code.Advances webs (webs.union (var, first) (var, second)) ∧
      (webs.union (var, first) (var, second)).rootOf (var, first) =
        (webs.union (var, first) (var, second)).rootOf (var, second) := by
  have joins := gathers.isForest.joins_union (var, first) (var, second)
  refine ⟨⟨⟨joins.isForest, fun other site isNode => ?_, fun other site third last isSame => ?_⟩,
    fun definition isNode => ?_, fun _ _ isSame => (joins.rootOf_eq_iff _ _).mpr (.inl isSame)⟩,
    (joins.rootOf_eq_iff _ _).mpr (.inr (.inl ⟨rfl, rfl⟩))⟩
  · rcases (joins.has_iff _).mp isNode with isFirst | isSecond | isOld
    · cases isFirst
      exact meet.definesFirst
    · cases isSecond
      exact meet.definesSecond
    · exact gathers.defines other site isOld
  · rcases (joins.rootOf_eq_iff _ _).mp isSame with
      isOld | ⟨isFirst, isSecond⟩ | ⟨isSecond, isFirst⟩
    · exact gathers.linked other site third last isOld
    · obtain ⟨rfl, toFirst⟩ := gathers.linked _ _ _ _ isFirst
      obtain ⟨rfl, toSecond⟩ := gathers.linked _ _ _ _ isSecond
      exact ⟨rfl, (toFirst.tail meet).trans toSecond.symm⟩
    · obtain ⟨rfl, toSecond⟩ := gathers.linked _ _ _ _ isSecond
      obtain ⟨rfl, toFirst⟩ := gathers.linked _ _ _ _ isFirst
      exact ⟨rfl, toSecond.trans (.head meet.symm toFirst.symm)⟩
  · exact (joins.has_iff _).mpr (.inr (.inr isNode))

/-- What each item achieves, and what is not undone afterwards, is achieved when all items
have been gone through. -/
theorem Gathers.foldl {Item : Type} (gathers : code.Gathers webs) (items : List Item)
    (step : UnionFind Definition → Item → UnionFind Definition)
    (done : Item → UnionFind Definition → Prop)
    (steps : ∀ item ∈ items, ∀ webs, code.Gathers webs →
      code.Advances webs (step webs item) ∧ done item (step webs item))
    (stays : ∀ item old new, code.Advances old new → done item old → done item new) :
    code.Advances webs (items.foldl step webs) ∧
      ∀ item ∈ items, done item (items.foldl step webs) := by
  induction items generalizing webs with
  | nil => exact ⟨gathers.refl, List.forall_mem_nil _⟩
  | cons item items ih =>
      obtain ⟨ofItem, ofItems⟩ := List.forall_mem_cons.mp steps
      obtain ⟨before, isDone⟩ := ofItem webs gathers
      obtain ⟨after, areDone⟩ := ih before.gathers ofItems
      exact ⟨before.trans after,
        List.forall_mem_cons.mpr ⟨stays item _ _ after isDone, areDone⟩⟩

/-- The definitions that reach a statement reading their variable get together. -/
theorem Gathers.advances_joinReaching (gathers : code.Gathers webs)
    (isRead : var ∈ (code.stmt index).uses) {definitions : List Definition}
    (reach : ∀ definition ∈ definitions,
      definition ∈ reachingOf code.reachingDefinitions index var) :
    code.Advances webs (joinReaching webs definitions) ∧
      ∀ first ∈ definitions, ∀ second ∈ definitions,
        (joinReaching webs definitions).rootOf first =
          (joinReaching webs definitions).rootOf second := by
  cases definitions with
  | nil => exact ⟨gathers.refl, List.forall_mem_nil _⟩
  | cons head others =>
      obtain ⟨reachesHead, reachOthers⟩ := List.forall_mem_cons.mp reach
      obtain ⟨headVar, head⟩ := head
      obtain ⟨rfl, defines, arrives⟩ := (mem_reachingOf isRead).mp reachesHead
      obtain ⟨found, -⟩ := gathers.find defines
      obtain ⟨joined, areJoined⟩ := found.gathers.foldl others
        (fun webs other => webs.union (headVar, head) other)
        (fun other webs => webs.rootOf (headVar, head) = webs.rootOf other)
        (fun (otherVar, other) isOther webs gathers => by
          obtain ⟨rfl, definesToo, arrivesToo⟩ := (mem_reachingOf isRead).mp (reachOthers _ isOther)
          exact gathers.union ⟨defines, definesToo, index, isRead, arrives, arrivesToo⟩)
        (fun other _ _ advances => advances.together _ other)
      refine ⟨found.trans joined, fun first isFirst second isSecond => ?_⟩
      have isWithHead (other : Definition) (isListed : other ∈ (headVar, head) :: others) :
          _ = UnionFind.rootOf _ other :=
        (List.mem_cons.mp isListed).elim (· ▸ rfl) (areJoined other)
      exact (isWithHead first isFirst).symm.trans (isWithHead second isSecond)

/-- A statement has been looked at: its definition is there, and those that reach it for a
variable that it reads are together. -/
structure Joined (code : Code) (index : Nat) (webs : UnionFind Definition) : Prop where
  has : ∀ var, (code.stmt index).def? = some var → webs.Has (var, .stmt index)
  together : ∀ var ∈ (code.stmt index).uses,
    ∀ first ∈ reachingOf code.reachingDefinitions index var,
      ∀ second ∈ reachingOf code.reachingDefinitions index var,
        webs.rootOf first = webs.rootOf second

theorem Joined.mono (joined : code.Joined index old) (advances : code.Advances old new) :
    code.Joined index new where
  has var isDef := advances.has _ (joined.has var isDef)
  together var isRead first isFirst second isSecond :=
    advances.together _ _ (joined.together var isRead first isFirst second isSecond)

theorem Gathers.advances_joinAt (gathers : code.Gathers webs) (index : Nat) :
    code.Advances webs (code.joinAt code.reachingDefinitions webs index) ∧
      code.Joined index (code.joinAt code.reachingDefinitions webs index) := by
  have ofUses {webs : UnionFind Definition} (gathers : code.Gathers webs) :=
    gathers.foldl (code.stmt index).uses
      (fun webs var => joinReaching webs (reachingOf code.reachingDefinitions index var))
      (fun var webs => ∀ first ∈ reachingOf code.reachingDefinitions index var,
        ∀ second ∈ reachingOf code.reachingDefinitions index var,
          webs.rootOf first = webs.rootOf second)
      (fun var isRead webs gathers => gathers.advances_joinReaching isRead fun _ => id)
      (fun var _ _ advances areTogether first isFirst second isSecond =>
        advances.together _ _ (areTogether first isFirst second isSecond))
  rw [Code.joinAt]
  cases isDef : (code.stmt index).def? with
  | none =>
      obtain ⟨advances, areTogether⟩ := ofUses gathers
      refine ⟨advances, ⟨fun var isVar => ?_, areTogether⟩⟩
      rw [isDef] at isVar
      cases isVar
  | some var =>
      obtain ⟨found, isNode⟩ := gathers.find (show code.DefinesAt var (.stmt index) from isDef)
      obtain ⟨advances, areTogether⟩ := ofUses found.gathers
      refine ⟨found.trans advances, ⟨fun other isOther => ?_, areTogether⟩⟩
      rw [isDef] at isOther
      cases isOther
      exact advances.has _ isNode

/-- Webs consist of the definitions of a variable. All those that reach a statement reading
the variable are together. -/
theorem gathers_webs (code : Code) : code.Gathers code.webs ∧
    (∀ var ∈ code.entryVars, code.webs.Has (var, .entry)) ∧
      ∀ index ∈ code.positions, code.Joined index code.webs := by
  obtain ⟨onEntry, hasEntry⟩ := gathers_empty.foldl code.entryVars
    (fun webs var => (webs.find (var, .entry)).1) (fun var webs => webs.Has (var, .entry))
    (fun var isEntryVar webs gathers =>
      gathers.find (show code.DefinesAt var .entry from isEntryVar))
    (fun var _ _ advances => advances.has _)
  obtain ⟨after, areJoined⟩ := onEntry.gathers.foldl code.positions
    (code.joinAt code.reachingDefinitions) code.Joined
    (fun index _ webs gathers => gathers.advances_joinAt index) (fun index _ _ advances joined =>
      joined.mono advances)
  exact ⟨after.gathers, fun var isEntryVar => after.has _ (hasEntry var isEntryVar), areJoined⟩

end Joining

/-- The definitions in webs are all definitions of the code. -/
theorem has_webs : code.webs.Has (var, site) ↔ code.DefinesAt var site := by
  obtain ⟨gathers, hasEntry, areJoined⟩ := gathers_webs code
  refine ⟨gathers.defines var site, fun defines => ?_⟩
  cases site with
  | entry => exact hasEntry var defines
  | stmt index =>
      exact (areJoined index (List.mem_range.mpr (lt_size_of_def? defines))).has var defines

/-- Webs are chains of definitions that meet. -/
theorem rootOf_webs_eq_iff : code.webs.rootOf (var, first) = code.webs.rootOf (other, second) ↔
    var = other ∧ code.Linked var first second := by
  obtain ⟨gathers, -, areJoined⟩ := gathers_webs code
  refine ⟨gathers.linked var first other second, ?_⟩
  rintro ⟨rfl, linked⟩
  induction linked with
  | refl => rfl
  | tail _ meet ih =>
      obtain ⟨isFirst, isSecond, index, isRead, arrives, arrivesToo⟩ := meet
      have joined := areJoined index (List.mem_range.mpr (lt_size_of_uses isRead))
      have reachesFirst := (mem_reachingOf isRead).mpr ⟨rfl, isFirst, arrives⟩
      have reachesSecond := (mem_reachingOf isRead).mpr ⟨rfl, isSecond, arrivesToo⟩
      exact ih.trans (joined.together var isRead _ reachesFirst _ reachesSecond)

theorem isForest_webs (code : Code) : code.webs.IsForest := (gathers_webs code).1.isForest

/-- The root of a web is a definition of the web, and no later than the others. -/
theorem exists_root (code : Code) (var : VarId) (site : DefSite) :
    ∃ root, code.webs.rootOf (var, site) = (var, root) ∧ code.Linked var site root ∧
      (root = site ∨ root.Precedes site) := by
  obtain ⟨other, root, isRoot⟩ : ∃ other root, code.webs.rootOf (var, site) = (other, root) :=
    ⟨_, _, rfl⟩
  have sameRoot := code.isForest_webs.rootOf_rootOf (var, site)
  rw [isRoot] at sameRoot
  obtain ⟨rfl, linked⟩ := rootOf_webs_eq_iff.mp (isRoot.trans sameRoot.symm)
  refine ⟨root, isRoot, linked, ?_⟩
  have isEarlier := code.isForest_webs.rootOf_eq_or_lt (var, site)
  rw [isRoot, Definition.compare_eq_lt] at isEarlier
  rcases isEarlier with isSame | isLess | ⟨-, precedes⟩
  · exact .inl (congrArg Prod.snd isSame)
  · exact absurd isLess (Nat.lt_irrefl var)
  · exact .inr precedes

end Code

end TacAnalysis
