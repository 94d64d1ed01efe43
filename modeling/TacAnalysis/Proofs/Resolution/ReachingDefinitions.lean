/-
# Which definitions reach a statement

Statements are looked at from a queue, and what reaches the end of one is sent to the
statements after it. Only what control leads from is ever sent, and a statement that is not
queued has sent all that it has. A statement is queued again only along with a definition
that is new somewhere, and there are finitely many: the queue becomes empty, and then every
statement has the definitions that control leads to it from, and no others. It does not
matter whether these definitions can be reached themselves, since all statements are queued
at first.
-/

import Mathlib.Algebra.Order.BigOperators.Group.Finset
import TacAnalysis.Program.ReachingDefinitions

namespace TacAnalysis

variable {index next target : Nat} {definition : VarId × DefSite}
  {definitions : List (VarId × DefSite)}

namespace Propagation

variable {state old middle new : Propagation} {targets : List Nat}

section Sending

theorem mem_send : definition ∈ ((state.send definitions target).reaching.get index).elements ↔
    definition ∈ (state.reaching.get index).elements ∨
      index = target ∧ definition ∈ definitions := by
  simp only [send, Table.get_set]
  by_cases isTarget : index = target
  · subst isTarget
    simp only [beq_self_eq_true, if_true, ArrivalSet.mem_foldl_insert, true_and]
  · simp only [beq_false_of_ne isTarget, Bool.false_eq_true, if_false, isTarget, false_and, or_false]

theorem mem_foldl_send :
    definition ∈ ((targets.foldl (send definitions) state).reaching.get index).elements ↔
      definition ∈ (state.reaching.get index).elements ∨
        index ∈ targets ∧ definition ∈ definitions := by
  induction targets generalizing state with
  | nil => simp
  | cons first targets ih =>
      rw [List.foldl_cons, ih, mem_send, List.mem_cons, or_assoc, ← or_and_right]

theorem size_le_send (state : Propagation) (definitions : List (VarId × DefSite))
    (target index : Nat) :
    (state.reaching.get index).size ≤
      ((state.send definitions target).reaching.get index).size := by
  simp only [send, Table.get_set]
  split
  case isTrue isTarget =>
      rw [eq_of_beq isTarget]
      exact ArrivalSet.prefix_foldl_insert.length_le
  case isFalse => exact Nat.le_refl _

/-- Sending definitions to a statement queues it if some of them are new there, unless it is
queued already. -/
theorem queue_send (state : Propagation) (definitions : List (VarId × DefSite)) (target : Nat) :
    (state.send definitions target).queue = state.queue ∧ (target ∈ state.queue ∨
        ∀ definition ∈ definitions, definition ∈ (state.reaching.get target).elements) ∨
      (state.send definitions target).queue = state.queue ++ [target] ∧
        (state.reaching.get target).size <
          ((state.send definitions target).reaching.get target).size := by
  have isLarger := state.size_le_send definitions target target
  simp only [send, Table.get_set, beq_self_eq_true, if_true] at isLarger ⊢
  split
  case isTrue isKept =>
      refine .inl ⟨rfl, ?_⟩
      rcases Bool.or_eq_true_iff.mp isKept with sameSize | isQueued
      · exact .inr fun _ => ArrivalSet.mem_of_size_foldl_insert (of_decide_eq_true sameSize)
      · exact .inl (List.contains_iff_mem.mp isQueued)
  case isFalse isNew =>
      refine .inr ⟨rfl, Nat.lt_of_le_of_ne isLarger fun sameSize => isNew ?_⟩
      rw [decide_eq_true sameSize.symm, Bool.true_or]

end Sending

/-- Nothing is forgotten, and statements that get something new are queued. -/
structure Grows (old new : Propagation) : Prop where
  kept {index : Nat} {definition : VarId × DefSite} :
    definition ∈ (old.reaching.get index).elements → definition ∈ (new.reaching.get index).elements
  queued {index : Nat} : index ∈ old.queue → index ∈ new.queue
  known {index : Nat} {definition : VarId × DefSite} : index ∉ new.queue →
    definition ∈ (new.reaching.get index).elements → definition ∈ (old.reaching.get index).elements

theorem Grows.refl (state : Propagation) : state.Grows state := ⟨id, id, fun _ => id⟩

theorem Grows.trans (first : old.Grows middle) (second : middle.Grows new) : old.Grows new where
  kept isIn := second.kept (first.kept isIn)
  queued isQueued := second.queued (first.queued isQueued)
  known notQueued isIn := first.known (mt second.queued notQueued) (second.known notQueued isIn)

theorem grows_send : state.Grows (state.send definitions target) where
  kept isIn := mem_send.mpr (.inl isIn)
  queued isQueued := by
    rcases queue_send state definitions target with ⟨sameQueue, -⟩ | ⟨isQueue, -⟩
    · rwa [sameQueue]
    · rw [isQueue]
      exact List.mem_append_left _ isQueued
  known notQueued isIn := by
    rcases mem_send.mp isIn with isOld | ⟨rfl, isSent⟩
    · exact isOld
    · rcases queue_send state definitions _ with ⟨sameQueue, isQueued | areKnown⟩ | ⟨isQueue, -⟩
      · rw [sameQueue] at notQueued
        exact absurd isQueued notQueued
      · exact areKnown _ isSent
      · rw [isQueue] at notQueued
        exact absurd (List.mem_append_right _ List.mem_cons_self) notQueued

theorem grows_foldl_send : state.Grows (targets.foldl (send definitions) state) := by
  induction targets generalizing state with
  | nil => exact .refl state
  | cons first targets ih => exact grows_send.trans ih

end Propagation

namespace Code

variable {code : Code} {state last : Propagation} {var : VarId} {site : DefSite}
  {queue : List Nat}

/-- A variable gets a value at a site: on entry, if it is the receiver or a parameter, or at a
statement that defines it. -/
def DefinesAt (code : Code) (var : VarId) : DefSite → Prop
  | .entry => var ∈ code.entryVars
  | .stmt index => (code.stmt index).def? = some var

/-- Control leads from a site defining a variable to a statement, and no statement strictly
between the two defines the variable. -/
inductive Arrives (code : Code) (var : VarId) : DefSite → Nat → Prop where
  | entry : Arrives code var .entry 0
  | stmt {index next : Nat} : next ∈ code.successors index → Arrives code var (.stmt index) next
  | step {site : DefSite} {index next : Nat} : Arrives code var site index →
      (code.stmt index).def? ≠ some var → next ∈ code.successors index →
      Arrives code var site next

/-- Past the end of the code there are no statements. -/
theorem stmt_eq_nop (pastEnd : code.body.size ≤ index) : code.stmt index = .nop := by
  simp [stmt, Array.getD, Nat.not_lt.mpr pastEnd]

theorem lt_size_of_def? (isDef : (code.stmt index).def? = some var) : index < code.body.size := by
  apply Nat.lt_of_not_le
  intro pastEnd
  rw [stmt_eq_nop pastEnd] at isDef
  cases isDef

theorem lt_size_of_successor (isNext : next ∈ code.successors index) :
    index < code.body.size := by
  apply Nat.lt_of_not_le
  intro pastEnd
  rw [successors, stmt_eq_nop pastEnd] at isNext
  simp only [Stmt.successors, Stmt.jumps, Stmt.fallsThrough, List.nil_append, Bool.true_and,
    decide_eq_true_eq] at isNext
  split at isNext
  case isTrue => omega
  case isFalse => cases isNext

section Steps

theorem mem_definitionsAfter {before : DefSet} :
    (var, site) ∈ code.definitionsAfter index before ↔
      (var, site) ∈ before.elements ∧ (code.stmt index).def? ≠ some var ∨
        (code.stmt index).def? = some var ∧ site = .stmt index := by
  unfold definitionsAfter
  cases isDef : (code.stmt index).def? with
  | none => simp
  | some defined =>
      have sameTest : defined ≠ var ↔ var ≠ defined := ne_comm
      simp only [List.mem_append, List.mem_filter, bne_iff_ne, List.mem_singleton, Prod.mk.injEq,
        Option.some_inj, ne_eq, eq_comm (a := defined)]

theorem mem_propagate : definition ∈ ((code.propagate state index).reaching.get target).elements ↔
    definition ∈ (state.reaching.get target).elements ∨
      (target ∈ code.successors index ∧ target < code.body.size) ∧
        definition ∈ code.definitionsAfter index (state.reaching.get index) := by
  rw [propagate, Propagation.mem_foldl_send, List.mem_filter, decide_eq_true_eq]

theorem grows_propagate : state.Grows (code.propagate state index) :=
  Propagation.grows_foldl_send

/-- Everything known to reach a statement does so. -/
def Sound (code : Code) (state : Propagation) : Prop :=
  ∀ index var site, (var, site) ∈ (state.reaching.get index).elements →
    code.DefinesAt var site ∧ code.Arrives var site index

/-- A statement that is not queued has sent what reaches its end to the statements after it. -/
def Settled (code : Code) (state : Propagation) : Prop :=
  ∀ index next, index < code.body.size → index ∉ state.queue → next ∈ code.successors index →
    next < code.body.size →
      ∀ definition ∈ code.definitionsAfter index (state.reaching.get index),
        definition ∈ (state.reaching.get next).elements

theorem mem_startPropagation :
    (var, site) ∈ (code.startPropagation.reaching.get index).elements ↔
      index = 0 ∧ var ∈ code.entryVars ∧ site = .entry := by
  rw [startPropagation, Table.get_set]
  by_cases isFirst : index = 0
  · rw [isFirst, beq_self_eq_true, if_pos rfl, ArrivalSet.mem_foldl_insert, List.mem_map]
    constructor
    · rintro (isIn | ⟨other, isEntryVar, isSame⟩)
      · cases isIn
      · cases isSame
        exact ⟨rfl, isEntryVar, rfl⟩
    · rintro ⟨-, isEntryVar, rfl⟩
      exact .inr ⟨var, isEntryVar, rfl⟩
  · rw [beq_false_of_ne isFirst, if_neg Bool.false_ne_true]
    constructor
    · exact nofun
    · rintro ⟨isFirst', -⟩
      contradiction

theorem sound_startPropagation : code.Sound code.startPropagation := by
  intro index var site isIn
  obtain ⟨rfl, isEntryVar, rfl⟩ := mem_startPropagation.mp isIn
  exact ⟨isEntryVar, .entry⟩

theorem settled_startPropagation : code.Settled code.startPropagation :=
  fun _ _ inBody notQueued _ _ _ _ => absurd (List.mem_range.mpr inBody) notQueued

/-- Looking at a statement finds only what reaches the statements after it. -/
theorem Sound.propagate (sound : code.Sound state) : code.Sound (code.propagate state index) := by
  intro target var site isIn
  rcases mem_propagate.mp isIn with isOld | ⟨⟨isNext, -⟩, isAfter⟩
  · exact sound target var site isOld
  · rcases mem_definitionsAfter.mp isAfter with ⟨isBefore, isOther⟩ | ⟨isDef, rfl⟩
    · obtain ⟨defines, arrives⟩ := sound index var site isBefore
      exact ⟨defines, .step arrives isOther isNext⟩
    · exact ⟨isDef, .stmt isNext⟩

/-- A statement that has been looked at has sent what it had. If it has sent something new to
itself, it is queued again. -/
theorem Settled.propagate (settled : code.Settled state) (isQueue : state.queue = index :: queue) :
    code.Settled (code.propagate { state with queue } index) := by
  have grows : Propagation.Grows { state with queue } (code.propagate { state with queue } index) :=
    grows_propagate
  intro other next inBody notQueued isNext nextInBody definition isAfter
  have isAfterOld : definition ∈ code.definitionsAfter other (state.reaching.get other) := by
    obtain ⟨var, site⟩ := definition
    rw [mem_definitionsAfter] at isAfter ⊢
    exact isAfter.imp_left fun ⟨isIn, isOther⟩ => ⟨grows.known notQueued isIn, isOther⟩
  by_cases isVisited : other = index
  · subst isVisited
    exact mem_propagate.mpr (.inr ⟨⟨isNext, nextInBody⟩, isAfterOld⟩)
  · have wasNotQueued : other ∉ state.queue := by
      rw [isQueue, List.mem_cons, not_or]
      exact ⟨isVisited, mt grows.queued notQueued⟩
    exact grows.kept (settled other next inBody wasNotQueued isNext nextInBody _ isAfterOld)

end Steps

/-- Queued statements are looked at in order, until none is left. -/
inductive Visits (code : Code) : Propagation → Propagation → Prop where
  | done {state : Propagation} : state.queue = [] → Visits code state state
  | visit {state last : Propagation} {index : Nat} {queue : List Nat} :
      state.queue = index :: queue →
      Visits code (code.propagate { state with queue } index) last → Visits code state last

section Ending

/-- The number of definitions known to reach some statement, over all statements. -/
def arrived (code : Code) (state : Propagation) : Nat :=
  ∑ index ∈ Finset.range code.body.size, (state.reaching.get index).size

/-- No more definitions are known to reach a statement than there are entry variables and
statements. -/
theorem Sound.size_le (sound : code.Sound state) (index : Nat) :
    (state.reaching.get index).size ≤ code.entryVars.length + code.body.size := by
  let all : List (VarId × DefSite) := code.entryVars.map (·, .entry) ++
    code.positions.map fun index => ((code.stmt index).def?.getD 0, .stmt index)
  have areAll : (state.reaching.get index).elements ⊆ all := by
    rintro ⟨var, site⟩ isIn
    have defines := (sound index var site isIn).1
    cases site with
    | entry => exact List.mem_append_left _ (List.mem_map_of_mem defines)
    | stmt source =>
        refine List.mem_append_right _ (List.mem_map.mpr ⟨source, ?_, ?_⟩)
        · exact List.mem_range.mpr (lt_size_of_def? defines)
        · rw [show (code.stmt source).def? = some var from defines, Option.getD_some]
  have isBound := ((state.reaching.get index).distinct.subperm areAll).length_le
  simpa [ArrivalSet.size, all, positions] using isBound

theorem Sound.arrived_le (sound : code.Sound state) :
    code.arrived state ≤ code.body.size * (code.entryVars.length + code.body.size) := by
  calc code.arrived state
    _ ≤ ∑ _ ∈ Finset.range code.body.size, (code.entryVars.length + code.body.size) :=
      Finset.sum_le_sum fun index _ => sound.size_le index
    _ = code.body.size * (code.entryVars.length + code.body.size) := by
      rw [Finset.sum_const_nat fun _ _ => rfl, Finset.card_range]

/-- Whenever a statement is queued again, some definition has been added. -/
theorem queue_send_le (inBody : target < code.body.size) :
    (state.send definitions target).queue.length + code.arrived state ≤
      state.queue.length + code.arrived (state.send definitions target) := by
  have grown (index : Nat) := state.size_le_send definitions target index
  rcases state.queue_send definitions target with ⟨sameQueue, -⟩ | ⟨isQueue, isLarger⟩
  · rw [sameQueue]
    exact Nat.add_le_add_left (Finset.sum_le_sum fun index _ => grown index) _
  · have isMore : code.arrived state < code.arrived (state.send definitions target) :=
      Finset.sum_lt_sum (fun index _ => grown index)
        ⟨target, Finset.mem_range.mpr inBody, isLarger⟩
    rw [isQueue, List.length_append, List.length_singleton]
    omega

theorem queue_propagate_le :
    (code.propagate state index).queue.length + code.arrived state ≤
      state.queue.length + code.arrived (code.propagate state index) := by
  have areInBody : ∀ target ∈ (code.successors index).filter (· < code.body.size),
      target < code.body.size := fun target isTarget =>
    of_decide_eq_true (List.mem_filter.mp isTarget).2
  unfold propagate
  generalize code.definitionsAfter index (state.reaching.get index) = definitions
  generalize (code.successors index).filter (· < code.body.size) = targets at areInBody
  induction targets generalizing state with
  | nil => exact Nat.le_refl _
  | cons target targets ih =>
      obtain ⟨inBody, areInBody⟩ := List.forall_mem_cons.mp areInBody
      have isFirst : (state.send definitions target).queue.length + code.arrived state ≤ _ :=
        queue_send_le inBody
      have areOthers : _ + code.arrived (state.send definitions target) ≤ _ := ih areInBody
      rw [List.foldl_cons]
      omega

/-- The queue becomes empty within as many steps as it has statements and definitions may still
be added. -/
theorem visits_propagateAll {steps : Nat} (sound : code.Sound state)
    (areEnough : state.queue.length + code.body.size * (code.entryVars.length + code.body.size) ≤
      steps + code.arrived state) : code.Visits state (code.propagateAll steps state) := by
  have isBound := sound.arrived_le
  induction steps generalizing state with
  | zero => exact .done (List.length_eq_zero_iff.mp (by omega))
  | succ steps ih =>
      rw [propagateAll]
      split
      case h_1 isEmpty => exact .done isEmpty
      case h_2 index queue isQueue =>
          have soundNext : code.Sound (code.propagate { state with queue } index) :=
            Sound.propagate sound
          have isLess : (code.propagate { state with queue } index).queue.length +
              code.arrived state ≤ queue.length + code.arrived _ := queue_propagate_le
          rw [isQueue, List.length_cons] at areEnough
          exact .visit isQueue (ih soundNext (by omega) soundNext.arrived_le)

/-- The search for reaching definitions ends with nothing left to look at. -/
theorem exists_visits : ∃ last, code.Visits code.startPropagation last ∧
    code.reachingDefinitions = last.reaching := by
  refine ⟨_, visits_propagateAll sound_startPropagation ?_, rfl⟩
  have areAll : code.startPropagation.queue.length = code.body.size := List.length_range
  rw [areAll, propagationBound, Nat.mul_succ]
  omega

end Ending

section Reaching

theorem Visits.queue_eq_nil (visits : code.Visits state last) : last.queue = [] := by
  induction visits with
  | done isEmpty => exact isEmpty
  | visit _ _ ih => exact ih

/-- What looking at the first queued statement keeps holds when none is left. -/
theorem Visits.keeps (holds : Propagation → Prop) (visits : code.Visits state last)
    (keeps : ∀ {state : Propagation} {index : Nat} {queue : List Nat}, state.queue = index :: queue →
      holds state → holds (code.propagate { state with queue } index))
    (first : holds state) : holds last := by
  induction visits with
  | done => exact first
  | visit isQueue _ ih => exact ih (keeps isQueue first)

theorem Visits.sound (visits : code.Visits state last) (sound : code.Sound state) :
    code.Sound last :=
  visits.keeps code.Sound (fun _ sound => Sound.propagate sound) sound

theorem Visits.settled (visits : code.Visits state last) (settled : code.Settled state) :
    code.Settled last :=
  visits.keeps code.Settled (fun isQueue settled => settled.propagate isQueue) settled

theorem Visits.kept (visits : code.Visits state last)
    (isIn : definition ∈ (state.reaching.get index).elements) :
    definition ∈ (last.reaching.get index).elements :=
  visits.keeps (fun state => definition ∈ (state.reaching.get index).elements)
    (fun _ isIn => grows_propagate.kept isIn) isIn

/-- Once nothing is queued, statements have what control leads to them from. -/
theorem Settled.mem_of_arrives (settled : code.Settled last) (isEmpty : last.queue = [])
    (hasEntry : ∀ var ∈ code.entryVars, (var, .entry) ∈ (last.reaching.get 0).elements)
    (defines : code.DefinesAt var site) (arrives : code.Arrives var site index)
    (inBody : index < code.body.size) : (var, site) ∈ (last.reaching.get index).elements := by
  have notQueued (index : Nat) : index ∉ last.queue := isEmpty ▸ List.not_mem_nil
  induction arrives with
  | entry => exact hasEntry var defines
  | @stmt source next isNext =>
      have sourceInBody := lt_size_of_successor isNext
      exact settled source next sourceInBody (notQueued source) isNext inBody _
        (mem_definitionsAfter.mpr (.inr ⟨defines, rfl⟩))
  | @step site source next _ isOther isNext ih =>
      have sourceInBody := lt_size_of_successor isNext
      exact settled source next sourceInBody (notQueued source) isNext inBody _
        (mem_definitionsAfter.mpr (.inl ⟨ih defines sourceInBody, isOther⟩))

/-- The definitions found for a statement are those that control leads to it from. -/
theorem mem_reachingDefinitions (inBody : index < code.body.size) :
    (var, site) ∈ (code.reachingDefinitions.get index).elements ↔
      code.DefinesAt var site ∧ code.Arrives var site index := by
  obtain ⟨last, visits, isLast⟩ := code.exists_visits
  rw [isLast]
  constructor
  · exact visits.sound sound_startPropagation index var site
  · rintro ⟨defines, arrives⟩
    refine (visits.settled settled_startPropagation).mem_of_arrives visits.queue_eq_nil
      (fun var isEntryVar => ?_) defines arrives inBody
    exact visits.kept (mem_startPropagation.mpr ⟨rfl, isEntryVar, rfl⟩)

end Reaching

section Paths

/-- Control leads from the first statement to a statement along others, the last one
first. -/
inductive Path (code : Code) : List Nat → Nat → Prop where
  | start : Path code [] 0
  | step {past : List Nat} {index next : Nat} : Path code past index →
      next ∈ code.successors index → Path code (index :: past) next

/-- The last definition of a variable along a path arrives at the end of the path. -/
theorem arrives_of_path {later earlier : List Nat} {last : Nat}
    (isPath : code.Path (later ++ last :: earlier) index)
    (areOthers : ∀ other ∈ later, (code.stmt other).def? ≠ some var) :
    code.Arrives var (.stmt last) index := by
  induction later generalizing index with
  | nil =>
      cases isPath with
      | step _ isNext => exact .stmt isNext
  | cons source later ih =>
      rw [List.forall_mem_cons] at areOthers
      cases isPath with
      | step isPath isNext => exact .step (ih isPath areOthers.2) areOthers.1 isNext

/-- What a variable holds on entry arrives at the end of a path along which the variable is
not defined. -/
theorem arrives_entry {past : List Nat} (isPath : code.Path past index)
    (areOthers : ∀ other ∈ past, (code.stmt other).def? ≠ some var) :
    code.Arrives var .entry index := by
  induction isPath with
  | start => exact .entry
  | step _ isNext ih =>
      rw [List.forall_mem_cons] at areOthers
      exact .step (ih areOthers.2) areOthers.1 isNext

end Paths

end Code

end TacAnalysis
