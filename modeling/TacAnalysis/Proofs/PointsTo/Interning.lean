/-
# Contexts by their numbers

Contexts are made by adding an element to a context or by shortening one, and are numbered as
they come. Whatever has been made, a number stands for one list of elements for good and no list
has two numbers, so that numbers may be compared in place of lists. What is asked for again is
found again, also when it is asked for in another way: shortening a context to which an element
has been added gives the context that adding the element to the shortened one gives.
-/

import TacAnalysis.Proofs.PointsTo.Shortening

namespace TacAnalysis.PointsTo

/-- What a context is made from another one by. -/
inductive ContextRequest where
  | append (context : ContextId) (element : ContextElement) (limit : Nat)
  | truncate (context : ContextId) (limit : Nat)

namespace Contexts

variable {contexts middle new : Contexts} {context other : ContextId} {limit : Nat}
  {elements : List ContextElement} {element : ContextElement}

/-- Grants a request. -/
def grant (contexts : Contexts) : ContextRequest → ContextId × Contexts
  | .append context element limit => contexts.append context element limit
  | .truncate context limit => contexts.truncate context limit

/-- The contexts after some requests, the first one first. -/
def ofRequests (requests : List ContextRequest) : Contexts :=
  requests.foldl (fun contexts request => (contexts.grant request).2) initial

/-- Contexts that there are stay, with the same numbers and the same elements. -/
def KeptBy (contexts new : Contexts) : Prop :=
  ∀ context < contexts.size, context < new.size ∧ new.get context = contexts.get context

/-- A context is the one of the most recent elements out of some, at most as many as a limit.
If there has been one of just these elements, it is this one and nothing changes; otherwise it
is numbered after the others. -/
structure Makes (contexts : Contexts) (limit : Nat) (elements : List ContextElement)
    (made : ContextId × Contexts) : Prop where
  isLast : made.2.get made.1 <:+ elements
  length : (made.2.get made.1).length = min limit elements.length
  reused : ∀ context < contexts.size,
    contexts.get context = made.2.get made.1 → made = (context, contexts)
  numbered : (∀ context < contexts.size, contexts.get context ≠ made.2.get made.1) →
    made.1 = contexts.size ∧ made.2.size = contexts.size + 1
  kept : contexts.KeptBy made.2

section Keeping

theorem get?_of_lt (isKnown : context < contexts.size) :
    contexts.lists.get? context = some (contexts.get context) := by
  obtain ⟨elements, known⟩ := ArrivalSet.exists_get? isKnown
  rw [get_of_get? known, known]

theorem KeptBy.refl (contexts : Contexts) : contexts.KeptBy contexts := fun _ isKnown =>
  ⟨isKnown, rfl⟩

theorem KeptBy.trans (first : contexts.KeptBy middle) (second : middle.KeptBy new) :
    contexts.KeptBy new := by
  intro context isKnown
  obtain ⟨isKnown, isSame⟩ := first context isKnown
  obtain ⟨isKnown, isSameAgain⟩ := second context isKnown
  exact ⟨isKnown, isSameAgain.trans isSame⟩

theorem keptBy_intern : contexts.KeptBy (contexts.intern elements).2 := by
  intro context isKnown
  have known : (contexts.intern elements).2.lists.get? context = some (contexts.get context) :=
    ArrivalSet.get?_insert (get?_of_lt isKnown)
  exact ⟨ArrivalSet.lt_size known, get_of_get? known⟩

theorem keptBy_append : contexts.KeptBy (contexts.append context element limit).2 := keptBy_intern

theorem keptBy_truncate : contexts.KeptBy (contexts.truncate context limit).2 := by
  rw [truncate]
  split
  case isTrue => exact .refl contexts
  case isFalse => exact keptBy_intern

/-- Granting a request keeps the contexts that there are. -/
theorem keptBy_grant (request : ContextRequest) : contexts.KeptBy (contexts.grant request).2 := by
  cases request with
  | append => exact keptBy_append
  | truncate => exact keptBy_truncate

/-- However many requests are granted, contexts that there are stay. -/
theorem keptBy_foldl_grant (requests : List ContextRequest) : contexts.KeptBy
    (requests.foldl (fun contexts request => (contexts.grant request).2) contexts) := by
  induction requests generalizing contexts with
  | nil => exact .refl contexts
  | cons request requests ih => exact (keptBy_grant request).trans ih

end Keeping

section Making

theorem get_intern : (contexts.intern elements).2.get (contexts.intern elements).1 = elements :=
  get_of_get? get?_intern

/-- A list without a context is given the next number. -/
theorem size_intern (isNew : ∀ context < contexts.size, contexts.get context ≠ elements) :
    (contexts.intern elements).1 = contexts.size ∧
      (contexts.intern elements).2.size = contexts.size + 1 := by
  have notIn : elements ∉ contexts.lists.elements := by
    intro isIn
    obtain ⟨context, known⟩ := List.mem_iff_getElem?.mp isIn
    exact isNew context (ArrivalSet.lt_size known) (get_of_get? known)
  refine ⟨?_, ArrivalSet.size_insert_of_notMem notIn⟩
  show (contexts.lists.number? elements).getD contexts.lists.size = contexts.lists.size
  rw [ArrivalSet.number?_eq_none_iff.mpr notIn, Option.getD_none]

theorem makes_intern :
    contexts.Makes limit elements (contexts.intern (mostRecent limit elements)) where
  isLast := by
    rw [get_intern]
    exact List.drop_suffix _ _
  length := by
    rw [get_intern, mostRecent, List.length_drop]
    omega
  reused context isKnown isSame := by
    rw [get_intern] at isSame
    exact intern_of_get? (isSame ▸ get?_of_lt isKnown)
  numbered isNew := by
    rw [get_intern] at isNew
    exact size_intern isNew
  kept := keptBy_intern

theorem append_eq : contexts.append context element limit =
    contexts.intern (mostRecent limit (contexts.get context ++ [element])) :=
  rfl

theorem truncate_eq (isKnown : context < contexts.size) : contexts.truncate context limit =
    contexts.intern (mostRecent limit (contexts.get context)) :=
  truncate_of_get? (get?_of_lt isKnown)

theorem lt_size_intern : (contexts.intern elements).1 < (contexts.intern elements).2.size :=
  ArrivalSet.lt_size get?_intern

/-- Contexts of the same elements are the same. -/
theorem eq_iff_get_eq (isKnown : context < contexts.size) (isOther : other < contexts.size) :
    context = other ↔ contexts.get context = contexts.get other := by
  refine ⟨congrArg contexts.get, fun sameElements => ?_⟩
  exact ArrivalSet.number_unique (get?_of_lt isKnown) (sameElements ▸ get?_of_lt isOther)

end Making

section Exchanging

/-- Adds an element to a context and shortens what comes of it. -/
def appendThenTruncate (contexts : Contexts) (context : ContextId) (element : ContextElement)
    (limit : Nat) : ContextId × Contexts :=
  let (longer, contexts) := contexts.append context element (limit + 1)
  contexts.truncate longer limit

/-- Shortens a context and adds an element to what comes of it. -/
def truncateThenAppend (contexts : Contexts) (context : ContextId) (element : ContextElement)
    (limit : Nat) : ContextId × Contexts :=
  let (shorter, contexts) := contexts.truncate context limit
  contexts.append shorter element limit

theorem appendThenTruncate_eq : contexts.appendThenTruncate context element limit =
    (contexts.append context element (limit + 1)).2.intern
      (mostRecent limit (contexts.get context ++ [element])) := by
  simp only [appendThenTruncate, append_eq]
  rw [truncate_eq lt_size_intern, get_intern, mostRecent_mostRecent (Nat.le_succ limit)]

theorem truncateThenAppend_eq (isKnown : context < contexts.size) :
    contexts.truncateThenAppend context element limit =
      (contexts.truncate context limit).2.intern
        (mostRecent limit (contexts.get context ++ [element])) := by
  simp only [truncateThenAppend, append_eq, truncate_eq isKnown, get_intern]
  rw [mostRecent_append_mostRecent (Nat.le_succ limit)]

/-- Both ways of making a context give the same elements. -/
theorem get_exchange (isKnown : context < contexts.size) :
    let first := contexts.appendThenTruncate context element limit
    let second := contexts.truncateThenAppend context element limit
    first.2.get first.1 = second.2.get second.1 := by
  simp only [appendThenTruncate_eq, truncateThenAppend_eq isKnown, get_intern]

/-- What has been made in one way is found when it is made in the other way. -/
theorem exchange_again (isKnown : context < contexts.size) :
    let first := contexts.appendThenTruncate context element limit
    (first.2.truncateThenAppend context element limit).1 = first.1 := by
  intro first
  have isFirst : first = _ := appendThenTruncate_eq
  have isMade : first.1 < first.2.size ∧
      first.2.get first.1 = mostRecent limit (contexts.get context ++ [element]) := by
    rw [isFirst]
    exact ⟨lt_size_intern, get_intern⟩
  have kept : contexts.KeptBy first.2 := keptBy_append.trans keptBy_truncate
  obtain ⟨stillKnown, sameElements⟩ := kept context isKnown
  obtain ⟨stillMade, sameMade⟩ :
      _ ∧ (first.2.truncate context limit).2.get first.1 = _ := keptBy_truncate first.1 isMade.1
  have known := get?_of_lt stillMade
  rw [sameMade, isMade.2] at known
  rw [truncateThenAppend_eq stillKnown, sameElements, intern_of_get? known]

end Exchanging

/-- Numbers stand for the lists of elements of contexts: the empty context comes first, contexts
are the same if their elements are, and those that are asked for have the most recent elements,
whichever way they are made. -/
structure Faithful (contexts : Contexts) : Prop where
  empty : emptyContext < contexts.size ∧ contexts.get emptyContext = []
  eq_iff : ∀ first < contexts.size, ∀ second < contexts.size,
    first = second ↔ contexts.get first = contexts.get second
  append : ∀ context < contexts.size, ∀ element limit,
    contexts.Makes limit (contexts.get context ++ [element])
      (contexts.append context element limit)
  truncate : ∀ context < contexts.size, ∀ limit,
    contexts.Makes limit (contexts.get context) (contexts.truncate context limit)
  exchange : ∀ context < contexts.size, ∀ element limit,
    let first := contexts.appendThenTruncate context element limit
    let second := contexts.truncateThenAppend context element limit
    let again := first.2.truncateThenAppend context element limit
    first.2.get first.1 = second.2.get second.1 ∧ again.1 = first.1

/-- Whatever contexts have been asked for, numbers stand for lists of elements, and they stand
for the same ones when more contexts have been asked for. -/
theorem faithful_ofRequests (requests later : List ContextRequest) :
    (ofRequests requests).Faithful ∧
      (ofRequests requests).KeptBy (ofRequests (requests ++ later)) := by
  constructor
  · exact {
      empty := keptBy_foldl_grant requests emptyContext Nat.zero_lt_one
      eq_iff := fun _ isKnown _ isOther => eq_iff_get_eq isKnown isOther
      append := fun _ _ _ _ => makes_intern
      truncate := fun _ isKnown _ => truncate_eq isKnown ▸ makes_intern
      exchange := fun _ isKnown _ _ => ⟨get_exchange isKnown, exchange_again isKnown⟩ }
  · rw [ofRequests, ofRequests, List.foldl_append]
    exact keptBy_foldl_grant later

/-- The last two requests ask for the same context. -/
example : (ofRequests [.append 0 (.receiver 1) 2, .append 1 (.receiver 2) 2,
    .append 2 (.receiver 3) 2, .truncate 2 1, .append 0 (.receiver 2) 1]).lists.elements =
      [[], [.receiver 1], [.receiver 1, .receiver 2], [.receiver 2, .receiver 3],
        [.receiver 2]] := by
  decide

end Contexts

end TacAnalysis.PointsTo
