/-
# Interprocedural steps

The graph of the methods reachable in a call graph has each of their nodes once, and each
interprocedural step as often as there is an arc for it: the arcs out of a node that is no
linked call stay as they are, those out of a linked call go around it, each method that it is
linked to is entered once, and is left once for each arc that goes around. Nothing else is in
the graph. A run that enters what its calls are linked to, and goes on after the call that
waits for it when it is at an exit, therefore follows the graph.
-/

import TacAnalysis.Proofs.ControlFlow.Successors
import TacAnalysis.Proofs.Interprocedural.Graph

namespace TacAnalysis

/-- Whether a step stays inside a method and goes along one of its own arcs. -/
def Transfer.isWithin : Transfer → Bool
  | within _ => true
  | bypass _ | enter _ _ | leave _ _ => false

namespace InterFlow

/-- The node that a step is made for: its source, or the call that it belongs to. -/
def origin (step : Arc MethodNode Transfer) : MethodNode :=
  match step.label with
  | .within _ => step.source
  | .bypass site | .enter site _ | .leave site _ => ⟨site.method, .stmt site.index⟩

/-- A call may run a reachable method that has a body. -/
structure MayRun (program : Program) (calls : CallGraph Site MethodId) (site : Site)
    (callee : MethodId) : Prop where
  isCallee : ∃ edge ∈ calls.edges, edge.site = site ∧ edge.callee = callee
  isReachable : callee ∈ calls.reachable
  hasBody : (program.methodDef callee).hasBody = true

/-- Where control is, and the calls that wait for it, the last one first. -/
structure Control where
  place : MethodNode
  waiting : List Site

/-- A step of a run. Control goes along an arc of a method, out of a node that is no call of
a method or around a call, or it enters a method that a call may run, or goes on after the
last call that waits for it. -/
inductive Move (program : Program) (calls : CallGraph Site MethodId) :
    Control → Transfer → Control → Prop where
  | within {method : MethodId} {arc : Arc FlowNode Branch} {waiting : List Site} :
      arc ∈ (program.methodDef method).flow.graph.arcs →
      (∀ index callee, arc.source = .stmt index → ¬ MayRun program calls ⟨method, index⟩ callee) →
      Move program calls ⟨⟨method, arc.source⟩, waiting⟩ (.within arc.label)
        ⟨⟨method, arc.target⟩, waiting⟩
  | around {site : Site} {callee : MethodId} {arc : Arc FlowNode Branch} {waiting : List Site} :
      arc ∈ (program.methodDef site.method).flow.graph.arcs → arc.source = .stmt site.index →
      MayRun program calls site callee →
      Move program calls ⟨⟨site.method, .stmt site.index⟩, waiting⟩ (.bypass site)
        ⟨⟨site.method, arc.target⟩, waiting⟩
  | call {site : Site} {callee : MethodId} {waiting : List Site} :
      MayRun program calls site callee →
      Move program calls ⟨⟨site.method, .stmt site.index⟩, waiting⟩ (.enter site callee)
        ⟨⟨callee, .entry⟩, site :: waiting⟩
  | ret {site : Site} {method : MethodId} {arc : Arc FlowNode Branch} {waiting : List Site} :
      arc ∈ (program.methodDef site.method).flow.graph.arcs → arc.source = .stmt site.index →
      Move program calls ⟨⟨method, .exit⟩, site :: waiting⟩ (.leave site method)
        ⟨⟨site.method, arc.target⟩, waiting⟩

/-- The steps of a run, the last one first, and where they lead. It starts at a node of a
reachable method that has a body, where nothing waits. -/
inductive Run (program : Program) (calls : CallGraph Site MethodId) :
    List (Arc MethodNode Transfer) → Control → Prop where
  | start {place : MethodNode} : place.method ∈ calls.reachable →
      (program.methodDef place.method).hasBody = true →
      place.node ∈ (program.methodDef place.method).flow.graph.nodes →
      Run program calls [] ⟨place, []⟩
  | step {steps : List (Arc MethodNode Transfer)} {control next : Control} {label : Transfer} :
      Run program calls steps control → Move program calls control label next →
      Run program calls (⟨control.place, label, next.place⟩ :: steps) next

/-- A graph has exactly the steps between the nodes of the methods of a call graph. -/
structure IsExactFor (flow : InterFlow) (program : Program) (calls : CallGraph Site MethodId) :
    Prop where
  /-- The nodes are those of the reachable methods that have a body, once each. -/
  nodes : ∀ place, place ∈ flow.graph.nodes ↔ place.method ∈ calls.reachable ∧
    (program.methodDef place.method).hasBody = true ∧
      place.node ∈ (program.methodDef place.method).flow.graph.nodes
  nodesOnce : flow.graph.nodes.Nodup
  /-- A call in one of these methods is linked to those of them that it may run. -/
  callees : ∀ site callee, callee ∈ flow.calleesOf site ↔ site.method ∈ calls.reachable ∧
    (program.methodDef site.method).hasBody = true ∧ site ∈ program.sitesOf site.method ∧
      MayRun program calls site callee
  sites : ∀ place site, flow.siteAt? place = some site ↔
    place = ⟨site.method, .stmt site.index⟩ ∧ flow.calleesOf site ≠ []
  /-- The arcs out of a node that is no linked call stay as they are. -/
  within : ∀ place ∈ flow.graph.nodes, flow.siteAt? place = none →
    (flow.graph.arcs.filter fun step => step.source = place && step.label.isWithin) =
      ((program.methodDef place.method).flow.graph.outgoing place.node).map fun arc =>
        ⟨place, .within arc.label, ⟨place.method, arc.target⟩⟩
  /-- Those out of a linked call go around it. -/
  bypass : ∀ site, flow.calleesOf site ≠ [] →
    (flow.graph.arcs.filter fun step => step.label = .bypass site) =
      ((program.methodDef site.method).flow.graph.outgoing (.stmt site.index)).map fun arc =>
        ⟨⟨site.method, .stmt site.index⟩, .bypass site, ⟨site.method, arc.target⟩⟩
  /-- A method that a call is linked to is entered once, and left wherever an arc goes around
  the call. -/
  enter : ∀ site, ∀ callee ∈ flow.calleesOf site,
    (flow.graph.arcs.filter fun step => step.label = .enter site callee) =
      [⟨⟨site.method, .stmt site.index⟩, .enter site callee, ⟨callee, .entry⟩⟩]
  leave : ∀ site, ∀ callee ∈ flow.calleesOf site,
    (flow.graph.arcs.filter fun step => step.label = .leave site callee) =
      (flow.graph.arcs.filter fun step => step.label = .bypass site).map fun step =>
        ⟨⟨callee, .exit⟩, .leave site callee, step.target⟩
  /-- There are no other steps, and they lead from node to node. -/
  only : ∀ step ∈ flow.graph.arcs, flow.IsStep step
  ends : ∀ step ∈ flow.graph.arcs,
    step.source ∈ flow.graph.nodes ∧ step.target ∈ flow.graph.nodes
  /-- The steps of the runs are among them. -/
  runs : ∀ steps control, Run program calls steps control → steps ⊆ flow.graph.arcs

variable {program : Program} {calls : CallGraph Site MethodId} {site : Site} {callee : MethodId}
  {place : MethodNode} {step : Arc MethodNode Transfer}

section Distinct

/-- The methods of the graph are in ascending order. -/
theorem methods_eq : (ofCallGraph program calls).methods =
    calls.reachableMethods.filter fun id => (program.methodDef id).hasBody := by
  show (calls.reachableMethods.filterMap _).map Prod.fst = _
  induction calls.reachableMethods with
  | nil => rfl
  | cons id ids ih =>
      cases hasBody : (program.methodDef id).hasBody with
      | true => simpa [ControlFlow.ofMethod, hasBody] using ih
      | false => simpa [ControlFlow.ofMethod, hasBody] using ih

theorem nodup_methods : (ofCallGraph program calls).methods.Nodup := by
  rw [methods_eq]
  exact (nodup_ascending _).filter _

theorem nodup_nodes : (ofCallGraph program calls).graph.nodes.Nodup := by
  refine List.nodup_flatMap.mpr ⟨?_, (List.pairwise_map.mp nodup_methods).imp ?_⟩
  · rintro ⟨id, inner⟩ isFlow
    obtain ⟨-, -, rfl⟩ := mem_flowsOf.mp isFlow
    exact (nodup_flowNodes _).map fun _ _ isSame => (MethodNode.mk.inj isSame).2
  · intro first second differ place isFirst isSecond
    obtain ⟨node, -, rfl⟩ := List.mem_map.mp isFirst
    obtain ⟨other, -, isSame⟩ := List.mem_map.mp isSecond
    exact differ (MethodNode.mk.inj isSame).1.symm

theorem nodup_calleesOf : ((ofCallGraph program calls).calleesOf site).Nodup := by
  cases isFound : (ofCallGraph program calls).links.lookup site with
  | none => simp [calleesOf, isFound]
  | some callees =>
      rw [calleesOf, isFound, Option.getD_some, (mem_linksOf.mp (lookup_links.mp isFound)).2.2.2]
      exact (nodup_ascending _).filter _

end Distinct

section Counting

/-- The steps that are made for a node. -/
def stepsFrom (flow : InterFlow) (place : MethodNode) : List (Arc MethodNode Transfer) :=
  ((flow.program.methodDef place.method).flow.graph.outgoing place.node).flatMap
      (stepsAlong flow.links place.method) ++
    stepsInto flow.links place.method place.node

theorem arcs_eq : (ofCallGraph program calls).graph.arcs =
    (ofCallGraph program calls).graph.nodes.flatMap (ofCallGraph program calls).stepsFrom := by
  show (flowsOf program calls).flatMap _ = ((flowsOf program calls).flatMap _).flatMap _
  rw [List.flatMap_assoc]
  refine List.flatMap_congr fun flow isFlow => ?_
  obtain ⟨id, inner⟩ := flow
  obtain ⟨-, -, rfl⟩ := mem_flowsOf.mp isFlow
  rw [List.flatMap_map]
  rfl

theorem origin_of_mem_stepsFrom (isStep : step ∈ (ofCallGraph program calls).stepsFrom place) :
    origin step = place := by
  rcases List.mem_append.mp isStep with isAlong | isInto
  · obtain ⟨arc, isArc, isAlong⟩ := List.mem_flatMap.mp isAlong
    have isSource : arc.source = place.node := ((Digraph.mem_outgoing _).mp isArc).2
    rcases mem_stepsAlong.mp isAlong with ⟨-, rfl⟩ | ⟨site, isSite, isAround⟩
    · rw [origin, isSource]
    · rw [isSource] at isSite
      rcases isAround with rfl | ⟨callee, -, rfl⟩
      · exact (siteAt?_eq_some_iff.mp isSite).1.symm
      · exact (siteAt?_eq_some_iff.mp isSite).1.symm
  · obtain ⟨site, isSite, callee, -, rfl⟩ := mem_stepsInto.mp isInto
    exact (siteAt?_eq_some_iff.mp isSite).1.symm

/-- The steps of the graph that are made for a node are among those. -/
theorem filter_arcs {isWanted : Arc MethodNode Transfer → Bool}
    (isNode : place ∈ (ofCallGraph program calls).graph.nodes)
    (areOwn : ∀ step, isWanted step = true → origin step = place) :
    (ofCallGraph program calls).graph.arcs.filter isWanted =
      ((ofCallGraph program calls).stepsFrom place).filter isWanted := by
  have isFound := filter_flatMap_of_key id (ofCallGraph program calls).stepsFrom origin
    (by rw [List.map_id]; exact nodup_nodes) (fun _ _ _ => origin_of_mem_stepsFrom) isNode
  rw [← isFound, ← arcs_eq, List.filter_filter]
  refine List.filter_congr fun step _ => ?_
  rw [Bool.eq_iff_iff, Bool.and_eq_true]
  exact ⟨fun wanted => ⟨wanted, decide_eq_true (areOwn step wanted)⟩, And.left⟩

theorem stepsFrom_of_none (isPlain : (ofCallGraph program calls).siteAt? place = none) :
    (ofCallGraph program calls).stepsFrom place =
      ((program.methodDef place.method).flow.graph.outgoing place.node).map fun arc =>
        ⟨place, .within arc.label, ⟨place.method, arc.target⟩⟩ := by
  have noLink := Option.map_eq_none_iff.mp isPlain
  rw [stepsFrom, stepsInto, noLink, List.append_nil, ← List.flatMap_pure_eq_map]
  refine List.flatMap_congr fun arc isArc => ?_
  have isSource : arc.source = place.node := ((Digraph.mem_outgoing _).mp isArc).2
  rw [stepsAlong, isSource, noLink]
  rfl

theorem stepsFrom_of_some (isSite : (ofCallGraph program calls).siteAt? place = some site) :
    (ofCallGraph program calls).stepsFrom place =
      ((program.methodDef place.method).flow.graph.outgoing place.node).flatMap (fun arc =>
        ⟨place, .bypass site, ⟨place.method, arc.target⟩⟩ ::
          ((ofCallGraph program calls).calleesOf site).map fun callee =>
            ⟨⟨callee, .exit⟩, .leave site callee, ⟨place.method, arc.target⟩⟩) ++
      ((ofCallGraph program calls).calleesOf site).map fun callee =>
        ⟨place, .enter site callee, ⟨callee, .entry⟩⟩ := by
  obtain ⟨⟨other, callees⟩, isLink, rfl⟩ := Option.map_eq_some_iff.mp isSite
  obtain ⟨-, -, -, rfl⟩ := linkAt_eq_some_iff.mp isLink
  rw [stepsFrom, stepsInto, isLink]
  congr 1
  refine List.flatMap_congr fun arc isArc => ?_
  have isSource : arc.source = place.node := ((Digraph.mem_outgoing _).mp isArc).2
  rw [stepsAlong, isSource, isLink]

end Counting

section Filtered

theorem filter_within (isNode : place ∈ (ofCallGraph program calls).graph.nodes)
    (isPlain : (ofCallGraph program calls).siteAt? place = none) :
    ((ofCallGraph program calls).graph.arcs.filter fun step =>
        step.source = place && step.label.isWithin) =
      ((program.methodDef place.method).flow.graph.outgoing place.node).map fun arc =>
        ⟨place, .within arc.label, ⟨place.method, arc.target⟩⟩ := by
  rw [filter_arcs isNode, stepsFrom_of_none isPlain, List.filter_eq_self]
  · intro step isStep
    obtain ⟨arc, -, rfl⟩ := List.mem_map.mp isStep
    simp [Transfer.isWithin]
  · rintro ⟨source, label, target⟩ isWanted
    cases label with
    | within => simpa [Transfer.isWithin, origin] using isWanted
    | _ => simp [Transfer.isWithin] at isWanted

variable (isLinked : (ofCallGraph program calls).calleesOf site ≠ [])

include isLinked

/-- The steps that belong to a linked call are among those that are made for it. -/
theorem filter_label (isWanted : Transfer → Bool)
    (areOwn : ∀ step, isWanted step.label = true → origin step = ⟨site.method, .stmt site.index⟩) :
    ((ofCallGraph program calls).graph.arcs.filter fun step => isWanted step.label) =
      (((program.methodDef site.method).flow.graph.outgoing (.stmt site.index)).flatMap fun arc =>
        (if isWanted (.bypass site) then
          [⟨⟨site.method, .stmt site.index⟩, .bypass site, ⟨site.method, arc.target⟩⟩] else []) ++
        (((ofCallGraph program calls).calleesOf site).filter (isWanted <| .leave site ·)).map
          fun callee => ⟨⟨callee, .exit⟩, .leave site callee, ⟨site.method, arc.target⟩⟩) ++
      (((ofCallGraph program calls).calleesOf site).filter (isWanted <| .enter site ·)).map
        fun callee => ⟨⟨site.method, .stmt site.index⟩, .enter site callee, ⟨callee, .entry⟩⟩ := by
  have isSite := siteAt?_eq_some_iff.mpr ⟨rfl, isLinked⟩
  obtain ⟨callee, isCallee⟩ := List.exists_mem_of_ne_nil _ isLinked
  obtain ⟨isMethod, isPoint, -⟩ := mem_calleesOf.mp isCallee
  have isNode : ⟨site.method, .stmt site.index⟩ ∈ (ofCallGraph program calls).graph.nodes :=
    mem_nodes.mpr ⟨isMethod, Program.stmt_mem_nodes isPoint⟩
  rw [filter_arcs isNode areOwn, stepsFrom_of_some isSite, List.filter_append,
    List.filter_flatMap, List.filter_map]
  congr 1
  refine List.flatMap_congr fun arc _ => ?_
  rw [List.filter_cons, List.filter_map]
  split <;> rfl

theorem filter_bypass :
    ((ofCallGraph program calls).graph.arcs.filter fun step => step.label = .bypass site) =
      ((program.methodDef site.method).flow.graph.outgoing (.stmt site.index)).map fun arc =>
        ⟨⟨site.method, .stmt site.index⟩, .bypass site, ⟨site.method, arc.target⟩⟩ := by
  rw [filter_label isLinked (fun label => label = .bypass site) fun step isLabel => by
    rw [origin, of_decide_eq_true isLabel]]
  simp [← List.map_eq_flatMap]

end Filtered

section Filtered

variable (isCallee : callee ∈ (ofCallGraph program calls).calleesOf site)

include isCallee

theorem filter_calleesOf :
    ((ofCallGraph program calls).calleesOf site).filter (· = callee) = [callee] := by
  rw [List.filter_eq, List.count_eq_one_of_mem nodup_calleesOf isCallee]
  rfl

theorem filter_enter :
    ((ofCallGraph program calls).graph.arcs.filter fun step => step.label = .enter site callee) =
      [⟨⟨site.method, .stmt site.index⟩, .enter site callee, ⟨callee, .entry⟩⟩] := by
  rw [filter_label (List.ne_nil_of_mem isCallee) (fun label => label = .enter site callee)
    fun step isLabel => by rw [origin, of_decide_eq_true isLabel]]
  simp [filter_calleesOf isCallee]

theorem filter_leave :
    ((ofCallGraph program calls).graph.arcs.filter fun step => step.label = .leave site callee) =
      ((ofCallGraph program calls).graph.arcs.filter fun step => step.label = .bypass site).map
        fun step => ⟨⟨callee, .exit⟩, .leave site callee, step.target⟩ := by
  have isLinked := List.ne_nil_of_mem isCallee
  rw [filter_bypass isLinked, List.map_map,
    filter_label isLinked (fun label => label = .leave site callee) fun step isLabel => by
      rw [origin, of_decide_eq_true isLabel]]
  simp [filter_calleesOf isCallee, ← List.map_eq_flatMap, Function.comp_def]

end Filtered

section Runs

/-- The method that is executed is one of the graph, and so are those with the calls that
wait, each of which is linked to the method above it. -/
inductive Waits (program : Program) (calls : CallGraph Site MethodId) :
    MethodId → List Site → Prop where
  | bottom {method : MethodId} : method ∈ (ofCallGraph program calls).methods →
      Waits program calls method []
  | call {site : Site} {callee : MethodId} {waiting : List Site} :
      callee ∈ (ofCallGraph program calls).calleesOf site →
      Waits program calls site.method waiting → Waits program calls callee (site :: waiting)

/-- Control is at a node of the graph, and what waits for it is linked. -/
structure Stands (program : Program) (calls : CallGraph Site MethodId) (control : Control) :
    Prop where
  isNode : control.place ∈ (ofCallGraph program calls).graph.nodes
  waits : Waits program calls control.place.method control.waiting

variable {control next : Control} {label : Transfer} {id : MethodId}
  {steps : List (Arc MethodNode Transfer)} {arc : Arc FlowNode Branch}

theorem mem_calleesOf_iff_mayRun : callee ∈ (ofCallGraph program calls).calleesOf site ↔
    site.method ∈ calls.reachable ∧ (program.methodDef site.method).hasBody = true ∧
      site ∈ program.sitesOf site.method ∧ MayRun program calls site callee := by
  rw [mem_calleesOf, CallGraph.mem_callees, mem_methods, mem_methods]
  constructor
  · rintro ⟨⟨isReachable, hasBody⟩, isPoint, isCallee, wasReachable, hasOwn⟩
    exact ⟨isReachable, hasBody, isPoint, isCallee, wasReachable, hasOwn⟩
  · rintro ⟨isReachable, hasBody, isPoint, isCallee, wasReachable, hasOwn⟩
    exact ⟨⟨isReachable, hasBody⟩, isPoint, isCallee, wasReachable, hasOwn⟩

/-- At the nodes of the graph, a call is linked to whatever it may run. -/
theorem MayRun.mem_calleesOf (mayRun : MayRun program calls site callee)
    (isNode : ⟨site.method, .stmt site.index⟩ ∈ (ofCallGraph program calls).graph.nodes) :
    callee ∈ (ofCallGraph program calls).calleesOf site := by
  obtain ⟨isMethod, isStmt⟩ := mem_nodes.mp isNode
  obtain ⟨isReachable, hasBody⟩ := mem_methods.mp isMethod
  refine mem_calleesOf_iff_mayRun.mpr ⟨isReachable, hasBody, ?_, mayRun⟩
  rcases mem_flowNodes.mp isStmt with isEntry | ⟨index, inBody, isIndex⟩ | isExit
  · cases isEntry
  · exact List.mem_map.mpr ⟨index, List.mem_range.mpr inBody, by rw [← FlowNode.stmt.inj isIndex]⟩
  · cases isExit

section Inside

variable (areInside : ∀ id, (program.methodDef id).JumpsInside)

include areInside

theorem target_mem_nodes (isMethod : id ∈ (ofCallGraph program calls).methods)
    (isArc : arc ∈ (program.methodDef id).flow.graph.arcs) :
    ⟨id, arc.target⟩ ∈ (ofCallGraph program calls).graph.nodes :=
  mem_nodes.mpr ⟨isMethod, MethodDef.target_mem_nodes (areInside id) isArc⟩

/-- The steps of the graph lead from node to node. -/
theorem IsStep.ends (isStep : (ofCallGraph program calls).IsStep step) :
    step.source ∈ (ofCallGraph program calls).graph.nodes ∧
      step.target ∈ (ofCallGraph program calls).graph.nodes := by
  cases isStep with
  | within isMethod isArc _ =>
      exact ⟨mem_nodes.mpr ⟨isMethod, MethodDef.source_mem_nodes isArc⟩,
        target_mem_nodes areInside isMethod isArc⟩
  | bypass isArc isSource isLinked =>
      obtain ⟨callee, isCallee⟩ := List.exists_mem_of_ne_nil _ isLinked
      obtain ⟨isMethod, isPoint, -⟩ := InterFlow.mem_calleesOf.mp isCallee
      exact ⟨mem_nodes.mpr ⟨isMethod, Program.stmt_mem_nodes isPoint⟩,
        target_mem_nodes areInside isMethod isArc⟩
  | enter isCallee =>
      obtain ⟨isMethod, isPoint, -, isOwn⟩ := InterFlow.mem_calleesOf.mp isCallee
      exact ⟨mem_nodes.mpr ⟨isMethod, Program.stmt_mem_nodes isPoint⟩,
        mem_nodes.mpr ⟨isOwn, mem_flowNodes.mpr (.inl rfl)⟩⟩
  | leave isArc isSource isCallee =>
      obtain ⟨isMethod, -, -, isOwn⟩ := InterFlow.mem_calleesOf.mp isCallee
      exact ⟨mem_nodes.mpr ⟨isOwn, mem_flowNodes.mpr (.inr (.inr rfl))⟩,
        target_mem_nodes areInside isMethod isArc⟩

/-- A step of a run is one of the graph, after which control is at a node of it again. -/
theorem Stands.move (stands : Stands program calls control)
    (move : Move program calls control label next) :
    (ofCallGraph program calls).IsStep ⟨control.place, label, next.place⟩ ∧
      Stands program calls next := by
  obtain ⟨isNode, waits⟩ := stands
  obtain ⟨isMethod, -⟩ := mem_nodes.mp isNode
  cases move with
  | @within method arc waiting isArc isPlain =>
      have noSite : (ofCallGraph program calls).siteAt? ⟨method, arc.source⟩ = none := by
        rw [Option.eq_none_iff_forall_ne_some]
        intro site isSite
        obtain ⟨isPlace, isLinked⟩ := siteAt?_eq_some_iff.mp isSite
        obtain ⟨rfl, isSource⟩ := MethodNode.mk.inj isPlace
        obtain ⟨callee, isCallee⟩ := List.exists_mem_of_ne_nil _ isLinked
        exact isPlain _ callee isSource (mem_calleesOf_iff_mayRun.mp isCallee).2.2.2
      exact ⟨.within isMethod isArc noSite, target_mem_nodes areInside isMethod isArc, waits⟩
  | around isArc isSource mayRun =>
      have isLinked := List.ne_nil_of_mem (mayRun.mem_calleesOf isNode)
      exact ⟨.bypass isArc isSource isLinked, target_mem_nodes areInside isMethod isArc, waits⟩
  | call mayRun =>
      have isCallee := mayRun.mem_calleesOf isNode
      have isOwn := (InterFlow.mem_calleesOf.mp isCallee).2.2.2
      exact ⟨.enter isCallee, mem_nodes.mpr ⟨isOwn, mem_flowNodes.mpr (.inl rfl)⟩,
        .call isCallee waits⟩
  | ret isArc isSource =>
      -- the method that is left is linked to the call below it
      cases waits with
      | call isCallee waits =>
          have isCaller := (InterFlow.mem_calleesOf.mp isCallee).1
          exact ⟨.leave isArc isSource isCallee, target_mem_nodes areInside isCaller isArc, waits⟩

/-- The steps of a run are those of the graph. -/
theorem Run.stands (run : Run program calls steps control) :
    steps ⊆ (ofCallGraph program calls).graph.arcs ∧ Stands program calls control := by
  induction run with
  | start isReachable hasBody isNode =>
      have isMethod := mem_methods.mpr ⟨isReachable, hasBody⟩
      exact ⟨nofun, mem_nodes.mpr ⟨isMethod, isNode⟩, .bottom isMethod⟩
  | step _ move ih =>
      obtain ⟨areSteps, stands⟩ := ih
      obtain ⟨isStep, stands⟩ := stands.move areInside move
      exact ⟨List.cons_subset.mpr ⟨mem_arcs_iff.mpr isStep, areSteps⟩, stands⟩

end Inside

end Runs

/-- The graph of the methods reachable in a call graph of a program that a text stands for has
exactly the interprocedural steps. -/
theorem isExactFor_ofCallGraph {text : String} (isProgram : Program.ofText text = .ok program)
    (calls : CallGraph Site MethodId) : (ofCallGraph program calls).IsExactFor program calls where
  nodes place := by rw [mem_nodes, mem_methods, and_assoc]
  nodesOnce := nodup_nodes
  callees _ _ := mem_calleesOf_iff_mayRun
  sites _ _ := siteAt?_eq_some_iff
  within _ isNode isPlain := filter_within isNode isPlain
  bypass _ isLinked := filter_bypass isLinked
  enter _ _ isCallee := filter_enter isCallee
  leave _ _ isCallee := filter_leave isCallee
  only _ isStep := mem_arcs_iff.mp isStep
  ends _ isStep := (mem_arcs_iff.mp isStep).ends (program.jumpsInside_ofText isProgram)
  runs _ _ run := (run.stands (program.jumpsInside_ofText isProgram)).1

/-- Two methods that call themselves and each other, and one that also calls a method without
a body. -/
def mutualText : String := "abstract class A { abstract method o() : void;
  method m(A x) : void { invokevirtual x.<A: void m(A)>(x); invokevirtual x.<A: void o()>(); } }
  class B extends A { method o() : void { }
    method m(A x) : void { invokevirtual x.<A: void m(A)>(x); } }"

/-- A call graph of these methods but one. -/
def mutualCalls : CallGraph Site MethodId where
  nodes := [1, 3, 0]
  entries := [1]
  reachable := [1, 3, 0]
  edges := [⟨.virtual, ⟨1, 0⟩, 1⟩, ⟨.virtual, ⟨1, 0⟩, 3⟩, ⟨.virtual, ⟨1, 1⟩, 0⟩,
    ⟨.virtual, ⟨3, 0⟩, 3⟩, ⟨.virtual, ⟨3, 0⟩, 1⟩]

/-- Each of the two calls is linked to both methods, and the one without callees that have a
body is not linked. -/
theorem isExactFor_mutualCalls : ∃ program, Program.ofText mutualText = .ok program ∧
    (∀ site ∈ [(⟨1, 0⟩ : Site), ⟨3, 0⟩], ∀ callee ∈ [1, 3],
      callee ∈ (ofCallGraph program mutualCalls).calleesOf site) ∧
    (∀ callee, callee ∉ (ofCallGraph program mutualCalls).calleesOf ⟨1, 1⟩) ∧
    (ofCallGraph program mutualCalls).IsExactFor program mutualCalls := by
  have passes : (Program.ofText mutualText).toOption.any (fun program =>
      decide ((∀ site ∈ [(⟨1, 0⟩ : Site), ⟨3, 0⟩], ∀ callee ∈ [1, 3],
          site.method ∈ mutualCalls.reachable ∧ (program.methodDef site.method).hasBody = true ∧
            site ∈ program.sitesOf site.method ∧
            (∃ edge ∈ mutualCalls.edges, edge.site = site ∧ edge.callee = callee) ∧
            callee ∈ mutualCalls.reachable ∧ (program.methodDef callee).hasBody = true) ∧
        ∀ edge ∈ mutualCalls.edges, edge.site = ⟨1, 1⟩ →
          (program.methodDef edge.callee).hasBody = false)) = true := by decide +kernel
  obtain ⟨program, isProgram, holds⟩ := exists_of_test passes
  obtain ⟨areLinked, noBody⟩ := of_decide_eq_true holds
  have isExact := isExactFor_ofCallGraph isProgram mutualCalls
  refine ⟨program, isProgram, fun site isSite callee isCallee => ?_, fun callee isCallee => ?_,
    isExact⟩
  · obtain ⟨isReachable, hasBody, isPoint, isEdge, wasReachable, hasOwn⟩ :=
      areLinked site isSite callee isCallee
    exact (isExact.callees _ _).mpr
      ⟨isReachable, hasBody, isPoint, isEdge, wasReachable, hasOwn⟩
  · obtain ⟨-, -, -, ⟨edge, isEdge, isSite, rfl⟩, -, hasBody⟩ := (isExact.callees _ _).mp isCallee
    exact Bool.false_ne_true ((noBody edge isEdge isSite).symm.trans hasBody)

end InterFlow

end TacAnalysis
