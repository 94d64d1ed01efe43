/-
# Interprocedural graphs

The graph of the methods reachable in a call graph has the nodes of the methods that have
a body, and exactly these steps: the arcs of a method out of the nodes that are not linked
calls, and for each linked call a step to the entry of each method that it is linked to,
and around the call and back from the exits of these methods to wherever the call
returns.
-/

import TacAnalysis.Interprocedural.Graph
import TacAnalysis.Proofs.ClassHierarchyAnalysis
import TacAnalysis.Proofs.ControlFlow
import TacAnalysis.Table

namespace TacAnalysis

namespace InterFlow

/-- A step of an interprocedural graph: an arc of a method out of a node that is not a linked
call, around a linked call, into a method that it is linked to, or back from there. -/
inductive IsStep (flow : InterFlow) : Arc MethodNode Transfer → Prop where
  | within {method : MethodId} {arc : Arc FlowNode Branch} : method ∈ flow.methods →
      arc ∈ (flow.program.methodDef method).flow.graph.arcs →
      flow.siteAt? ⟨method, arc.source⟩ = none →
      IsStep flow ⟨⟨method, arc.source⟩, .within arc.label, ⟨method, arc.target⟩⟩
  | bypass {site : Site} {arc : Arc FlowNode Branch} :
      arc ∈ (flow.program.methodDef site.method).flow.graph.arcs →
      arc.source = .stmt site.index → flow.calleesOf site ≠ [] →
      IsStep flow ⟨⟨site.method, .stmt site.index⟩, .bypass site, ⟨site.method, arc.target⟩⟩
  | enter {site : Site} {callee : MethodId} : callee ∈ flow.calleesOf site →
      IsStep flow ⟨⟨site.method, .stmt site.index⟩, .enter site callee, ⟨callee, .entry⟩⟩
  | leave {site : Site} {callee : MethodId} {arc : Arc FlowNode Branch} :
      arc ∈ (flow.program.methodDef site.method).flow.graph.arcs →
      arc.source = .stmt site.index → callee ∈ flow.calleesOf site →
      IsStep flow ⟨⟨callee, .exit⟩, .leave site callee, ⟨site.method, arc.target⟩⟩

variable {program : Program} {calls : CallGraph Site MethodId} {id callee : MethodId}
  {inner : ControlFlow} {site : Site} {callees methods : List MethodId} {place : MethodNode}

section Methods

theorem mem_flowsOf : (id, inner) ∈ flowsOf program calls ↔
    id ∈ calls.reachable ∧ (program.methodDef id).hasBody = true ∧
      inner = (program.methodDef id).flow := by
  simp only [flowsOf, CallGraph.reachableMethods, List.mem_filterMap, mem_ascending]
  constructor
  · rintro ⟨method, isReachable, isFlow⟩
    split at isFlow
    case h_1 flow isOk =>
        cases isFlow
        exact ⟨isReachable, ControlFlow.ofMethod_eq_ok_iff.mp isOk⟩
    case h_2 => cases isFlow
  · rintro ⟨isReachable, isFlow⟩
    refine ⟨id, isReachable, ?_⟩
    rw [ControlFlow.ofMethod_eq_ok_iff.mpr isFlow]

/-- The methods of the graph are the reachable ones that have a body. -/
theorem mem_methods : id ∈ (ofCallGraph program calls).methods ↔
    id ∈ calls.reachable ∧ (program.methodDef id).hasBody = true := by
  show id ∈ (flowsOf program calls).map Prod.fst ↔ _
  simp only [List.mem_map, Prod.exists, exists_and_right, exists_eq_right, mem_flowsOf,
    exists_and_left]

/-- The nodes of the graph are those of its methods. -/
theorem mem_nodes : place ∈ (ofCallGraph program calls).graph.nodes ↔
    place.method ∈ (ofCallGraph program calls).methods ∧
      place.node ∈ (program.methodDef place.method).flow.graph.nodes := by
  show place ∈ (flowsOf program calls).flatMap _ ↔ _
  rw [List.mem_flatMap, mem_methods]
  constructor
  · rintro ⟨⟨method, inner⟩, isFlow, isNode⟩
    obtain ⟨isReachable, hasBody, rfl⟩ := mem_flowsOf.mp isFlow
    obtain ⟨node, isInner, rfl⟩ := List.mem_map.mp isNode
    exact ⟨⟨isReachable, hasBody⟩, isInner⟩
  · rintro ⟨⟨isReachable, hasBody⟩, isNode⟩
    exact ⟨_, mem_flowsOf.mpr ⟨isReachable, hasBody, rfl⟩, List.mem_map.mpr ⟨_, isNode, rfl⟩⟩

/-- A node executes the statement that it executes in its own method. -/
theorem stmtAt_eq (isMethod : place.method ∈ (ofCallGraph program calls).methods) :
    (ofCallGraph program calls).stmtAt place =
      (program.methodDef place.method).flow.stmtAt place.node := by
  obtain ⟨isReachable, hasBody⟩ := mem_methods.mp isMethod
  have isFound : (flowsOf program calls).lookup place.method =
      some (program.methodDef place.method).flow :=
    (Table.lookup_eq_some_iff_mem (fun id => (program.methodDef id).flow)
      fun _ isEntry => (mem_flowsOf.mp isEntry).2.2).mpr
        (mem_flowsOf.mpr ⟨isReachable, hasBody, rfl⟩)
  rw [stmtAt, show (ofCallGraph program calls).flows = flowsOf program calls from rfl, isFound]

/-- The entry methods of the graph are those of the call graph that have a body. -/
theorem mem_entries : id ∈ (ofCallGraph program calls).entries ↔
    id ∈ calls.entries ∧ id ∈ (ofCallGraph program calls).methods := by
  show id ∈ calls.entries.filter (ofCallGraph program calls).methods.contains ↔ _
  rw [List.mem_filter, List.contains_iff_mem]

end Methods

section Links

theorem mem_linksOf : (site, callees) ∈ linksOf program calls methods ↔
    site.method ∈ methods ∧ site ∈ program.sitesOf site.method ∧ callees ≠ [] ∧
      callees = (calls.callees site).filter methods.contains := by
  simp only [linksOf, List.mem_flatMap, List.mem_filterMap]
  constructor
  · rintro ⟨method, isMethod, other, isSite, isLink⟩
    split at isLink
    case h_1 => cases isLink
    case h_2 isLinked =>
        cases isLink
        obtain ⟨index, -, isOther⟩ := List.mem_map.mp isSite
        cases isOther
        exact ⟨isMethod, isSite, isLinked, rfl⟩
  · rintro ⟨isMethod, isSite, isLinked, rfl⟩
    refine ⟨_, isMethod, _, isSite, ?_⟩
    split
    case h_1 isEmpty => exact absurd isEmpty isLinked
    case h_2 => rfl

theorem lookup_links : (ofCallGraph program calls).links.lookup site = some callees ↔
    (site, callees) ∈ linksOf program calls (ofCallGraph program calls).methods :=
  Table.lookup_eq_some_iff_mem
    (fun site => (calls.callees site).filter (ofCallGraph program calls).methods.contains)
    fun _ isEntry => (mem_linksOf.mp isEntry).2.2.2

/-- A call is linked to the methods of the graph that it may run. -/
theorem mem_calleesOf : callee ∈ (ofCallGraph program calls).calleesOf site ↔
    site.method ∈ (ofCallGraph program calls).methods ∧ site ∈ program.sitesOf site.method ∧
      callee ∈ calls.callees site ∧ callee ∈ (ofCallGraph program calls).methods := by
  rw [calleesOf]
  constructor
  · intro isCallee
    cases isFound : (ofCallGraph program calls).links.lookup site with
    | none =>
        rw [isFound] at isCallee
        cases isCallee
    | some callees =>
        rw [isFound, Option.getD_some] at isCallee
        obtain ⟨isMethod, isSite, -, rfl⟩ := mem_linksOf.mp (lookup_links.mp isFound)
        obtain ⟨isCallee, isIn⟩ := List.mem_filter.mp isCallee
        exact ⟨isMethod, isSite, isCallee, List.contains_iff_mem.mp isIn⟩
  · rintro ⟨isMethod, isSite, isCallee, isIn⟩
    have isLinked := List.mem_filter.mpr ⟨isCallee, List.contains_iff_mem.mpr isIn⟩
    rw [lookup_links.mpr (mem_linksOf.mpr ⟨isMethod, isSite, List.ne_nil_of_mem isLinked, rfl⟩)]
    exact isLinked

theorem lookup_links_eq (isLinked : (ofCallGraph program calls).calleesOf site ≠ []) :
    (ofCallGraph program calls).links.lookup site =
      some ((ofCallGraph program calls).calleesOf site) := by
  rw [calleesOf] at isLinked ⊢
  cases isFound : (ofCallGraph program calls).links.lookup site with
  | none => exact absurd (by rw [isFound]; rfl) isLinked
  | some callees => rfl

/-- The linked calls are the statements that are linked to some method. -/
theorem linkAt_eq_some_iff {node : FlowNode} :
    linkAt (ofCallGraph program calls).links id node = some (site, callees) ↔
      id = site.method ∧ node = .stmt site.index ∧ callees ≠ [] ∧
        callees = (ofCallGraph program calls).calleesOf site := by
  cases node with
  | entry => simp [linkAt]
  | exit => simp [linkAt]
  | stmt index =>
      simp only [linkAt, Option.map_eq_some_iff, Prod.mk.injEq, FlowNode.stmt.injEq]
      constructor
      · rintro ⟨found, isFound, rfl, rfl⟩
        refine ⟨rfl, rfl, (mem_linksOf.mp (lookup_links.mp isFound)).2.2.1, ?_⟩
        rw [calleesOf, isFound, Option.getD_some]
      · rintro ⟨rfl, rfl, isLinked, rfl⟩
        exact ⟨_, lookup_links_eq isLinked, rfl, rfl⟩

theorem siteAt?_eq_some_iff : (ofCallGraph program calls).siteAt? place = some site ↔
    place = ⟨site.method, .stmt site.index⟩ ∧
      (ofCallGraph program calls).calleesOf site ≠ [] := by
  obtain ⟨method, node⟩ := place
  simp only [siteAt?, Option.map_eq_some_iff, Prod.exists, exists_and_right, exists_eq_right,
    linkAt_eq_some_iff, MethodNode.mk.injEq]
  constructor
  · rintro ⟨callees, isMethod, isNode, isLinked, rfl⟩
    exact ⟨⟨isMethod, isNode⟩, isLinked⟩
  · rintro ⟨⟨isMethod, isNode⟩, isLinked⟩
    exact ⟨_, isMethod, isNode, isLinked, rfl⟩

end Links

section Arcs

variable {arc : Arc FlowNode Branch} {step : Arc MethodNode Transfer}

/-- The steps that replace an arc of a method. -/
theorem mem_stepsAlong : step ∈ stepsAlong (ofCallGraph program calls).links id arc ↔
    (ofCallGraph program calls).siteAt? ⟨id, arc.source⟩ = none ∧
        step = ⟨⟨id, arc.source⟩, .within arc.label, ⟨id, arc.target⟩⟩ ∨
      ∃ site, (ofCallGraph program calls).siteAt? ⟨id, arc.source⟩ = some site ∧
        (step = ⟨⟨id, arc.source⟩, .bypass site, ⟨id, arc.target⟩⟩ ∨
          ∃ callee ∈ (ofCallGraph program calls).calleesOf site,
            step = ⟨⟨callee, .exit⟩, .leave site callee, ⟨id, arc.target⟩⟩) := by
  rw [stepsAlong, siteAt?]
  cases isLink : linkAt (ofCallGraph program calls).links id arc.source with
  | none => simp
  | some link =>
      obtain ⟨site, callees⟩ := link
      obtain ⟨-, -, -, rfl⟩ := linkAt_eq_some_iff.mp isLink
      simp [eq_comm]

/-- The steps into the methods that a statement is linked to. -/
theorem mem_stepsInto {node : FlowNode} :
    step ∈ stepsInto (ofCallGraph program calls).links id node ↔
      ∃ site, (ofCallGraph program calls).siteAt? ⟨id, node⟩ = some site ∧
        ∃ callee ∈ (ofCallGraph program calls).calleesOf site,
          step = ⟨⟨id, node⟩, .enter site callee, ⟨callee, .entry⟩⟩ := by
  rw [stepsInto, siteAt?]
  cases isLink : linkAt (ofCallGraph program calls).links id node with
  | none => simp
  | some link =>
      obtain ⟨site, callees⟩ := link
      obtain ⟨-, -, -, rfl⟩ := linkAt_eq_some_iff.mp isLink
      simp [eq_comm]

/-- The graph has exactly the steps of its methods and of its linked calls. -/
theorem mem_arcs_iff : step ∈ (ofCallGraph program calls).graph.arcs ↔
    (ofCallGraph program calls).IsStep step := by
  have isArcs : step ∈ (ofCallGraph program calls).graph.arcs ↔
      ∃ id ∈ (ofCallGraph program calls).methods,
        ∃ node ∈ (program.methodDef id).flow.graph.nodes,
          (∃ arc ∈ (program.methodDef id).flow.graph.arcs, arc.source = node ∧
            step ∈ stepsAlong (ofCallGraph program calls).links id arc) ∨
          step ∈ stepsInto (ofCallGraph program calls).links id node := by
    show step ∈ (flowsOf program calls).flatMap _ ↔ _
    simp only [List.mem_flatMap, List.mem_append, Digraph.outgoing, List.mem_reverse,
      List.mem_filter, decide_eq_true_eq, and_assoc]
    constructor
    · rintro ⟨⟨method, inner⟩, isFlow, node, isNode, isStep⟩
      obtain ⟨isReachable, hasBody, rfl⟩ := mem_flowsOf.mp isFlow
      exact ⟨method, mem_methods.mpr ⟨isReachable, hasBody⟩, node, isNode, isStep⟩
    · rintro ⟨method, isMethod, node, isNode, isStep⟩
      obtain ⟨isReachable, hasBody⟩ := mem_methods.mp isMethod
      exact ⟨_, mem_flowsOf.mpr ⟨isReachable, hasBody, rfl⟩, node, isNode, isStep⟩
  rw [isArcs]
  constructor
  · rintro ⟨method, isMethod, node, -, ⟨arc, isArc, rfl, isAlong⟩ | isInto⟩
    · rcases mem_stepsAlong.mp isAlong with ⟨isPlain, rfl⟩ | ⟨site, isSite, isAround⟩
      · exact .within isMethod isArc isPlain
      · obtain ⟨isPlace, isLinked⟩ := siteAt?_eq_some_iff.mp isSite
        obtain ⟨rfl, isSource⟩ := MethodNode.mk.inj isPlace
        rcases isAround with rfl | ⟨callee, isCallee, rfl⟩
        · rw [isSource]
          exact .bypass isArc isSource isLinked
        · exact .leave isArc isSource isCallee
    · obtain ⟨site, isSite, callee, isCallee, rfl⟩ := mem_stepsInto.mp isInto
      rw [(siteAt?_eq_some_iff.mp isSite).1]
      exact .enter isCallee
  · intro isStep
    have isSite {site : Site} {callee : MethodId}
        (isCallee : callee ∈ (ofCallGraph program calls).calleesOf site) :
        (ofCallGraph program calls).siteAt? ⟨site.method, .stmt site.index⟩ = some site :=
      siteAt?_eq_some_iff.mpr ⟨rfl, List.ne_nil_of_mem isCallee⟩
    cases isStep with
    | @within method arc isMethod isArc isPlain =>
        exact ⟨method, isMethod, arc.source, MethodDef.source_mem_nodes isArc,
          .inl ⟨arc, isArc, rfl, mem_stepsAlong.mpr (.inl ⟨isPlain, rfl⟩)⟩⟩
    | @bypass site arc isArc isSource isLinked =>
        obtain ⟨callee, isCallee⟩ := List.exists_mem_of_ne_nil _ isLinked
        refine ⟨site.method, (mem_calleesOf.mp isCallee).1, arc.source,
          MethodDef.source_mem_nodes isArc, .inl ⟨arc, isArc, rfl, ?_⟩⟩
        rw [mem_stepsAlong, isSource]
        exact .inr ⟨site, isSite isCallee, .inl rfl⟩
    | @enter site callee isCallee =>
        obtain ⟨isMethod, isPoint, -⟩ := mem_calleesOf.mp isCallee
        exact ⟨site.method, isMethod, .stmt site.index, Program.stmt_mem_nodes isPoint,
          .inr (mem_stepsInto.mpr ⟨site, isSite isCallee, callee, isCallee, rfl⟩)⟩
    | @leave site callee arc isArc isSource isCallee =>
        refine ⟨site.method, (mem_calleesOf.mp isCallee).1, arc.source,
          MethodDef.source_mem_nodes isArc, .inl ⟨arc, isArc, rfl, ?_⟩⟩
        rw [mem_stepsAlong, isSource]
        exact .inr ⟨site, isSite isCallee, .inr ⟨callee, isCallee, rfl⟩⟩

end Arcs

section Hierarchy

/-- In the graph of class hierarchy analysis, a call is linked to everything that it may
run. -/
theorem mem_calleesOf_hierarchy (isGraph : program.IsHierarchyGraph calls) :
    callee ∈ (ofCallGraph program calls).calleesOf site ↔
      site.method ∈ (ofCallGraph program calls).methods ∧
        ∃ invoke, program.stmt site = .call invoke ∧ callee ∈ program.resolve invoke := by
  rw [mem_calleesOf, CallGraph.mem_callees]
  constructor
  · rintro ⟨isMethod, -, ⟨edge, isEdge, rfl, rfl⟩, -⟩
    obtain ⟨-, invoke, isCall, -, isCallee⟩ :=
      Program.mem_methodEdges.mp ((isGraph.edges edge).mp isEdge).2
    exact ⟨isMethod, invoke, isCall, isCallee⟩
  · rintro ⟨isMethod, invoke, isCall, isCallee⟩
    have isEdge : ⟨invoke.kind, site, callee⟩ ∈ calls.edges :=
      (isGraph.edges _).mpr ⟨(mem_methods.mp isMethod).1,
        Program.mem_methodEdges.mpr ⟨rfl, invoke, isCall, rfl, isCallee⟩⟩
    refine ⟨isMethod, Program.mem_sitesOf (by simp [isCall]), ⟨_, isEdge, rfl, rfl⟩, ?_⟩
    exact mem_methods.mpr ⟨isGraph.closed _ isEdge, Program.hasBody_of_mem_resolve isCallee⟩

end Hierarchy

end InterFlow

end TacAnalysis
