/-
# Commands at work

The report of each command on a program.
-/

import TacAnalysis.CommandLine.Pattern
import TacAnalysis.CommandLine.Report
import TacAnalysis.DeadCode
import TacAnalysis.Interprocedural.ConstantPropagation
import TacAnalysis.PointsTo.Result
import TacAnalysis.Program.Resolution
import TacAnalysis.Text.Columns
import TacAnalysis.Text.Document

namespace TacAnalysis.CommandLine

open Reporting

/-- The pattern of a text, or the failure of having none. -/
def patternOf (text : Option String) : Reporting (Option Pattern) :=
  match text with
  | none => pure none
  | some text =>
      match Pattern.ofText? text with
      | some pattern => pure (some pattern)
      | none => throw (.badPattern text)

/-- Whether a name is selected; without pattern every name is. -/
def selects (pattern : Option Pattern) (name : String) : Bool :=
  pattern.all (·.isFoundIn name)

/-- Whether a filter leaves every method. -/
def Filter.isTrivial (filter : Filter) : Bool :=
  filter.className.isNone && filter.methodName.isNone

/-- The methods that a filter selects. -/
def Filter.condition (filter : Filter) (program : Program) : Reporting (MethodId → Bool) := do
  let className ← patternOf filter.className
  let methodName ← patternOf filter.methodName
  pure fun id =>
    let method := program.methodDef id
    selects className (program.classDef method.owner).name && selects methodName method.sub.name

/-- Writes a text of some kind, if there is a file for it. -/
def writeTo (kind : OutputKind) (path : Option String) (text : String) : Reporting Unit :=
  match path with
  | none => pure ()
  | some path => do
      perform (.write kind path text)
      info (kind.name ++ " output written in " ++ Text.quoted path.toList)

/-- The points-to analysis under a selector given by its name. -/
def pointsToUnder (program : Program) (name : String) :
    Reporting (PointsTo.Selector × PointsTo.State) := do
  let selector ← analyzed (PointsTo.Selector.ofName name)
  pure (selector, ← analyzed (program.pointsTo selector ampleSteps))

/-- A call edge as written in a list of edges. -/
def edgeRecord (program : Program) (edge : CallEdge Site MethodId) : Text.Document :=
  .record
    [("kind", .text edge.kind.render), ("caller", .text (program.signature edge.site.method)),
      ("call_site", .number edge.site.index), ("callee", .text (program.signature edge.callee))]

/-- Builds the call graph, without or with a points-to analysis, and writes it. -/
def reportCallGraph (program : Program) (selector drawing json : Option String)
    (filter : Filter) : Reporting Unit := do
  let calls ← match selector with
    | none => analyzed program.hierarchyCallGraph
    | some name => do
        let (selector, state) ← pointsToUnder program name
        let size := state.statistics selector
        info (size.selector ++ " pointer analysis: " ++ toString size.contexts ++ " contexts, " ++
          toString size.methods ++ " context sensitive methods")
        pure state.callGraph
  let calls ← if filter.isTrivial then pure calls else calls.filter <$> filter.condition program
  info ("callgraph contains " ++ toString calls.reachable.length ++ " methods with:")
  info ("    - " ++ toString calls.callSites.length ++ " call sites")
  info ("    - " ++ toString calls.edges.length ++ " call edges")
  writeTo .dot drawing (calls.toDot program.signature)
  writeTo .json json (Text.Document.list (calls.sortedEdges.map (edgeRecord program))).render

/-- The width statements are brought to before the facts that follow them. -/
def statementWidth : Nat := 40

/-- The position of a statement as shown before it. -/
def positionText (index : Nat) : String := "  " ++ Text.alignRight 4 (toString index) ++ ": "

/-- Prints the statements of a method, each with the constants known after it. -/
def printConstants (program : Program) (id : MethodId) (factAt : Nat → ConstFact) :
    Reporting Unit := do
  perform (.print (program.signature id))
  for (stmt, index) in (program.methodDef id).body.toList.zipIdx do
    perform (.print (positionText index ++
      Text.alignLeft statementWidth (program.renderStmt stmt) ++ " " ++
      (factAt index).renderWith fun var => (program.localDef var).name))

/-- The methods with a body that satisfy a condition. -/
def methodsWithBody (program : Program) (condition : MethodId → Bool) : List MethodId :=
  (List.range program.methods.size).filter fun id =>
    (program.methodDef id).hasBody && condition id

/-- An analysis of each of some methods. -/
abbrev MethodResults (α : Type) := List (MethodId × Except AnalysisError α)

/-- Shows the result of an analysis of each of some methods. Methods that could not be
analyzed are reported as errors and do not stop the others; they are counted, and
the error of the last one is kept. -/
def showEach {α : Type} (program : Program) (results : MethodResults α)
    (display : MethodId → α → Reporting Unit) : Reporting (Nat × Option AnalysisError) := do
  let mut failed := 0
  let mut last := none
  for (id, result) in results do
    match result with
    | .ok result => display id result
    | .error error =>
        perform (.message .error (program.signature id ++ ": " ++ error.message))
        failed := failed + 1
        last := some error
  pure (failed, last)

/-- Stops a report that has met an error. -/
def failWith : Option AnalysisError → Reporting Unit
  | none => pure ()
  | some error => throw (.analysis error)

/-- Propagates constants in each method by itself. -/
def reportConstants (program : Program) (filter : Filter) : Reporting Unit := do
  let methods := methodsWithBody program (← filter.condition program)
  let results := methods.map fun id => (id, program.propagateConstants ampleSteps id)
  let (failed, last) ← showEach program results fun id facts =>
    printConstants program id fun index => facts.after.get (.stmt index)
  info ("analyzed methods: " ++ toString (methods.length - failed) ++ " / " ++
    toString methods.length)
  failWith last

/-- Propagates constants across calls. -/
def reportConstantsAcross (program : Program) (selector : Option String) (filter : Filter) :
    Reporting Unit := do
  let condition ← filter.condition program
  let calls ← match selector with
    | none => analyzed program.hierarchyCallGraph
    | some name => do
        let (_, state) ← pointsToUnder program name
        pure state.callGraph
  let flow := InterFlow.ofCallGraph program calls
  info ("interprocedural CFG over " ++ toString flow.methods.length ++ " methods, " ++
    toString flow.graph.nodes.length ++ " nodes")
  let facts ← analyzed (program.interConstantAnalysis.analyze flow ampleSteps)
  for id in flow.methods.filter condition do
    printConstants program id fun index => facts.after.get ⟨id, .stmt index⟩

/-- A line shown in red. -/
def highlighted (line : String) : String := "\x1b[31m" ++ line ++ "\x1b[0m"

/-- Prints the statements of a method that do nothing, or all of them with those
highlighted. -/
def printDeadCode (program : Program) (showsAll : Bool) (id : MethodId) (dead : List Nat) :
    Reporting Unit := do
  if !dead.isEmpty || showsAll then
    perform (.print (program.signature id))
    for (stmt, index) in (program.methodDef id).body.toList.zipIdx do
      let line := positionText index ++ program.renderStmt stmt
      if dead.contains index then perform (.print (highlighted line))
      else if showsAll then perform (.print line)

/-- Looks for statements that do nothing. -/
def reportDeadCode (program : Program) (filter : Filter) (showsAll : Bool) :
    Reporting Unit := do
  let methods := methodsWithBody program (← filter.condition program)
  let results := methods.map fun id => (id, program.deadCode ampleSteps id)
  let (_, last) ← showEach program results (printDeadCode program showsAll)
  let dead := results.flatMap fun result => result.2.toOption.getD []
  info ""
  info (toString dead.length ++ " dead statements in " ++ toString methods.length ++ " methods")
  failWith last

/-- Counts and draws the classes. -/
def reportHierarchy (program : Program) (drawing : Option String) : Reporting Unit := do
  let interfaces := program.classes.toList.countP ClassDef.isInterface
  info ("hierarchy contains " ++ toString (program.classes.size - interfaces) ++
    " classes and " ++ toString interfaces ++ " interfaces")
  writeTo .dot drawing program.hierarchyDot

/-- A variable, and the objects it may hold. -/
structure VarReport where
  method : String
  var : String
  objects : List String
  deriving DecidableEq, Inhabited

/-- A variable as printed on a line. -/
def VarReport.line (report : VarReport) : String :=
  report.method ++ " " ++ report.var ++ " -> \x7b" ++ ", ".intercalate report.objects ++ "\x7d"

/-- A variable as written in a list of variables. -/
def VarReport.record (report : VarReport) : Text.Document :=
  .record
    [("method", .text report.method), ("var", .text report.var),
      ("objs", .list (report.objects.map .text))]

/-- The size of a points-to analysis as written with its results. -/
def statisticsRecord (size : PointsTo.Statistics) : Text.Document :=
  .record
    [("selector", .text size.selector), ("iterations", .number size.iterations),
      ("contexts", .number size.contexts), ("objs", .number size.objects),
      ("cs_objs", .number size.qualifiedObjects), ("pointers", .number size.pointers),
      ("pfg_edges", .number size.edges), ("cs_methods", .number size.methods),
      ("cs_call_edges", .number size.callEdges)]

/-- The variables of reference types of a method. -/
def varReports (program : Program) (state : PointsTo.State) (id : MethodId) : List VarReport :=
  ((program.methodDef id).vars.filter program.isReference).map fun var =>
    { method := program.signature id
      var := (program.localDef var).name
      objects := (state.objectsInVar var).map fun object =>
        let allocated := state.heap.object object
        "new " ++ allocated.ty.render ++ "@" ++ program.signature allocated.site.method ++ ":" ++
          toString allocated.site.index }

/-- Analyzes which objects variables may hold. -/
def reportPointsTo (program : Program) (selector : String) (json : Option String)
    (filter : Filter) : Reporting Unit := do
  let (selector, state) ← pointsToUnder program selector
  let condition ← filter.condition program
  let size := state.statistics selector
  info (size.selector ++ " pointer analysis done in " ++ toString size.iterations ++
    " iterations:")
  info ("    - " ++ toString state.reachableMethods.length ++ " reachable methods (" ++
    toString size.methods ++ " with contexts)")
  info ("    - " ++ toString size.objects ++ " abstract objects (" ++
    toString size.qualifiedObjects ++ " with contexts)")
  info ("    - " ++ toString size.pointers ++ " pointers, " ++ toString size.edges ++
    " PFG edges")
  let vars := (state.reachableMethods.filter condition).flatMap (varReports program state)
  match json with
  | none => for report in vars do perform (.print report.line)
  | some _ =>
      writeTo .json json
        (Text.Document.record
          [("stats", statisticsRecord size), ("vars", .list (vars.map VarReport.record))]).render

/-- The work of a command. -/
def Command.work (program : Program) : Command → Reporting Unit
  | callGraph selector drawing json filter => reportCallGraph program selector drawing json filter
  | constants filter => reportConstants program filter
  | constantsAcross selector filter => reportConstantsAcross program selector filter
  | deadCode filter showsAll => reportDeadCode program filter showsAll
  | hierarchy drawing => reportHierarchy program drawing
  | pointsTo selector json filter => reportPointsTo program selector json filter

/-- The report of a request whose program has some text. -/
def Request.report (request : Request) (text : String) : Report :=
  Reporting.report do
    match Program.ofText text with
    | .error error => throw (.program error)
    | .ok program => do
        if program.entries.isEmpty then
          perform (.message .warning "program has no entry method")
        perform (.message .debug (request.input ++ ": " ++ toString program.classes.size ++
          " classes, " ++ toString program.methods.size ++ " methods"))
        request.command.work program

end TacAnalysis.CommandLine
